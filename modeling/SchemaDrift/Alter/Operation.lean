/-
  SchemaDrift.Alter.Operation
  ───────────────────────────
  **THE STATEMENTS THAT TURN ONE TABLE INTO ANOTHER.**

  Every step becomes an operation with the statements that perform it.  If the primary
  key changes, the old key is dropped in front of the first statement that could conflict
  with it, and the new key is added behind the last operation that has to do with it.
-/

import SchemaDrift.Alter.Step

namespace SchemaDrift.Alter

open SchemaDrift.Sql SchemaDrift.Rename SchemaDrift.Number

/-! ## §1. Operations. -/

/-- What an operation does. -/
inductive OperationKind where
  | add (column : String)
  | drop (column : String)
  | modify (column : String) (changes : List ColumnChange)
  | rename (source target : String) (confidence : Rat) (unsure : Bool)
  deriving Repr, DecidableEq

/-- One operation and the statements that perform it. -/
structure Operation where
  kind : OperationKind
  sql : List String
  deriving Repr, DecidableEq

/-- The operation is a rename to be confirmed by hand. -/
def Operation.requiresConfirmation (o : Operation) : Bool :=
  match o.kind with
  | .rename _ _ _ unsure => unsure
  | _ => false

/-- The operation in a few words. -/
def Operation.describe (o : Operation) : String :=
  match o.kind with
  | .add column => s!"add column {column}"
  | .drop column => s!"drop column {column}"
  | .modify column changes =>
    let labels := ", ".intercalate (changes.map ColumnChange.label)
    s!"modify column {column} ({labels})"
  | .rename source target confidence _ =>
    s!"rename column {source} -> {target} (confidence {fixed 2 confidence})"

/-! ## §2. Statements. -/

/-- The table that is altered, and whether its key is rebuilt. -/
structure Target where
  table : Table
  rebuildsKey : Bool
  deriving Repr, DecidableEq

namespace Target

/-- A statement that alters the table. -/
def alter (t : Target) (clause : String) : String :=
  "ALTER TABLE " ++ t.table.sqlName ++ " " ++ clause ++ ";"

/-- The name of a constraint of one column. -/
def constraintName (t : Target) (column suffix : String) : String :=
  quoteIdent (t.table.name ++ "_" ++ column ++ "_" ++ suffix)

/-- The name of the primary key. -/
def keyName (t : Target) : String := quoteIdent (t.table.name ++ "_pkey")

/-- The statement that drops the old key, if it is to be dropped and is not yet. -/
def dropKey (t : Target) (dropped : Bool) : List String :=
  if t.rebuildsKey && !dropped then
    [t.alter ("DROP CONSTRAINT IF EXISTS " ++ t.keyName)]
  else []

/-- The statement that adds the new key, if there is one to add. -/
def addKey (t : Target) : List String :=
  let columns := t.table.keyColumns.map quoteIdent
  if !t.rebuildsKey || columns.isEmpty then []
  else [t.alter ("ADD CONSTRAINT " ++ t.keyName ++ " PRIMARY KEY (" ++
    ", ".intercalate columns ++ ")")]

/-- The statement that changes a column in place. -/
def inPlace (t : Target) (new : Column) (change : ColumnChange) : List String :=
  let column := quoteIdent new.name
  let alterColumn := fun action => [t.alter ("ALTER COLUMN " ++ column ++ " " ++ action)]
  match change with
  | .type =>
    alterColumn ("TYPE " ++ new.dataType ++ " USING " ++ column ++ "::" ++ new.dataType)
  | .nullability => alterColumn ((if new.nullable then "DROP" else "SET") ++ " NOT NULL")
  | .default =>
    match new.defaultExpr with
    | some e => alterColumn ("SET DEFAULT " ++ e)
    | none => alterColumn "DROP DEFAULT"
  | _ => []

/-- The constraint that a change replaces: the ending of its name, and its new definition
if there is one. -/
def constraint? (new : Column) (change : ColumnChange) : Option (String × Option String) :=
  let column := quoteIdent new.name
  match change with
  | .unique => some ("key", if explicitUnique new then some ("UNIQUE (" ++ column ++ ")") else none)
  | .foreignKey =>
    some ("fkey", new.foreignKey.map fun k => "FOREIGN KEY (" ++ column ++ ") " ++ k.toSql)
  | .check => some ("check", new.checkExpr.map fun e => "CHECK (" ++ e ++ ")")
  | _ => none

/-- The statement that drops the constraint of a change. -/
def dropConstraint (t : Target) (old new : Column) (change : ColumnChange) : List String :=
  match constraint? new change with
  | some (suffix, _) =>
    [t.alter ("DROP CONSTRAINT IF EXISTS " ++ t.constraintName old.name suffix)]
  | none => []

/-- The statement that adds the constraint of a change. -/
def addConstraint (t : Target) (new : Column) (change : ColumnChange) : List String :=
  match constraint? new change with
  | some (suffix, some definition) =>
    [t.alter ("ADD CONSTRAINT " ++ t.constraintName new.name suffix ++ " " ++ definition)]
  | _ => []

/-- The statements that modify a column: drops of constraints, changes in place, additions
of constraints.  `dropped` tells whether the old key is dropped already. -/
def modify (t : Target) (dropped : Bool) (old new : Column) (changes : List ColumnChange) :
    List String :=
  changes.flatMap (fun change =>
      if change = .primaryKey then t.dropKey dropped else t.dropConstraint old new change)
    ++ changes.flatMap (t.inPlace new)
    ++ changes.flatMap (t.addConstraint new)

/-! ## §3. From steps to operations. -/

/-- The step takes a column out of the primary key or puts one into it. -/
def touchesKey : Step → Bool
  | .rename _ _ _ => false
  | .modify old new _ => old.inPrimaryKey ≠ new.inPrimaryKey
  | .add c => c.inPrimaryKey
  | .drop c => c.inPrimaryKey

/-- The operation of a step. -/
def operation (t : Target) (dropped : Bool) : Step → Operation
  | .rename old new p =>
    { kind := .rename old.name new.name p.score p.unsure
      sql := [t.alter ("RENAME COLUMN " ++ quoteIdent old.name ++ " TO " ++ quoteIdent new.name)] }
  | .modify old new _ =>
    let changes := columnChanges old new
    { kind := .modify new.name changes, sql := t.modify dropped old new changes }
  | .add c =>
    { kind := .add c.name
      sql :=
        if t.rebuildsKey && c.inPrimaryKey then
          t.dropKey dropped ++ [t.alter ("ADD COLUMN " ++ c.withoutPrimaryKey.toSql)]
        else [t.alter ("ADD COLUMN " ++ c.toSql)] }
  | .drop c =>
    { kind := .drop c.name
      sql :=
        (if c.inPrimaryKey then t.dropKey dropped else [])
          ++ [t.alter ("DROP COLUMN " ++ quoteIdent c.name)] }

/-- A modification that takes no statement is left out, unless it follows a rename. -/
def isOmitted (s : Step) (o : Operation) : Bool :=
  match s with
  | .modify _ _ renamed => !renamed && o.sql.isEmpty
  | _ => false

/-- The operations of some steps, each with whether it touches the key. -/
def operations (t : Target) (dropped : Bool) : List Step → List (Operation × Bool)
  | [] => []
  | s :: rest =>
    let o := t.operation dropped s
    let behind := t.operations (dropped || touchesKey s) rest
    if isOmitted s o then behind else (o, touchesKey s) :: behind

end Target

/-- Adds statements to the last operation that touches the key. -/
def appendToLast (sql : List String) : List (Operation × Bool) → List Operation
  | [] => []
  | (o, touches) :: rest =>
    if touches && !rest.any (·.2) then { o with sql := o.sql ++ sql } :: rest.map (·.1)
    else o :: appendToLast sql rest

/-- The operations that turn one definition of a table into another. -/
def diff (old new : Table) : List Operation :=
  let target : Target := ⟨new, keyChanges old new⟩
  appendToLast target.addKey (target.operations false (steps old new))

end SchemaDrift.Alter
