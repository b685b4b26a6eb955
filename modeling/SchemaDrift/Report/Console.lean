/-
  SchemaDrift.Report.Console
  ──────────────────────────
  **WHAT A TERMINAL SHOWS.**

  A run writes lines to two streams: what it says, and what is wrong.  Parts of a line are
  painted; paint is a code in front of the part and the code that ends it behind, so that
  paints can be laid over one another.
-/

import SchemaDrift.Report.Fault
import SchemaDrift.Report.Notice

namespace SchemaDrift

/-! ## §1. Paint. -/

/-- How a part of a line is shown. -/
inductive Paint where
  | bold
  | dim
  | red
  | green
  | yellow
  | blue
  | cyan
  deriving Repr, DecidableEq

namespace Paint

/-- The number of the code that begins the paint. -/
def opening : Paint → Nat
  | .bold => 1
  | .dim => 2
  | .red => 31
  | .green => 32
  | .yellow => 33
  | .blue => 34
  | .cyan => 36

/-- The number of the code that ends the paint: one for weights, one for colours. -/
def closing : Paint → Nat
  | .bold | .dim => 0
  | _ => 39

/-- A code for the terminal. -/
def code (n : Nat) : String := "\x1b[" ++ toString n ++ "m"

/-- The text with the paint on it. -/
def on (p : Paint) (text : String) : String := code p.opening ++ text ++ code p.closing

/-- The text in this colour and in bold letters. -/
def boldly (p : Paint) (text : String) : String := bold.on (p.on text)

end Paint

/-! ## §2. Lines. -/

/-- The streams of a terminal. -/
inductive Stream where
  | said
  | wrong
  deriving Repr, DecidableEq

/-- A line for a terminal. -/
structure ConsoleLine where
  stream : Stream
  text : String
  deriving Repr, DecidableEq

/-- What the lines write to one of the streams, with a line feed behind each. -/
def onStream (s : Stream) (lines : List ConsoleLine) : String :=
  String.join ((lines.filter (·.stream = s)).map fun l => l.text ++ "\n")

/-- A line of what is said. -/
def say (text : String) : ConsoleLine := ⟨.said, text⟩

/-! ## §3. Notices. -/

/-- The text behind so many spaces that it takes twelve places. -/
def inTwelve (text : String) : String := "".pushn ' ' (12 - text.length) ++ text

/-- The colour of an event. -/
def FileEvent.paint : FileEvent → Paint
  | .added => .green
  | .modified => .yellow
  | _ => .red

/-- The line that shows a notice; some are not shown. -/
def Notice.line? : Notice → Option ConsoleLine
  | .success text => some (say (Paint.green.on "✓" ++ " " ++ text))
  | .error text => some ⟨.wrong, Paint.red.on "✗" ++ " " ++ text⟩
  | .info text => some (say text)
  | .warning text => some (say (Paint.yellow.on "⚠" ++ " " ++ text))
  | .heading text => some (say ("\n" ++ Paint.bold.on text))
  | .status action text => some (say (Paint.green.boldly (inTwelve action) ++ " " ++ text))
  | .debug _ => none
  | .file .unmodified _ => none
  | .file event path =>
    let text := event.paint.boldly (inTwelve event.label) ++ " " ++ path
    some ⟨if event = .failed then .wrong else .said, text⟩

/-! ## §4. Faults. -/

/-- The lines that show why a run failed, and what to do about it. -/
def Fault.lines (f : Fault) : List ConsoleLine :=
  let advice := match f.advice? with
    | some text => [say "\nSuggestion", say text]
    | none => []
  ⟨.wrong, "✗  " ++ f.story⟩ :: advice

end SchemaDrift
