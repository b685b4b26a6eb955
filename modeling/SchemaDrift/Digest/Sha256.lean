/-
  SchemaDrift.Digest.Sha256
  ─────────────────────────
  **SHA-256.**

  The message is padded to blocks of sixteen 32-bit words; each block is spread over
  sixty-four words and stirred into eight words of state, one round a word.  The digest
  of a text is that of its UTF-8 bytes, written in lower-case hexadecimal.
-/

namespace SchemaDrift.Digest

/-! ## §1. Words. -/

/-- The word turned right by `n` bits. -/
def rotateRight (w : UInt32) (n : UInt32) : UInt32 := (w >>> n) ||| (w <<< (32 - n))

/-- The word that four bytes spell, the highest first. -/
def wordOfBytes (a b c d : UInt8) : UInt32 :=
  (a.toUInt32 <<< 24) ||| (b.toUInt32 <<< 16) ||| (c.toUInt32 <<< 8) ||| d.toUInt32

/-- The words that a list of bytes spells; fewer than four bytes at the end spell none. -/
def wordsOfBytes : List UInt8 → List UInt32
  | a :: b :: c :: d :: rest => wordOfBytes a b c d :: wordsOfBytes rest
  | _ => []

/-- The eight bytes of a number below `2 ^ 64`, the highest first. -/
def lengthBytes (n : Nat) : List UInt8 :=
  [7, 6, 5, 4, 3, 2, 1, 0].map fun i => (n >>> (8 * i)).toUInt8

/-- The message, a one bit, zeros up to eight bytes before the end of a block, and the
length of the message in bits. -/
def padded (message : List UInt8) : List UInt8 :=
  let zeros := (119 - message.length % 64) % 64
  message ++ 0x80 :: List.replicate zeros 0 ++ lengthBytes (8 * message.length)

/-! ## §2. Rounds. -/

/-- The round constants. -/
def roundConstants : List UInt32 :=
  [ 0x428a2f98, 0x71374491, 0xb5c0fbcf, 0xe9b5dba5, 0x3956c25b, 0x59f111f1, 0x923f82a4, 0xab1c5ed5,
    0xd807aa98, 0x12835b01, 0x243185be, 0x550c7dc3, 0x72be5d74, 0x80deb1fe, 0x9bdc06a7, 0xc19bf174,
    0xe49b69c1, 0xefbe4786, 0x0fc19dc6, 0x240ca1cc, 0x2de92c6f, 0x4a7484aa, 0x5cb0a9dc, 0x76f988da,
    0x983e5152, 0xa831c66d, 0xb00327c8, 0xbf597fc7, 0xc6e00bf3, 0xd5a79147, 0x06ca6351, 0x14292967,
    0x27b70a85, 0x2e1b2138, 0x4d2c6dfc, 0x53380d13, 0x650a7354, 0x766a0abb, 0x81c2c92e, 0x92722c85,
    0xa2bfe8a1, 0xa81a664b, 0xc24b8b70, 0xc76c51a3, 0xd192e819, 0xd6990624, 0xf40e3585, 0x106aa070,
    0x19a4c116, 0x1e376c08, 0x2748774c, 0x34b0bcb5, 0x391c0cb3, 0x4ed8aa4a, 0x5b9cca4f, 0x682e6ff3,
    0x748f82ee, 0x78a5636f, 0x84c87814, 0x8cc70208, 0x90befffa, 0xa4506ceb, 0xbef9a3f7, 0xc67178f2 ]

/-- Spreads the next `n` words over the message schedule; `window` holds the sixteen
words from which the following ones are made. -/
def spread (window : List UInt32) : Nat → List UInt32
  | 0 => []
  | n + 1 =>
    let word := fun i => window.getD i 0
    let early := word 1
    let late := word 14
    let new := (rotateRight late 17 ^^^ rotateRight late 19 ^^^ (late >>> 10)) + word 9
      + (rotateRight early 7 ^^^ rotateRight early 18 ^^^ (early >>> 3)) + word 0
    word 0 :: spread (window.tail ++ [new]) n

/-- The eight words of state. -/
structure Words where
  a : UInt32
  b : UInt32
  c : UInt32
  d : UInt32
  e : UInt32
  f : UInt32
  g : UInt32
  h : UInt32
  deriving Repr, DecidableEq

/-- The state before the first block. -/
def Words.start : Words :=
  ⟨0x6a09e667, 0xbb67ae85, 0x3c6ef372, 0xa54ff53a, 0x510e527f, 0x9b05688c, 0x1f83d9ab, 0x5be0cd19⟩

/-- One round, with a constant and a word of the schedule. -/
def Words.round (s : Words) (constant word : UInt32) : Words :=
  let choice := (s.e &&& s.f) ^^^ (~~~s.e &&& s.g)
  let majority := (s.a &&& s.b) ^^^ (s.a &&& s.c) ^^^ (s.b &&& s.c)
  let t := s.h + (rotateRight s.e 6 ^^^ rotateRight s.e 11 ^^^ rotateRight s.e 25) + choice
    + constant + word
  let u := (rotateRight s.a 2 ^^^ rotateRight s.a 13 ^^^ rotateRight s.a 22) + majority
  ⟨t + u, s.a, s.b, s.c, s.d + t, s.e, s.f, s.g⟩

/-- The wordwise sum. -/
def Words.add (s t : Words) : Words :=
  ⟨s.a + t.a, s.b + t.b, s.c + t.c, s.d + t.d, s.e + t.e, s.f + t.f, s.g + t.g, s.h + t.h⟩

/-- The state behind one block of sixteen words. -/
def Words.absorb (s : Words) (block : List UInt32) : Words :=
  ((roundConstants.zip (spread block 64)).foldl (fun t (k, w) => t.round k w) s).add s

/-- The state behind the first `n` blocks of a list of words. -/
def Words.absorbAll (s : Words) : Nat → List UInt32 → Words
  | 0, _ => s
  | n + 1, words => (s.absorb (words.take 16)).absorbAll n (words.drop 16)

/-! ## §3. The digest. -/

/-- The eight words of the digest of a message. -/
def sha256 (message : List UInt8) : Words :=
  let words := wordsOfBytes (padded message)
  Words.start.absorbAll (words.length / 16) words

/-- The eight hexadecimal digits of a word. -/
def hexOfWord (w : UInt32) : List Char :=
  [7, 6, 5, 4, 3, 2, 1, 0].map fun i => Nat.digitChar (w.toNat >>> (4 * i) % 16)

/-- The digest of the UTF-8 bytes of a text, in sixty-four hexadecimal digits. -/
def hashOf (text : String) : String :=
  let s := sha256 text.toUTF8.data.toList
  String.ofList ([s.a, s.b, s.c, s.d, s.e, s.f, s.g, s.h].flatMap hexOfWord)

end SchemaDrift.Digest
