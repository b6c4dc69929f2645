import ImportScout.Command.Basic
/-! # Escapes in output

In a text that is to be put out a backslash may stand for a byte: by a letter, or by a number in
base eight or sixteen. Programs differ in the escapes that they know; an escape that is not known
stands for itself.
-/

namespace ImportScout.Command

open Text

/-- The escapes that a program knows. -/
structure Escapes where
  /-- The characters that stand for a byte after a backslash. -/
  letters : List (Char × UInt8)
  /-- Whether up to three digits in base eight may follow a zero, which does not count. -/
  zeroOctal : Bool := false
  /-- Whether up to three digits in base eight may follow. -/
  octal : Bool := true
  /-- Whether an `x` and up to two digits in base sixteen may follow. -/
  hex : Bool := false
  /-- Whether such an `x` must have digits. -/
  needsHex : Bool := false
  /-- Whether `c` ends all output. -/
  stops : Bool := false
  /-- Whether the character after a backslash stands for itself if the escape is not known; else it
  is read as if there were no backslash before it. -/
  takesNext : Bool := false

namespace Escapes

/-- The letters that every program knows. -/
def commonLetters : List (Char × UInt8) :=
  [('\\', 0x5C), ('a', 7), ('b', 8), ('f', 12), ('n', 10), ('r', 13), ('t', 9), ('v', 11)]

/-- What the rest of an escape after its backslash means. -/
inductive Meaning where
  /-- A byte, written in so many characters. -/
  | byte (b : UInt8) (length : Nat)
  /-- The end of all output. -/
  | stop
  /-- A number without digits. -/
  | broken
  /-- Nothing: the backslash stands for itself. -/
  | none

/-- The number written by digits of the given base, as a byte. -/
def byteOf (base : Nat) (digits : List Char) : UInt8 :=
  (digits.foldl (fun n c => base * n + (hexValue? c).getD 0) 0).toUInt8

/-- The digits of a base at the start of `cs`, at most `most` of them. -/
def digitsOf (base most : Nat) (cs : List Char) : List Char :=
  (cs.take most).takeWhile fun c => (hexValue? c).any (· < base)

/-- What stands after a backslash. -/
def meaning (e : Escapes) : List Char → Meaning
  | [] => .none
  | c :: cs =>
    match e.letters.lookup c with
    | some b => .byte b 1
    | none =>
      let octals := digitsOf 8 3 (c :: cs)
      let more := digitsOf 8 3 cs
      let hexes := digitsOf 16 2 cs
      if e.stops && c = 'c' then .stop
      else if e.zeroOctal && c = '0' then .byte (byteOf 8 more) (more.length + 1)
      else if e.octal && !octals.isEmpty then .byte (byteOf 8 octals) octals.length
      else if e.hex && c = 'x' && !hexes.isEmpty then .byte (byteOf 16 hexes) (hexes.length + 1)
      else if e.needsHex && c = 'x' then .broken
      else .none

/-- The bytes of a text with its escapes, and whether one of them ends all output. -/
def read (e : Escapes) (cs : List Char) : Bytes × Bool :=
  match cs with
  | [] => ([], false)
  | '\\' :: cs =>
    match e.meaning cs with
    | .stop => ([], true)
    | .byte b length =>
      let (rest, stopped) := read e (cs.drop length)
      (b :: rest, stopped)
    | .none | .broken =>
      let (rest, stopped) := read e cs
      (0x5C :: rest, stopped)
  | c :: cs =>
    let (rest, stopped) := read e cs
    (bytes [c] ++ rest, stopped)
  termination_by cs.length
  decreasing_by all_goals simp only [List.length_drop, List.length_cons]; omega

end Escapes

end ImportScout.Command
