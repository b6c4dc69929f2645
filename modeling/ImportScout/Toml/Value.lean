/-! # TOML values

The data of a TOML document as far as a configuration asks for it: of fractions and of dates and
times it is only known that they are there.
-/

namespace ImportScout

/-- A TOML value. -/
inductive Toml where
  | string (s : String)
  | integer (n : Int)
  | float
  | bool (b : Bool)
  | moment
  | array (items : List Toml)
  | table (entries : List (String × Toml))
  deriving Repr

namespace Toml

/-- How a stretch of text is read: what it means and what follows it. -/
abbrev Reader (α : Type) := List Char → Option (α × List Char)

/-- Whether `c` separates words within a line. -/
def isSpace (c : Char) : Bool :=
  c == ' ' || c == '\t'

/-- Whether `c` may stand in a comment: anything but control characters, tabs excepted. -/
def isPlain (c : Char) : Bool :=
  c == '\t' || (0x20 ≤ c.toNat && c.toNat != 0x7F)

/-- What follows the spaces at the start. -/
def skipSpaces (cs : List Char) : List Char :=
  cs.dropWhile isSpace

/-- What follows the line break at the start. -/
def newline? : List Char → Option (List Char)
  | '\n' :: cs => some cs
  | '\r' :: '\n' :: cs => some cs
  | _ => none

end Toml

end ImportScout
