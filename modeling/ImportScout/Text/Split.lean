import ImportScout.Text.Blank
/-! # Cutting texts

Cutting a text at a character, reading it line by line, and replacing every occurrence of one
text by another. All of these work on lists of characters.
-/

namespace ImportScout.Text

/-- The pieces of `cs` between the characters that `p` accepts; one more piece than cuts. -/
def splitWhere (p : Char → Bool) (cs : List Char) : List (List Char) :=
  cs.splitOnP p

/-- `pieces` with `glue` between neighbours. -/
def joinWith (glue : List Char) : List (List Char) → List Char
  | [] => []
  | [piece] => piece
  | piece :: pieces => piece ++ glue ++ joinWith glue pieces

/-- What follows `start` in `cs`, if `cs` starts with it. -/
def dropStart? : List Char → List Char → Option (List Char)
  | [], cs => some cs
  | _ :: _, [] => none
  | x :: start, c :: cs => if x = c then dropStart? start cs else none

/-- A text that starts with `start` is `start` and the rest. -/
theorem dropStart?_eq_some_iff {start cs rest : List Char} :
    dropStart? start cs = some rest ↔ cs = start ++ rest := by
  induction start generalizing cs with
  | nil => simp [dropStart?]
  | cons x start ih =>
    cases cs with
    | nil => simp [dropStart?]
    | cons c cs => by_cases h : x = c <;> simp [dropStart?, h, ih, eq_comm]

/-- Whether `cs` contains `needle`. -/
def contains (needle : List Char) : List Char → Bool
  | [] => needle.isEmpty
  | c :: cs => needle.isPrefixOf (c :: cs) || contains needle cs

/-- Every occurrence of `old` in `cs`, found from left to right without overlap, replaced by
`new`. A text without characters occurs nowhere. -/
def replaceAll (old new : List Char) : List Char → List Char
  | [] => []
  | c :: rest =>
    match dropStart? old (c :: rest) with
    | some after =>
      if after.length ≤ rest.length then new ++ replaceAll old new after
      else c :: replaceAll old new rest
    | none => c :: replaceAll old new rest
  termination_by cs => cs.length

/-! ## Lines -/

/-- A line without the carriage return that may end it. -/
def chomp (line : List Char) : List Char :=
  match line.reverse with
  | '\r' :: before => before.reverse
  | _ => line

/-- The lines of `cs`. A line ends at a line feed, which a carriage return may precede and
which the last line may lack; no empty line follows the last line feed. -/
def lines (cs : List Char) : List (List Char) :=
  match (cs.splitOn '\n').reverse with
  | [] => []
  | [] :: before => before.reverse.map chomp
  | last :: before => before.reverse.map chomp ++ [last]

end ImportScout.Text
