import ImportScout.Json.Token
/-! # Writing JSON

Two forms of the same value: the compact one, on one line without blanks, and the pretty one,
with one item or member a line and two more spaces at each level.
-/

namespace ImportScout.Json

open Text

/-! ## The compact form -/

mutual

/-- The words of a value. -/
def tokens : Json → List Token
  | .null => [.null]
  | .bool b => [.bool b]
  | .number n => [.number n]
  | .string s => [.string s]
  | .array [] => [.openArray, .closeArray]
  | .array (v :: vs) => .openArray :: (v.tokens ++ itemTokens vs ++ [.closeArray])
  | .object [] => [.openObject, .closeObject]
  | .object ((name, v) :: ms) =>
    .openObject :: .string name :: .colon :: (v.tokens ++ memberTokens ms ++ [.closeObject])

/-- The words of further items, a comma in front of each. -/
def itemTokens : List Json → List Token
  | [] => []
  | v :: vs => .comma :: (v.tokens ++ itemTokens vs)

/-- The words of further members, a comma in front of each. -/
def memberTokens : List (String × Json) → List Token
  | [] => []
  | (name, v) :: ms => .comma :: .string name :: .colon :: (v.tokens ++ memberTokens ms)

end

/-- A value on one line, without blanks. -/
def compact (v : Json) : String :=
  String.ofList (v.tokens.flatMap Token.text)

/-! ## The pretty form -/

/-- A line break and the indentation of a level. -/
def newline (level : Nat) : List Char :=
  '\n' :: List.replicate (2 * level) ' '

mutual

/-- A value whose first line starts inside a line of the given level. -/
def prettyAt (level : Nat) : Json → List Char
  | .array [] => ['[', ']']
  | .array (v :: vs) =>
    '[' :: (newline (level + 1) ++ v.prettyAt (level + 1) ++ prettyItems (level + 1) vs ++
      newline level ++ [']'])
  | .object [] => ['\x7b', '\x7d']
  | .object ((name, v) :: ms) =>
    '\x7b' :: (newline (level + 1) ++ quote name ++ [':', ' '] ++ v.prettyAt (level + 1) ++
      prettyMembers (level + 1) ms ++ newline level ++ ['\x7d'])
  | .null => Token.null.text
  | .bool b => (Token.bool b).text
  | .number n => (Token.number n).text
  | .string s => (Token.string s).text

/-- Further items, each after a comma on a line of its own. -/
def prettyItems (level : Nat) : List Json → List Char
  | [] => []
  | v :: vs => ',' :: (newline level ++ v.prettyAt level ++ prettyItems level vs)

/-- Further members, each after a comma on a line of its own. -/
def prettyMembers (level : Nat) : List (String × Json) → List Char
  | [] => []
  | (name, v) :: ms =>
    ',' :: (newline level ++ quote name ++ [':', ' '] ++ v.prettyAt level ++
      prettyMembers level ms)

end

/-- A value over several lines. -/
def pretty (v : Json) : String :=
  String.ofList (v.prettyAt 0)

end ImportScout.Json
