import ImportScout.Toml.Quoted
import ImportScout.Toml.Number
import ImportScout.Toml.Draft
/-! # Reading TOML values

Keys are names between dots. Values are texts, numbers, truth values, dates, arrays and inline
tables. An array may spread over lines, with comments between its items and a comma after the last;
an inline table stays on one line. Arrays and inline tables can be nested only so deep, and keys
can only be so long.
-/

namespace ImportScout.Toml

open Text

/-- How deep arrays and inline tables can be nested. -/
def nestingLimit : Nat := 79

/-- How many names a key can have. -/
def keyLimit : Nat := 79

/-- What `read` makes of `cs`, unless it takes nothing of it. So what is read over and over comes
to an end. -/
def taking {α : Type} (read : Reader α) (cs : List Char) :
    Option (α × { rest : List Char // rest.length < cs.length }) :=
  match read cs with
  | none => none
  | some (a, rest) => if h : rest.length < cs.length then some (a, ⟨rest, h⟩) else none

/-- What follows the next character is shorter still. -/
theorem length_lt_of_behind {cs next : List Char} {c : Char}
    (behind : { rest : List Char // rest.length < cs.length }) (h : behind.val = c :: next) :
    next.length < cs.length := by
  have shorter := behind.property
  rw [h] at shorter
  exact Nat.lt_of_succ_lt shorter

/-! ## Keys -/

/-- Whether `c` may stand in a name without quotes. -/
def isBare (c : Char) : Bool :=
  isDigit c || ('a' ≤ c && c ≤ 'z') || ('A' ≤ c && c ≤ 'Z') || c == '_' || c == '-'

/-- A name, with the spaces around it. -/
def name? : Reader String := fun cs =>
  let cs := skipSpaces cs
  let found :=
    match cs with
    | '"' :: _ | '\'' :: _ => shortQuoted cs
    | _ =>
      match cs.takeWhile isBare with
      | [] => none
      | name => some (String.ofList name, cs.dropWhile isBare)
  found.map fun (name, rest) => (name, skipSpaces rest)

/-- Names between dots. -/
def names? (cs : List Char) : Option (List String × List Char) :=
  match taking name? cs with
  | none => none
  | some (name, behind) =>
    match _next : behind.val with
    | '.' :: next => (names? next).map fun (names, rest) => (name :: names, rest)
    | rest => some ([name], rest)
  termination_by cs.length
  decreasing_by exact length_lt_of_behind behind _next

/-- A key: the names that lead to a table, and the last one. -/
def key? : Reader (List String × String) := fun cs =>
  match names? cs with
  | none => none
  | some (names, rest) =>
    match names.reverse with
    | [] => none
    | last :: before =>
      if names.length ≤ keyLimit then some ((before.reverse, last), rest) else none

/-- A key and the value after the equals sign, with the spaces around them. -/
def pair? (value : Reader Toml) : Reader ((List String × String) × Toml) := fun cs => do
  let (key, cs) ← key? cs
  let (v, rest) ← value (skipSpaces (← dropStart? ['='] cs))
  some ((key, v), skipSpaces rest)

/-! ## Arrays -/

/-- What follows the spaces, line breaks and comments at the start; `inComment` tells whether that
is in the middle of a comment. -/
def skipFiller (inComment : Bool) : List Char → List Char
  | '\n' :: cs => skipFiller false cs
  | '\r' :: '\n' :: cs => skipFiller false cs
  | '#' :: cs => skipFiller true cs
  | c :: cs => if isSpace c || (inComment && isPlain c) then skipFiller inComment cs else c :: cs
  | [] => []

/-- A value with all that may stand around it in an array. -/
def item? (value : Reader Toml) : Reader Toml := fun cs =>
  (value (skipFiller false cs)).map fun (v, rest) => (v, skipFiller false rest)

/-- The items of an array from the start or from a comma on, up to the closing bracket. -/
def items? (value : Reader Toml) (cs : List Char) : Option (List Toml × List Char) :=
  match skipFiller false cs with
  | ']' :: after => some ([], after)
  | _ =>
    match taking (item? value) cs with
    | none => none
    | some (v, behind) =>
      match _next : behind.val with
      | ']' :: after => some ([v], after)
      | ',' :: next => (items? value next).map fun (vs, after) => (v :: vs, after)
      | _ => none
  termination_by cs.length
  decreasing_by exact length_lt_of_behind behind _next

/-! ## Inline tables -/

/-- The pairs of an inline table, of which there is one at least, up to the closing brace. -/
def pairs? (value : Reader Toml) (cs : List Char) :
    Option (List ((List String × String) × Toml) × List Char) :=
  match taking (pair? value) cs with
  | none => none
  | some (p, behind) =>
    match _next : behind.val with
    | '\x7d' :: after => some ([p], after)
    | ',' :: next => (pairs? value next).map fun (ps, after) => (p :: ps, after)
    | _ => none
  termination_by cs.length
  decreasing_by exact length_lt_of_behind behind _next

/-- The table of the given pairs, if they agree. -/
def tableOf? (pairs : List ((List String × String) × Toml)) : Option Toml :=
  let add (entries : Draft.Entries) : (List String × String) × Toml → Option Draft.Entries
    | ((path, name), v) => (Draft.insert path name v .opened entries).map (·.2)
  (pairs.foldlM add []).map fun entries => .table (Draft.finishEntries entries)

/-- An inline table after its opening brace. -/
def inlineTable? (value : Reader Toml) : Reader Toml := fun cs =>
  match skipSpaces cs with
  | '\x7d' :: after => some (.table [], after)
  | _ => do
    let (pairs, after) ← pairs? value cs
    some (← tableOf? pairs, after)

/-! ## Values -/

/-- A value that holds no others. -/
def atom? : Reader Toml
  | 't' :: 'r' :: 'u' :: 'e' :: rest => some (.bool true, rest)
  | 'f' :: 'a' :: 'l' :: 's' :: 'e' :: rest => some (.bool false, rest)
  | cs =>
    match quoted cs with
    | some (text, rest) => some (.string text, rest)
    | none => number? cs

/-- A value in which arrays and inline tables are nested at most `depth` deep. -/
def value? : (depth : Nat) → Reader Toml
  | 0 => atom?
  | depth + 1 => fun cs =>
    match cs with
    | '[' :: cs => (items? (value? depth) cs).map fun (vs, rest) => (.array vs, rest)
    | '\x7b' :: cs => inlineTable? (value? depth) cs
    | cs => atom? cs

end ImportScout.Toml
