import ImportScout.Toml.Parser
/-! # TOML documents

A document is read line by line. A line states a header, one more item of an array of tables, or a
key with its value, and may end in a comment; other lines are empty. A pair belongs to the table of
the last header before it.
-/

namespace ImportScout.Toml

open Text

/-- What a line states. -/
inductive Statement where
  /-- What follows is about this table. -/
  | header (path : List String) (name : String)
  /-- What follows is about a new table in this array. -/
  | item (path : List String) (name : String)
  /-- A value under a key. -/
  | pair (path : List String) (name : String) (v : Toml)

/-! ## Lines -/

/-- What follows the rest of a line that states nothing more. -/
def lineEnd? (cs : List Char) : Option (List Char) :=
  match skipSpaces cs with
  | [] => some []
  | '#' :: comment =>
    match comment.dropWhile isPlain with
    | [] => some []
    | rest => newline? rest
  | rest => newline? rest

/-- A statement, up to the end of its line. -/
def statement? (cs : List Char) : Option (Statement × List Char) := do
  let (statement, cs) ←
    match cs with
    | '[' :: '[' :: cs => do
      let ((path, name), cs) ← key? cs
      some (Statement.item path name, ← dropStart? [']', ']'] cs)
    | '[' :: cs => do
      let ((path, name), cs) ← key? cs
      some (Statement.header path name, ← dropStart? [']'] cs)
    | cs => do
      let (((path, name), v), cs) ← pair? (value? nestingLimit) cs
      some (Statement.pair path name v, cs)
  some (statement, ← lineEnd? cs)

/-- A line and what it states, if it states anything. -/
def line? : Reader (Option Statement) := fun cs =>
  match lineEnd? cs with
  | some rest => some (none, rest)
  | none => (statement? (skipSpaces cs)).map fun (statement, rest) => (some statement, rest)

/-- The statements of a document. -/
def statements? (cs : List Char) : Option (List Statement) :=
  match cs with
  | [] => some []
  | c :: cs =>
    match taking line? (c :: cs) with
    | none => none
    | some (statement, ⟨rest, _shorter⟩) =>
      (statements? rest).map fun others => statement.toList ++ others
  termination_by cs.length
  decreasing_by exact _shorter

/-! ## The table of a document -/

/-- A document that is being read: its table, and the table that pairs go to. -/
structure Progress where
  entries : Draft.Entries := []
  current : List String := []

/-- The document after one more statement. -/
def Progress.after? (p : Progress) (s : Statement) : Option Progress :=
  match s with
  | .header path name =>
    (Draft.openTable path name .opened p.entries).map fun (_, entries) =>
      ⟨entries, path ++ [name]⟩
  | .item path name =>
    (Draft.openItem path name .opened p.entries).map fun (_, entries) =>
      ⟨entries, path ++ [name]⟩
  | .pair path name v =>
    (Draft.change false (Draft.insert path name v) p.current .opened p.entries).map
      fun (_, entries) => { p with entries }

/-- `cs` without a byte order mark in front. -/
def dropMark : List Char → List Char
  | '\uFEFF' :: cs => cs
  | cs => cs

/-- The table that a document describes. -/
def document? (text : String) : Option Toml := do
  let statements ← statements? (dropMark text.toList)
  let read ← statements.foldlM Progress.after? {}
  some (.table (Draft.finishEntries read.entries))

end ImportScout.Toml
