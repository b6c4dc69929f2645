import ImportScout.Toml.Value
/-! # TOML tables in the making

While a document is read its tables grow. A table may be opened by a header or be implied by
longer headers and by dotted keys, and which of these it was decides what may still be added: a
header opens a table once, dotted keys extend only what dotted keys began, and a value is closed
for good.
-/

namespace ImportScout.Toml

/-- How a table came about. -/
inductive Role where
  /-- It lies on the way to a table that a header opened. -/
  | implied
  /-- It lies on the way of a dotted key. -/
  | dotted
  /-- It was opened by a header of its own, or is the document. -/
  | opened
  deriving DecidableEq, Repr

/-- What stands under a name in a table in the making. -/
inductive Draft where
  /-- A finished value. -/
  | value (v : Toml)
  /-- A table. -/
  | table (role : Role) (entries : List (String × Draft))
  /-- An array of opened tables, the latest first. -/
  | tables (latestFirst : List (List (String × Draft)))

namespace Draft

/-- The entries of a table in the making. -/
abbrev Entries := List (String × Draft)

/-- `entries` with `draft` in place of what stands under `name`. -/
def replace (name : String) (draft : Draft) (entries : Entries) : Entries :=
  entries.map fun entry => if entry.1 = name then (name, draft) else entry

/-- Change the table that `path` leads to from the table with the given role and entries. Tables
that are missing on the way are made, for a dotted key or for a header. A dotted key does not lead
through tables that a header opened; an array of tables leads to its latest table. -/
def change (forDottedKey : Bool) (act : Role → Entries → Option (Role × Entries)) :
    (path : List String) → Role → Entries → Option (Role × Entries)
  | [], role, entries => act role entries
  | name :: path, role, entries =>
    match entries.lookup name with
    | none => do
      let (made, inner) ←
        change forDottedKey act path (if forDottedKey then .dotted else .implied) []
      some (role, entries ++ [(name, .table made inner)])
    | some (.table there inner) =>
      if forDottedKey && there = .opened then none
      else do
        let (there, inner) ← change forDottedKey act path there inner
        some (role, replace name (.table there inner) entries)
    | some (.tables (latest :: before)) => do
      let (_, latest) ← change forDottedKey act path .opened latest
      some (role, replace name (.tables (latest :: before)) entries)
    | some _ => none

/-- Put a value under a dotted key. The table of the last name is either the one that the key is
read from or belongs to dotted keys, and the name is new in it. -/
def insert (path : List String) (name : String) (v : Toml) :
    Role → Entries → Option (Role × Entries) :=
  change true (fun role entries =>
    if (role = .dotted) ↔ path = [] then none
    else if (entries.lookup name).isSome then none
    else some (role, entries ++ [(name, .value v)])) path

/-- Open the table under a header. It may be implied already, but not opened or dotted. -/
def openTable (path : List String) (name : String) : Role → Entries → Option (Role × Entries) :=
  change false (fun role entries =>
    match entries.lookup name with
    | none => some (role, entries ++ [(name, .table .opened [])])
    | some (.table .implied inner) => some (role, replace name (.table .opened inner) entries)
    | some _ => none) path

/-- Open one more table of the array under a header. -/
def openItem (path : List String) (name : String) : Role → Entries → Option (Role × Entries) :=
  change false (fun role entries =>
    match entries.lookup name with
    | none => some (role, entries ++ [(name, .tables [[]])])
    | some (.tables before) => some (role, replace name (.tables ([] :: before)) entries)
    | some _ => none) path

/-! ## Finished tables -/

mutual

/-- What stands under a name when the document ends. -/
def finish : Draft → Toml
  | .value v => v
  | .table _ entries => .table (finishEntries entries)
  | .tables latestFirst => .array (finishTables latestFirst).reverse

/-- The entries of a table when the document ends. -/
def finishEntries : List (String × Draft) → List (String × Toml)
  | [] => []
  | (name, draft) :: entries => (name, finish draft) :: finishEntries entries

/-- The tables of an array when the document ends. -/
def finishTables : List (List (String × Draft)) → List Toml
  | [] => []
  | entries :: others => .table (finishEntries entries) :: finishTables others

end

end Draft

end ImportScout.Toml
