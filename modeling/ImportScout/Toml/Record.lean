import ImportScout.Toml.Document
/-! # Records in TOML

A record with named fields is a table. Keys that name no field are passed over. An array of the
fields in their order will do as well, and so will a date, which has none of them. Every field has
a default.
-/

namespace ImportScout.Toml

/-- The values of the fields `names`, each of which may be missing. -/
def fields? (names : List String) : Toml → Option (List (Option Toml))
  | .table entries => some (names.map fun name => entries.lookup name)
  | .array items => some ((List.range names.length).map fun i => items[i]?)
  | .moment => some (names.map fun _ => none)
  | _ => none

/-- As many fields are read as are named. -/
theorem length_of_fields? {names : List String} {v : Toml} {fields : List (Option Toml)}
    (h : fields? names v = some fields) : fields.length = names.length := by
  cases v <;> simp only [fields?, Option.some.injEq, reduceCtorEq] at h <;> simp [← h]

/-- A field with a default. -/
def withDefault {α : Type} (default : α) (read : Toml → Option α) : Option Toml → Option α
  | none => some default
  | some v => read v

/-- A text. -/
def text? : Toml → Option String
  | .string s => some s
  | _ => none

/-- A truth value. -/
def bool? : Toml → Option Bool
  | .bool b => some b
  | _ => none

/-- A natural number. -/
def natural? : Toml → Option Nat
  | .integer n => n.toNat?
  | _ => none

/-- A list of texts. -/
def texts? : Toml → Option (List String)
  | .array items => items.mapM text?
  | _ => none

end ImportScout.Toml
