import ImportScout.Json.Token
/-! # Reading JSON

A JSON text is read word by word with a stack of the arrays and objects that are still open.
Nesting is limited, nothing may follow the value, and no comma may be missing or too many.
-/

namespace ImportScout.Json

/-- An array or object that is still open, with what it holds so far, the latest first. An object
that waits for a value knows the name of that member. -/
inductive Frame where
  | array (before : List Json)
  | object (before : List (String × Json)) (name : Option String)

/-- What the next word may be. -/
inductive Expected where
  /-- A value. -/
  | value
  /-- The first item of an array, or the array's end. -/
  | item
  /-- The name of a member. -/
  | name
  /-- The name of the first member of an object, or the object's end. -/
  | member
  /-- The colon after a name. -/
  | colon
  /-- Whatever may follow this value. -/
  | after (v : Json)

/-- How far a text has been read. -/
structure Progress where
  expected : Expected
  stack : List Frame

/-- The deepest nesting of arrays and objects that is accepted. -/
def depthLimit : Nat := 127

/-- Open an array or object. -/
def Progress.enter (expected : Expected) (frame : Frame) (stack : List Frame) : Option Progress :=
  if stack.length < depthLimit then some ⟨expected, frame :: stack⟩ else none

/-- Take a word where a value may stand. -/
def Progress.value? (stack : List Frame) : Token → Option Progress
  | .null => some ⟨.after .null, stack⟩
  | .bool b => some ⟨.after (.bool b), stack⟩
  | .number n => some ⟨.after (.number n), stack⟩
  | .string s => some ⟨.after (.string s), stack⟩
  | .openArray => Progress.enter .item (.array []) stack
  | .openObject => Progress.enter .member (.object [] none) stack
  | _ => none

/-- Take the next word. -/
def Progress.step? (p : Progress) (t : Token) : Option Progress :=
  match p.expected, t, p.stack with
  | .item, .closeArray, .array before :: stack => some ⟨.after (.array before.reverse), stack⟩
  | .item, t, stack => Progress.value? stack t
  | .value, t, stack => Progress.value? stack t
  | .member, .closeObject, .object before _ :: stack =>
    some ⟨.after (.object before.reverse), stack⟩
  | .member, .string s, .object before _ :: stack => some ⟨.colon, .object before (some s) :: stack⟩
  | .name, .string s, .object before _ :: stack => some ⟨.colon, .object before (some s) :: stack⟩
  | .colon, .colon, stack => some ⟨.value, stack⟩
  | .after v, .comma, .array before :: stack => some ⟨.value, .array (v :: before) :: stack⟩
  | .after v, .closeArray, .array before :: stack =>
    some ⟨.after (.array (v :: before).reverse), stack⟩
  | .after v, .comma, .object before (some name) :: stack =>
    some ⟨.name, .object ((name, v) :: before) none :: stack⟩
  | .after v, .closeObject, .object before (some name) :: stack =>
    some ⟨.after (.object ((name, v) :: before).reverse), stack⟩
  | _, _, _ => none

/-- The value that has been read, if nothing is open any more. -/
def Progress.done? (p : Progress) : Option Json :=
  match p.expected, p.stack with
  | .after v, [] => some v
  | _, _ => none

/-- The value that a list of words spells. -/
def ofTokens? (ts : List Token) : Option Json :=
  (ts.foldlM Progress.step? ⟨.value, []⟩).bind Progress.done?

/-- The value that a text spells. -/
def parse? (text : String) : Option Json :=
  (tokens? text.toList).bind ofTokens?

end ImportScout.Json
