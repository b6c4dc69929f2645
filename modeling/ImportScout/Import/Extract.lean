import ImportScout.Import.Forms
import ImportScout.Specifier
/-! # The imports of a text

All specifiers that a text imports by any of the known forms, each once, with the place where
it stands first, in the order of these places.
-/

namespace ImportScout

/-- A specifier and the number of bytes before its first character. -/
structure Import where
  specifier : String
  offset : Nat
  deriving DecidableEq, Repr

namespace Import

open Text

/-- Note that `specifier` stands at `offset`: an import of that specifier which is known already
moves there if it stood later. -/
def note (specifier : String) (offset : Nat) : List Import → List Import
  | [] => [⟨specifier, offset⟩]
  | imp :: imps =>
    if imp.specifier = specifier then ⟨specifier, min imp.offset offset⟩ :: imps
    else imp :: note specifier offset imps

/-- Everything the known forms capture in a text, form by form. -/
def captures (code : String) : List Capture :=
  forms.flatMap fun p => p.captures code.toList

/-- The imports of a text, each specifier at its first place, in the order of these places. -/
def extract (code : String) : List Import :=
  let found := (captures code).foldl (fun imps c => note (String.ofList c.text) c.offset imps) []
  found.mergeSort fun a b => a.offset ≤ b.offset

/-- The imports of a text that look like files of the project. -/
def extractLocal (code : String) : List Import :=
  (extract code).filter fun imp => Specifier.isProjectLocal imp.specifier

end Import

end ImportScout
