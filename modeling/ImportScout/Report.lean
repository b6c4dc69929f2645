import ImportScout.Bundle.Basic
/-! # Reports on imports

A report lists the imports of one file: where each stands, whether it is about the project, and
perhaps the file that it refers to.
-/

namespace ImportScout

/-- What is reported of one import. -/
structure Report where
  imported : Import
  /-- Whether the specifier is about a file of the project. -/
  isLocal : Bool
  /-- The file that the import refers to, if that was asked for and is known. -/
  target : Option String := none
  deriving DecidableEq, Repr

namespace Report

/-- The file that an import refers to, if it is local and the report is to tell. -/
def targetOf (e : Engine) (resolves : Bool) (source : String) (imp : Import) :
    Traced (Option String) :=
  if resolves && Specifier.isProjectLocal imp.specifier then
    e.chain.resolve e.workspace ⟨imp.specifier, imp.offset, source⟩
  else pure none

/-- The reports on the given imports of a file. -/
def ofImports (e : Engine) (resolves : Bool) (source : String) :
    List Import → Traced (List Report)
  | [] => pure []
  | imp :: imps => do
    let target ← targetOf e resolves source imp
    let others ← ofImports e resolves source imps
    pure (⟨imp, Specifier.isProjectLocal imp.specifier, target⟩ :: others)

/-- The path of a file relative to the root, and the reports on its imports. -/
def ofFile (e : Engine) (resolves : Bool) (file : String) :
    Traced (Except Bundle.FileFault (String × List Report)) :=
  match Path.relativeTo? e.workspace.root file with
  | none => pure (.error (.outside file))
  | some source => do
    match ← e.workspace.open? source with
    | .error f => pure (.error (.unread f))
    | .ok code =>
      let reports ← ofImports e resolves source (Import.extract code)
      pure (.ok (source, reports))

end Report

end ImportScout
