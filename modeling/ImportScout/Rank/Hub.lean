import ImportScout.Resolve.Probe
import ImportScout.Import.Extract
/-! # Hubs

A file that imports many project files is a hub: it holds the project together, and is a better
suggestion than a leaf.
-/

namespace ImportScout

/-- How many project files the file at `path`, given without its extension, imports itself. A file
that cannot be found or read counts nothing. -/
def hubScore (w : Workspace) (extensions : List String) (path : String) : Traced Nat := do
  match ← Probe.fileFor w extensions path with
  | .error _ | .ok none => pure 0
  | .ok (some file) =>
    match ← w.open? file with
    | .error _ => pure 0
    | .ok text => pure (Import.extractLocal text).length

end ImportScout
