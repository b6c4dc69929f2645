import ImportScout.Workspace.Basic
/-! # Probing for files

Imports often leave out the extension of a file, or name a folder with an index file. A path is
tried as it is, with each extension, as a folder with an index file of each extension, and as a
folder with a package file; the first file that is there wins. Each try is a search for one file.
-/

namespace ImportScout

/-- How specifiers are turned into files without the help of a provider. -/
structure ProbeOptions where
  /-- The extensions to try, the most likely first. -/
  extensions : List String
  /-- The folders that an alias may stand for, in the order in which they are tried. The empty
  one is the root. -/
  aliasRoots : List String
  deriving DecidableEq, Repr

namespace ProbeOptions

/-- The extensions that are tried by default. -/
def defaultExtensions : List String :=
  [".js", ".jsx", ".ts", ".tsx", ".json", ".mjs", ".cjs", ".py", ".java", ".go", ".c", ".cpp",
    ".h", ".hpp", ".php", ".rs"]

/-- The folders that an alias may stand for by default. -/
def defaultAliasRoots : List String :=
  ["src", "lib", "app", ""]

/-- The default options. -/
def standard : ProbeOptions :=
  ⟨defaultExtensions, defaultAliasRoots⟩

end ProbeOptions

namespace Probe

/-- The files that `path` may mean, the best first. -/
def candidates (path : String) (extensions : List String) : List String :=
  path :: (extensions.map (path ++ ·) ++ extensions.map (path ++ "/index" ++ ·) ++
    [path ++ "/__init__.py"])

/-- The first file that one of the patterns finds. A search that fails ends the attempt. -/
def firstHit (w : Workspace) : List String → Traced (Except Fault (Option String))
  | [] => pure (.ok none)
  | pattern :: patterns => do
    match ← w.probe pattern with
    | .error fault => pure (.error fault)
    | .ok (some file) => pure (.ok (some file))
    | .ok none => firstHit w patterns

/-- The file that `path`, read from the root, refers to. A path that climbs above the root or
names the root itself refers to none. -/
def fileFor (w : Workspace) (extensions : List String) (path : String) :
    Traced (Except Fault (Option String)) :=
  match Path.collapse? path with
  | none => pure (.ok none)
  | some path => if path = "" then pure (.ok none) else firstHit w (candidates path extensions)

end Probe

end ImportScout
