import ImportScout.Resolve.Chain
import ImportScout.Import.Extract
import ImportScout.Snippet
/-! # Frequencies

How often the user's snippets import each file of the project. Every primary snippet of code adds
one to each file that it imports, however often it does so; files that are in the list already do
not count. The tally keeps the order in which the files were first seen.
-/

namespace ImportScout

/-- The bounds of ranking. -/
structure Limits where
  /-- How many files are suggested at most. -/
  maxSuggestions : Nat := 4
  /-- How many candidates have their own imports counted. -/
  shortlistSize : Nat := 7
  /-- How many snippets must import a file. -/
  minFrequency : Nat := 2
  deriving DecidableEq, Repr

/-- What ranking works with. -/
structure Engine where
  workspace : Workspace
  /-- The strategies that resolve imports. -/
  chain : Chain
  /-- The extensions by which a suggested file is found again. -/
  extensions : List String
  limits : Limits

namespace Engine

/-- `paths` with `path` at its end, unless it is there. -/
def addNew (paths : List String) (path : String) : List String :=
  if paths.contains path then paths else paths ++ [path]

/-- The files that the given imports refer to, each once, in the order of the imports. The offsets
of the imports are counted from `base`. -/
def resolveAll (e : Engine) (source : String) (base : Nat) :
    List Import → (found : List String) → Traced (List String)
  | [], found => pure found
  | imp :: imps, found => do
    match ← e.chain.resolve e.workspace ⟨imp.specifier, base + imp.offset, source⟩ with
    | some path => resolveAll e source base imps (addNew found path)
    | none => resolveAll e source base imps found

/-- The project files that a piece of code imports, each once, in the order of its imports. The
code stands in the file `source`, `base` bytes from its start. -/
def suggestionsFor (e : Engine) (code source : String) (base : Nat) : Traced (List String) :=
  resolveAll e source base (Import.extractLocal code) []

/-! ## Snippets as sources -/

/-- The path of a snippet's file relative to the root, or as it is if it lies elsewhere. -/
def relative (e : Engine) (fileName : String) : String :=
  (Path.relativeTo? e.workspace.root fileName).getD fileName

/-- The files that are in the list already, in the form in which files are compared. -/
def present (e : Engine) (snippets : List Snippet) : List String :=
  (snippets.filter (·.fileName != "")).map fun s => Path.key (e.relative s.fileName)

/-- Whether the imports of a snippet count: the user added it, it is code, and it has a file and a
text. -/
def counts (s : Snippet) : Bool :=
  s.isPrimary && s.kind = .code && s.fileName != "" && s.text != ""

/-- How many bytes of the file `source` stand before a snippet. Only a part of a file that starts
below its first line needs the file for that, and a file that cannot be read counts for none. -/
def offsetOf (e : Engine) (s : Snippet) (source : String) : Traced Nat :=
  match s.startLine with
  | none => pure 0
  | some line =>
    if line ≤ 1 || s.isFullFile then pure 0
    else do
      match ← e.workspace.open? source with
      | .error _ => pure 0
      | .ok text => pure ((lineStart? text.toList line).getD 0)

/-- The project files that a snippet imports. -/
def importsOf (e : Engine) (s : Snippet) : Traced (List String) := do
  let source := e.relative s.fileName
  let base ← e.offsetOf s source
  e.suggestionsFor s.text source base

/-! ## Counting -/

/-- Count one more import of `path`. -/
def tick (path : String) : List (String × Nat) → List (String × Nat)
  | [] => [(path, 1)]
  | (other, n) :: tally =>
    if other = path then (other, n + 1) :: tally else (other, n) :: tick path tally

/-- Count the imports of the given snippets, files in `known` left out. -/
def tallyFrom (e : Engine) (known : List String) :
    List Snippet → List (String × Nat) → Traced (List (String × Nat))
  | [], tally => pure tally
  | s :: snippets, tally => do
    let paths ← e.importsOf s
    let fresh := paths.filter fun path => !known.contains path
    tallyFrom e known snippets (fresh.foldl (fun tally path => tick path tally) tally)

/-- How many of the snippets that count import each file, in the order in which the files are
first seen. -/
def frequencies (e : Engine) (snippets : List Snippet) : Traced (List (String × Nat)) :=
  e.tallyFrom (e.present snippets) (snippets.filter counts) []

end Engine

end ImportScout
