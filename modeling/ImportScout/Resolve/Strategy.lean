import ImportScout.Resolve.Probe
import ImportScout.Specifier
/-! # Strategies of resolution

A strategy turns one import into a file of the workspace. The definition strategy asks a provider,
such as a language server, where the specifier is defined; the manual strategy probes the
workspace by the conventions of the usual languages.
-/

namespace ImportScout

open Text

/-- An import to be resolved: the specifier as it is written, the byte offset of the specifier in
the source file, and the source file itself, relative to the root. -/
structure Request where
  specifier : String
  offset : Nat
  source : String
  deriving DecidableEq, Repr

/-- A source of definitions. -/
inductive Provider where
  /-- The host knows no definitions and is not asked. -/
  | silent
  /-- The host is asked with an absolute file and a byte offset, and answers with paths, absolute
  or relative to the root. -/
  | asking (answer : (file : String) → (offset : Nat) → Except String (List String))

/-- The definitions of what stands at a place, asked for and told. -/
def Provider.definitions (p : Provider) (file : String) (offset : Nat) :
    Traced (Except String (List String)) :=
  match p with
  | .silent => pure (.ok [])
  | .asking answer => ⟨answer file offset, [.query file offset]⟩

/-- A way to resolve imports. -/
inductive Strategy where
  /-- Ask a provider. -/
  | definition (provider : Provider)
  /-- Probe the workspace. -/
  | manual (options : ProbeOptions)

namespace Strategy

/-! ## Asking -/

/-- The first definition of the specifier, relative to the root. A definition outside the root, as
far as its segments tell, is none. -/
def byDefinition (p : Provider) (w : Workspace) (req : Request) : Traced (Option String) := do
  match ← p.definitions (Path.onto w.root req.source) req.offset with
  | .error _ => pure none
  | .ok [] => pure none
  | .ok (target :: _) => pure (Path.relativeTo? w.root target)

/-! ## Probing -/

/-- `path` without the slashes at its end. -/
def dropSlashes (path : String) : String :=
  String.ofList (path.toList.reverse.dropWhile (· = '/')).reverse

/-- The first file that `path` refers to in one of the folders `roots`. -/
def inRoots (w : Workspace) (extensions : List String) (path : String) :
    (roots : List String) → Traced (Except Fault (Option String))
  | [] => pure (.ok none)
  | root :: roots => do
    let candidate := if root = "" then path else dropSlashes root ++ "/" ++ path
    match ← Probe.fileFor w extensions candidate with
    | .error fault => pure (.error fault)
    | .ok (some file) => pure (.ok (some file))
    | .ok none => inRoots w extensions path roots

/-- A specifier whose dots separate modules. -/
def dotted (spec : String) : String :=
  String.ofList (spec.toList.map fun c => if c = '.' then '/' else c)

/-- The file that a bare specifier refers to. One with several segments and a dot may name a file
outright, and is looked for first as it is; then its dots are read as slashes. -/
def bare (w : Workspace) (extensions : List String) (spec : String) :
    Traced (Except Fault (Option String)) := do
  let outright ←
    if spec.toList.contains '/' && spec.toList.contains '.' then
      match Path.collapse? spec with
      | some path => w.probe path
      | none => pure (.ok none)
    else pure (.ok none)
  match outright with
  | .error fault => pure (.error fault)
  | .ok (some file) => pure (.ok (some file))
  | .ok none => Probe.fileFor w extensions (dotted spec)

/-- The file that an import refers to by convention: relative to the source file if it starts with
a dot, in one of the alias roots if it starts with an alias, at the root if it starts with a slash,
and by module name else. -/
def byConvention (o : ProbeOptions) (w : Workspace) (req : Request) :
    Traced (Except Fault (Option String)) :=
  let spec := Path.slashed req.specifier
  if spec.toList.head? == some '.' then
    match Path.join? (Path.folder req.source) spec with
    | none => pure (.ok none)
    | some path => Probe.fileFor w o.extensions path
  else
    match Specifier.dropAlias? spec, dropStart? ['/'] spec.toList with
    | some path, _ => inRoots w o.extensions path o.aliasRoots
    | none, some path => Probe.fileFor w o.extensions (String.ofList path)
    | none, none => bare w o.extensions spec

/-- The file that a strategy finds. A search that fails finds nothing. -/
def resolve (s : Strategy) (w : Workspace) (req : Request) : Traced (Option String) :=
  match s with
  | .definition p => byDefinition p w req
  | .manual o => do
    match ← byConvention o w req with
    | .error _ => pure none
    | .ok found => pure found

end Strategy

end ImportScout
