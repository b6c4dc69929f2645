import ImportScout.Glob.Cache
import ImportScout.Disk.Walk
/-! # Workspaces

A workspace is all that resolving and ranking know of a project: its root, a search for files by
glob with a bound on the answer, and the text of a file. Paths are relative to the root.

What is asked of a workspace, and of the definition provider beside it, can be told afterwards:
a `Traced` value carries the calls that were made for it, in order.
-/

namespace ImportScout

/-- Why a workspace does not answer. -/
inductive Fault where
  /-- No file has this path. -/
  | notFound (path : String)
  /-- The path leaves the workspace. -/
  | escapesRoot (path : String)
  /-- The file at this absolute path cannot be read as text. -/
  | unreadable (path : String)
  /-- The pattern is no glob. -/
  | badGlob (f : Glob.Fault)
  /-- The walk over the disk came to a halt. -/
  | halted (f : Disk.WalkFault)
  /-- The host refuses, in its own words. -/
  | refused (message : String)
  deriving DecidableEq, Repr

/-- The wording of a fault. -/
def Fault.message : Fault → String
  | .notFound path => s!"file not found: {path}"
  | .escapesRoot path => s!"Path escapes the workspace root: {path}"
  | .unreadable path => s!"Failed to read {path}"
  | .badGlob f => f.message
  | .halted f => f.message
  | .refused message => message

/-- A read-only view of a project. -/
structure Workspace where
  /-- The root folder. -/
  root : String
  /-- The files that a glob describes, at most as many as the limit says. -/
  find : (pattern : String) → (limit : Nat) → Except Fault (List String)
  /-- The text of a file. -/
  read : (path : String) → Except Fault String

/-! ## Calls -/

/-- What was asked of the host. -/
inductive Call where
  /-- A search for files. -/
  | find (pattern : String)
  /-- The text of a file. -/
  | read (path : String)
  /-- The definition of what stands at a byte offset of a file. -/
  | query (file : String) (offset : Nat)
  deriving DecidableEq, Repr

/-- A value and the calls that were made for it, in order. -/
structure Traced (α : Type) where
  value : α
  calls : List Call := []

namespace Traced

variable {α β : Type}

/-- First `x`, then what `f` makes of its value. -/
def andThen (x : Traced α) (f : α → Traced β) : Traced β :=
  let y := f x.value
  ⟨y.value, x.calls ++ y.calls⟩

instance : Monad Traced where
  pure a := ⟨a, []⟩
  bind := andThen

@[simp] theorem value_pure (a : α) : (pure a : Traced α).value = a := rfl

@[simp] theorem calls_pure (a : α) : (pure a : Traced α).calls = [] := rfl

@[simp] theorem value_bind (x : Traced α) (f : α → Traced β) :
    (x >>= f).value = (f x.value).value := rfl

@[simp] theorem calls_bind (x : Traced α) (f : α → Traced β) :
    (x >>= f).calls = x.calls ++ (f x.value).calls := rfl

end Traced

namespace Workspace

/-- Search for one file, and tell. -/
def probe (w : Workspace) (pattern : String) : Traced (Except Fault (Option String)) :=
  ⟨(w.find pattern 1).map List.head?, [.find pattern]⟩

/-- Read a file, and tell. -/
def open? (w : Workspace) (path : String) : Traced (Except Fault String) :=
  ⟨w.read path, [.read path]⟩

/-- The workspace that refuses to read some files and to search for some patterns, and answers
everything else as `w` does. -/
def refusing (w : Workspace) (reads finds : List String) : Workspace where
  root := w.root
  find pattern limit :=
    if finds.contains pattern then .error (.refused s!"search failed: {pattern}")
    else w.find pattern limit
  read path :=
    if reads.contains path then .error (.refused s!"permission denied: {path}")
    else w.read path

end Workspace

end ImportScout
