import ImportScout.Workspace.Basic
/-! # Workspaces in memory

A store holds the files of a workspace by path, in the order of their paths, each path once. Paths
are kept with slashes. A path without wildcards is looked up; any other pattern is tried on every
path in turn, folders of third-party code left out.
-/

namespace ImportScout

/-- Files held in memory, by path. -/
structure Store where
  root : String
  files : List (String × String) := []
  deriving DecidableEq, Repr

namespace Store

/-- Put `text` under `path` in an ordered list of files. -/
def put (path text : String) : List (String × String) → List (String × String)
  | [] => [(path, text)]
  | (other, t) :: files =>
    if path < other then (path, text) :: (other, t) :: files
    else if path = other then (path, text) :: files
    else (other, t) :: put path text files

/-- Add a file, or replace it. -/
def insert (s : Store) (path text : String) : Store :=
  { s with files := put (Path.slashed path) text s.files }

/-- The text of a file. -/
def get? (s : Store) (path : String) : Option String :=
  s.files.lookup (Path.slashed path)

/-- Remove a file, and tell whether it was there. -/
def remove (s : Store) (path : String) : Bool × Store :=
  let key := Path.slashed path
  ((s.files.lookup key).isSome, { s with files := s.files.filter (·.1 != key) })

/-- The store with the given files, the later ones over the earlier ones. -/
def ofList (root : String) (files : List (String × String)) : Store :=
  files.foldl (fun s (path, text) => s.insert path text) ⟨root, []⟩

/-! ## Searching -/

/-- The first `limit` of the given paths that `glob` describes and that are no third-party
code. -/
def scan (glob : Glob) (limit : Nat) (paths : List String) : List String :=
  ((paths.filter fun path => !Path.isVendored path).filter glob.accepts).take limit

/-- The files that `pattern` describes, at most `limit` of them. A pattern that is no glob goes
unnoticed while there is no file to try it on. -/
def find (s : Store) (pattern : String) (limit : Nat) : Except Fault (List String) :=
  if limit = 0 then .ok []
  else if Glob.isLiteral pattern then
    let key := Path.slashed pattern
    .ok (if (s.files.lookup key).isSome && !Path.isVendored key then [key] else [])
  else
    let paths := s.files.map (·.1)
    if paths.all Path.isVendored then .ok []
    else
      match Glob.parse Glob.searchStyle pattern with
      | .error f => .error (.badGlob f)
      | .ok glob => .ok (scan glob limit paths)

/-- The store as a workspace. -/
def toWorkspace (s : Store) : Workspace where
  root := s.root
  find := s.find
  read path :=
    match s.get? path with
    | some text => .ok text
    | none => .error (.notFound path)

end Store

end ImportScout
