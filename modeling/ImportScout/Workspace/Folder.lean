import ImportScout.Workspace.Basic
/-! # Workspaces on a disk

A folder of a disk as a workspace. Folders of build products, dependencies and version control
are never searched, and neither are files that the exclusions describe. A path without wildcards
is looked up directly; any other pattern is tried on the files of a walk.
-/

namespace ImportScout

/-- The folders that are never searched. -/
def prunedFolders : List String :=
  [".git", "node_modules", "target"]

/-- A folder of a disk as a workspace: its place, the globs of files left out, and whether walks
follow links. -/
structure FolderWorkspace where
  root : Place
  exclusions : List Glob
  followLinks : Bool

namespace FolderWorkspace

/-- Why a folder cannot be a workspace. -/
inductive OpenFault where
  /-- The path leads to no folder. -/
  | noFolder (path : String)
  /-- This exclusion is no glob. -/
  | badExclusion (pattern : String)
  deriving DecidableEq, Repr

/-- The wording of a fault. -/
def OpenFault.message : OpenFault → String
  | .noFolder path => s!"Workspace root does not exist: {path}"
  | .badExclusion pattern => s!"Invalid exclude glob: {pattern}"

/-- The style of exclusions: stars cross slashes. -/
def exclusionStyle : Glob.Style :=
  { separator := .crossed }

/-- Read the exclusions. -/
def readExclusions : List String → Except OpenFault (List Glob)
  | [] => .ok []
  | pattern :: patterns =>
    match Glob.parse exclusionStyle pattern with
    | .error _ => .error (.badExclusion pattern)
    | .ok glob => (readExclusions patterns).map (glob :: ·)

/-- The workspace in the folder that `path` leads to, links followed. -/
def ofPath (d : Disk) (path : String) (exclusions : List String) (followLinks : Bool) :
    Except OpenFault FolderWorkspace :=
  match d.locate .content path with
  | .error _ => .error (.noFolder path)
  | .ok place =>
    if (d.top.at? place).any Node.isFolder then
      (readExclusions exclusions).map fun globs => ⟨place, globs, followLinks⟩
    else .error (.noFolder path)

/-- The absolute path of the root, as it is shown. -/
def rootPath (w : FolderWorkspace) : String :=
  Disk.pathOf w.root

/-- The absolute path of what a path names when read from the root. -/
def pathTo (w : FolderWorkspace) (path : String) : Raw :=
  (Raw.ofPlace w.root).onto path

/-- Whether an exclusion describes a path. -/
def isExcluded (w : FolderWorkspace) (path : String) : Bool :=
  w.exclusions.any (·.accepts path)

/-- Whether some segment of a path is a folder that is never searched. -/
def isPruned (path : String) : Bool :=
  (Path.segments path).any prunedFolders.contains

/-! ## Searching -/

/-- Look up the one file that a path without wildcards names. -/
def findLiteral (w : FolderWorkspace) (d : Disk) (path : String) : List String :=
  match Path.collapse? path with
  | none => []
  | some path =>
    if path != "" && !isPruned path && !w.isExcluded path &&
        d.isFile (w.pathTo path) then [path]
    else []

/-- Whether the folders of a name are not entered by a walk. -/
def prunes (name : Raw) : Bool :=
  prunedFolders.any fun folder => name == folder

/-- The walk below the root. -/
def walker (w : FolderWorkspace) (d : Disk) : Disk.Walker :=
  ⟨d.top, w.followLinks, prunes⟩

/-- The path below the root of a file that a walk has reached, as it is shown and written with
slashes. -/
def relative (w : FolderWorkspace) (place : Place) : String :=
  Path.slashed (Path.ofSegments ((place.drop w.root.length).map Raw.shown))

/-- What comes before the first fault, and that fault. -/
def untilFault {ε α : Type} : List (Except ε α) → List α × Option ε
  | [] => ([], none)
  | .error f :: _ => ([], some f)
  | .ok a :: rest => ((untilFault rest).1.cons a, (untilFault rest).2)

/-- The files that a walk reaches before its first fault. -/
def reached (w : FolderWorkspace) (d : Disk) : List Place :=
  (untilFault ((w.walker d).files w.root)).1

/-- The fault at which a walk comes to a halt, if it meets one. -/
def halt? (w : FolderWorkspace) (d : Disk) : Option Disk.WalkFault :=
  (untilFault ((w.walker d).files w.root)).2

/-- The files that a search considers. -/
def searchable (w : FolderWorkspace) (d : Disk) : List String :=
  ((w.reached d).map w.relative).filter fun path => !w.isExcluded path

/-- The first `limit` of what a walk has found. If these are fewer, it goes on to where it halts. -/
def collect (halt : Option Disk.WalkFault) (limit : Nat) (found : List String) :
    Except Fault (List String) :=
  match halt with
  | some f => if found.length < limit then .error (.halted f) else .ok (found.take limit)
  | none => .ok (found.take limit)

/-- The files that `pattern` describes, at most `limit` of them. A pattern that is no glob goes
unnoticed while there is no file to try it on. -/
def find (w : FolderWorkspace) (d : Disk) (pattern : String) (limit : Nat) :
    Except Fault (List String) :=
  let pattern := String.ofList (Path.dropHere (Path.slashed pattern).toList)
  if limit = 0 || pattern = "" then .ok []
  else if Glob.isLiteral pattern then .ok (w.findLiteral d pattern)
  else
    match w.searchable d, Glob.parse Glob.searchStyle pattern with
    | [], _ => collect (w.halt? d) limit []
    | _, .error f => .error (.badGlob f)
    | files, .ok glob => collect (w.halt? d) limit (files.filter glob.accepts)

/-- The text of a file. A path that leaves the workspace is refused. -/
def read (w : FolderWorkspace) (d : Disk) (path : String) : Except Fault String :=
  match Path.collapse? (Path.slashed path) with
  | none => .error (.escapesRoot path)
  | some inside =>
    let target := w.pathTo inside
    match d.read? target with
    | some text => .ok text
    | none => .error (.unreadable target.shown)

/-- The folder as a workspace, on the disk as it is now. -/
def toWorkspace (w : FolderWorkspace) (d : Disk) : Workspace where
  root := w.rootPath
  find := w.find d
  read := w.read d

end FolderWorkspace

end ImportScout
