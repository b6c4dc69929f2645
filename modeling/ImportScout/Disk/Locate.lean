import ImportScout.Disk.Basic
/-! # Finding places on a disk

A path is followed name by name from the top of the disk or from the working folder. Empty
segments and `.` stay, `..` goes up and stays at the top, and a link is read in place of its
name. Only so many links are followed, so that links that lead to each other come to an end.
-/

namespace ImportScout.Disk

/-- Why a path cannot be followed. -/
inductive Obstacle where
  /-- Some name on the way is not there. -/
  | missing
  /-- Something that is no folder stands on the way. -/
  | notFolder
  /-- Too many links were followed. -/
  | tooManyLinks
  deriving DecidableEq, Repr

/-- The wording of an obstacle. -/
def Obstacle.message : Obstacle → String
  | .missing => "No such file or directory (os error 2)"
  | .notFolder => "Not a directory (os error 20)"
  | .tooManyLinks => "Too many levels of symbolic links (os error 40)"

/-- What the last name of a path is looked up for. -/
inductive Purpose where
  /-- For what stands there, links followed. -/
  | content
  /-- For the entry itself, even if it is a link. -/
  | entry
  /-- For a file that may have to be made. -/
  | creation
  deriving DecidableEq, Repr

/-- How many links are followed on one way. -/
def linkLimit : Nat := 40

/-- Follow `segs` from the place `here` up to the first link on the way. Where the link points to,
and what is left to follow from there, is up to `onLink`. -/
def follow (top : Node) (purpose : Purpose)
    (onLink : (here segs : Place) → Except Obstacle Place) :
    (here segs : Place) → Except Obstacle Place
  | here, [] => .ok here
  | here, seg :: rest =>
    if seg.isIdle then follow top purpose onLink here rest
    else if seg = ".." then follow top purpose onLink here.dropLast rest
    else
      match top.at? (here ++ [seg]) with
      | none =>
        if purpose = .creation && rest.isEmpty then .ok (here ++ [seg]) else .error .missing
      | some (.folder _) => follow top purpose onLink (here ++ [seg]) rest
      | some (.file _) => if rest.isEmpty then .ok (here ++ [seg]) else .error .notFolder
      | some (.link target) =>
        if purpose = .entry && rest.isEmpty then .ok (here ++ [seg])
        else onLink (if target.isAbsolute then [] else here) (target.segments ++ rest)

/-- Follow `segs` from the place `here`, through at most `links` links. -/
def locateFrom (top : Node) (purpose : Purpose) :
    (links : Nat) → (here segs : Place) → Except Obstacle Place
  | 0, here, segs => follow top purpose (fun _ _ => .error .tooManyLinks) here segs
  | links + 1, here, segs => follow top purpose (locateFrom top purpose links) here segs

/-- The place that a path leads to. The empty path leads nowhere. -/
def locate (d : Disk) (purpose : Purpose) (path : Raw) : Except Obstacle Place :=
  if path = "" then .error .missing
  else locateFrom d.top purpose linkLimit (d.start path) path.segments

/-- What a path leads to. -/
def node? (d : Disk) (path : Raw) : Option Node :=
  match d.locate .content path with
  | .error _ => none
  | .ok place => d.top.at? place

/-- Whether a path leads to a file. -/
def isFile (d : Disk) (path : Raw) : Bool :=
  (d.node? path).any Node.isFile

/-- Whether a path leads to a folder. -/
def isFolder (d : Disk) (path : Raw) : Bool :=
  (d.node? path).any Node.isFolder

/-- Whether a path leads to anything. -/
def pathExists (d : Disk) (path : Raw) : Bool :=
  (d.node? path).isSome

/-- The text of the file that a path leads to, if it is one and its content is text. -/
def read? (d : Disk) (path : Raw) : Option String :=
  match d.node? path with
  | some (.file content) => Text.decode? content
  | _ => none

end ImportScout.Disk
