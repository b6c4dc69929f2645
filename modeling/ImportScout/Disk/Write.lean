import ImportScout.Disk.Locate
/-! # Changing a disk

Making folders, writing files and links, and removing files. Writing follows links, even one that
leads to a file which is not there yet.
-/

namespace ImportScout.Disk

/-- Make the folder `name` in the folder at `parent`, unless it is there. -/
def makeFolderIn (d : Disk) (parent : Place) (name : Raw) : Option Disk :=
  match d.top.at? parent, d.top.at? (parent ++ [name]) with
  | some (.folder _), none =>
    some { d with top := Node.put (.folder []) d.top (parent ++ [name]) }
  | some (.folder _), some _ =>
    match locateFrom d.top .content linkLimit parent [name] with
    | .ok place => if (d.top.at? place).any Node.isFolder then some d else none
    | .error _ => none
  | _, _ => none

/-- Make every folder on the way along `segs` from the place `here`. -/
def makeFoldersFrom (d : Disk) (here : Place) : (segs : Place) → Option Disk
  | [] => some d
  | seg :: segs =>
    if seg.isIdle then makeFoldersFrom d here segs
    else if seg = ".." then makeFoldersFrom d here.dropLast segs
    else
      match d.makeFolderIn here seg with
      | none => none
      | some d =>
        match locateFrom d.top .content linkLimit here [seg] with
        | .ok place => makeFoldersFrom d place segs
        | .error _ => none

/-- Make every folder on the way to a path that is not there. -/
def makeFolders (d : Disk) (path : Raw) : Option Disk :=
  d.makeFoldersFrom (d.start path) path.segments

/-- Write a file, in place of the file that a path leads to if there is one. -/
def write (d : Disk) (path : Raw) (content : ByteArray) : Option Disk :=
  match d.locate .creation path with
  | .error _ => none
  | .ok place =>
    if (d.top.at? place).any Node.isFolder then none
    else some { d with top := Node.put (.file content) d.top place }

/-- Make a link at a path where nothing stands. -/
def makeLink (d : Disk) (path target : Raw) : Option Disk :=
  match d.locate .creation path with
  | .error _ => none
  | .ok place =>
    if (d.top.at? place).isSome then none
    else some { d with top := Node.put (.link target) d.top place }

/-- Remove the file or link that stands at a path. -/
def remove (d : Disk) (path : Raw) : Option Disk :=
  match d.locate .entry path with
  | .error _ => none
  | .ok place =>
    if (d.top.at? place).any Node.isFolder then none
    else some { d with top := d.top.erase place }

end ImportScout.Disk
