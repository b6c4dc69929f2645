import ImportScout.Disk.Raw
/-! # Disks

A disk is a tree of folders, files and symbolic links, together with the folder that relative
paths start from. A place on the disk is the list of names from the top down, which need not be
texts.

The entries of a folder are kept in the order of their names, each name once; `Node.IsOrdered`
says so, and `put` and `erase` keep it so.
-/

namespace ImportScout

/-- What stands at a place. -/
inductive Node where
  /-- A file and its content. -/
  | file (content : ByteArray)
  /-- A symbolic link and the path it points to. -/
  | link (target : Raw)
  /-- A folder and what it holds, by name. -/
  | folder (entries : List (Raw × Node))

namespace Node

/-- What a folder holds; nothing else holds anything. -/
def entries : Node → List (Raw × Node)
  | .folder es => es
  | _ => []

/-- Whether this is a folder. -/
def isFolder : Node → Bool
  | .folder _ => true
  | _ => false

/-- Whether this is a file. -/
def isFile : Node → Bool
  | .file _ => true
  | _ => false

/-- What stands at a place below this node. Links are not followed. -/
def at? : Node → Place → Option Node
  | n, [] => some n
  | n, name :: place =>
    match n.entries.lookup name with
    | none => none
    | some child => child.at? place

/-- Put `node` under `name` among the entries of a folder, in place of what stood there. -/
def putEntry (name : Raw) (node : Node) : List (Raw × Node) → List (Raw × Node)
  | [] => [(name, node)]
  | (other, n) :: es =>
    if name < other then (name, node) :: (other, n) :: es
    else if name = other then (name, node) :: es
    else (other, n) :: putEntry name node es

/-- Put `new` at a place, whose folder must be there already. -/
def put (new : Node) : Node → Place → Node
  | _, [] => new
  | .folder es, [name] => .folder (putEntry name new es)
  | .folder es, name :: place =>
    match es.lookup name with
    | none => .folder es
    | some child => .folder (putEntry name (put new child place) es)
  | n, _ => n

/-- Remove what stands at a place. -/
def erase : Node → Place → Node
  | .folder es, [name] => .folder (es.filter (·.1 != name))
  | .folder es, name :: place =>
    match es.lookup name with
    | none => .folder es
    | some child => .folder (putEntry name (child.erase place) es)
  | n, _ => n

/-- Whether every folder lists its entries in the order of their names, each name once. -/
inductive IsOrdered : Node → Prop where
  | file (content : ByteArray) : IsOrdered (.file content)
  | link (target : Raw) : IsOrdered (.link target)
  | folder (es : List (Raw × Node)) (sorted : es.Pairwise fun a b => a.1 < b.1)
      (below : ∀ e ∈ es, IsOrdered e.2) : IsOrdered (.folder es)

mutual

/-- How many folders there are, this one included. -/
def folderCount : Node → Nat
  | .folder es => folderCountOf es + 1
  | _ => 0

/-- How many folders there are in and among the given entries. -/
def folderCountOf : List (Raw × Node) → Nat
  | [] => 0
  | (_, n) :: es => n.folderCount + folderCountOf es

end

end Node

/-- A disk, and the folder that relative paths start from. -/
structure Disk where
  top : Node
  working : Place

namespace Disk

/-- The absolute path of a place, as it is shown. -/
def pathOf (place : Place) : String :=
  (Raw.ofPlace place).shown

/-- Where the reading of a path starts. -/
def start (d : Disk) (path : Raw) : Place :=
  if path.isAbsolute then [] else d.working

end Disk

end ImportScout
