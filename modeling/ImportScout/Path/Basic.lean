import ImportScout.Text.Split
/-! # Paths

Paths are texts. Inside the workspace they are written relative to its root, with slashes
between their segments. This module reads and writes segments, cuts extensions, resolves `.` and
`..` without ever climbing above the root, and knows the folders that hold other people's code.
-/

namespace ImportScout.Path

open Text

/-! ## Segments -/

/-- The pieces of `path` between slashes. -/
def segments (path : String) : List String :=
  (path.toList.splitOn '/').map String.ofList

/-- The path with the given segments. -/
def ofSegments (segs : List String) : String :=
  String.ofList (joinWith ['/'] (segs.map String.toList))

/-- `path` with every backslash turned into a slash. -/
def slashed (path : String) : String :=
  String.ofList (path.toList.map fun c => if c = '\\' then '/' else c)

/-- Writing a path with slashes leaves no backslash in it. -/
theorem backslash_not_mem_slashed (path : String) : '\\' ∉ (slashed path).toList := by
  simp only [slashed, String.toList_ofList, List.mem_map, not_exists, not_and]
  intro c _ h
  split at h
  · exact absurd h (by decide)
  · rename_i hc
    exact hc h

/-- Everything before the last slash of a file's path: nothing for a file at the root. -/
def folder (file : String) : String :=
  String.ofList ((file.toList.reverse.dropWhile (· ≠ '/')).drop 1).reverse

/-! ## Extensions -/

/-- `path` without the extension of its last segment. A dot that starts the segment starts a
name and no extension. -/
def dropExtension (path : String) : String :=
  let backwards := path.toList.reverse
  let name := backwards.takeWhile (· ≠ '/')
  match (name.dropWhile (· ≠ '.')).drop 1 with
  | [] => path
  | stem => String.ofList ((backwards.dropWhile (· ≠ '/')).reverse ++ stem.reverse)

/-- `cs` without the `./` that it starts with, however often that is written. -/
def dropHere : List Char → List Char
  | '.' :: '/' :: rest => dropHere rest
  | cs => cs

/-- The form in which files are compared: slashes, no `./` in front and no extension. -/
def key (path : String) : String :=
  dropExtension (String.ofList (dropHere (slashed path).toList))

/-! ## Joining -/

/-- Walk the segments `segs` from the folder whose segments, innermost first, are `stack`. Empty
segments and `.` stay, `..` leaves the innermost folder. Nothing comes of leaving the root. -/
def walk : (stack segs : List String) → Option (List String)
  | stack, [] => some stack
  | stack, seg :: segs =>
    if seg = "" ∨ seg = "." then walk stack segs
    else if seg = ".." then
      match stack with
      | [] => none
      | _ :: below => walk below segs
    else walk (seg :: stack) segs

/-- The path that `relative` names when read from the folder `base`, or nothing if it climbs
above the root. The segments of `base` are taken as they are, only its empty ones dropped. -/
def join? (base relative : String) : Option String :=
  (walk ((segments base).filter (· ≠ "")).reverse (segments relative)).map
    fun stack => ofSegments stack.reverse

/-- `path` read from the root with its empty, `.` and `..` segments worked out, or nothing if it
climbs above the root. -/
def collapse? (path : String) : Option String :=
  join? "" path

/-- Working out a path is walking along it from the root. -/
theorem collapse?_eq (path : String) :
    collapse? path = (walk [] (segments path)).map fun stack => ofSegments stack.reverse := by
  have hroot : ((segments "").filter (· ≠ "")).reverse = [] := by decide
  rw [collapse?, join?, hroot]

/-! ## Other people's code -/

/-- The folders that hold third-party code. -/
def vendoredFolders : List String :=
  ["node_modules", "vendor", "third_party"]

/-- Whether a segment of `path`, between slashes or backslashes, is a folder of third-party
code. -/
def isVendored (path : String) : Bool :=
  (splitWhere (fun c => c = '/' || c = '\\') path.toList).any
    fun seg => vendoredFolders.contains (String.ofList seg)

end ImportScout.Path
