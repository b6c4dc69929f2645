import ImportScout.Path.Basic
/-! # Paths and the root

An absolute path starts with a slash. This module turns absolute paths into paths relative to a
root and back. Prefixes are compared segment by segment, where empty segments and `.` do not
count, so `/work//app/./a.ts` lies in `/work/app` and `/work/application` does not.
-/

namespace ImportScout.Path

open Text

/-- Whether `path` starts at the top of the disk. -/
def isAbsolute (path : String) : Bool :=
  path.toList.head? == some '/'

/-- Whether a segment names nothing: it is empty or `.`. -/
def isIdle (seg : String) : Bool :=
  seg == "" || seg == "."

/-- The segments of `path` that name something. -/
def names (path : String) : List String :=
  (segments path).filter fun seg => !isIdle seg

/-- `segs` without the idle segments at its end. -/
def dropIdleEnd (segs : List String) : List String :=
  (segs.reverse.dropWhile isIdle).reverse

/-- What is left of `segs` after its first `count` naming segments. -/
def dropNames : (count : Nat) → (segs : List String) → List String
  | 0, segs => segs.dropWhile isIdle
  | _ + 1, [] => []
  | count + 1, seg :: segs =>
    if isIdle seg then dropNames (count + 1) segs else dropNames count segs

/-- What is left of the absolute `path` below `root`, spelled as in `path`, with no idle
segments at either end. A root without any segment holds every path, and takes nothing away. -/
def below? (root path : String) : Option String :=
  let body := (segments path).drop 1
  if root = "" then
    some (String.ofList ('/' :: (ofSegments (dropIdleEnd body)).toList))
  else if isAbsolute root && (names root).isPrefixOf (names path) then
    some (ofSegments (dropIdleEnd (dropNames (names root).length body)))
  else none

/-- `path` relative to `root`, written with slashes. A path that is not absolute is relative
already; an absolute one must lie in `root`. -/
def relativeTo? (root path : String) : Option String :=
  if isAbsolute path then (below? root path).map slashed else some (slashed path)

/-- The path that `path` names when read from the folder `base`: `path` itself if absolute. -/
def onto (base path : String) : String :=
  if isAbsolute path then path
  else
    match base.toList.reverse with
    | [] | '/' :: _ => String.ofList (base.toList ++ path.toList)
    | _ => String.ofList (base.toList ++ '/' :: path.toList)

end ImportScout.Path
