import ImportScout.Disk.Locate
/-! # Walking a disk

A walk visits every file below a folder, depth first and in the order of names. Some folders are
pruned by their names and not entered. Links are passed over, or else followed; a link that leads
to a folder which the walk is in the middle of is a loop, and one that leads nowhere is blocked. A
link is read by the whole way that the walk has taken to it, links on that way included. Faults
stand in the walk where they are met, and the walk goes on after them.
-/

namespace ImportScout.Disk

/-- What a walk may meet instead of a file. -/
inductive WalkFault where
  /-- The link at this place cannot be followed. -/
  | blocked (link : Place) (why : Obstacle)
  /-- The link at this place leads back to a folder on the way to it. -/
  | loop (link ancestor : Place)
  deriving DecidableEq, Repr

/-- The wording of a fault. -/
def WalkFault.message : WalkFault → String
  | .blocked link why => s!"IO error for operation on {pathOf link}: {why.message}"
  | .loop link ancestor =>
    s!"File system loop found: {pathOf link} points to an ancestor {pathOf ancestor}"

/-- What is needed to walk: the disk, whether links are followed, and which folders are not
entered. -/
structure Walker where
  top : Node
  followLinks : Bool
  prunes : Raw → Bool

/-- The files in and below the given entries of a folder. The folder is at the place `here`, the
walk has reached it as `shown`, and `above` lists the folders the walk is in the middle of, the
innermost first, each with the place by which it was reached. At most `hops` links to folders are
followed inside of each other, which is no limit if there are not more folders than that. -/
def Walker.entries (w : Walker) (hops : Nat) (above : List (Place × Place)) (here shown : Place)
    (es : List (Raw × Node)) : List (Except WalkFault Place) :=
  match es with
  | [] => []
  | (name, .file _) :: rest => .ok (shown ++ [name]) :: w.entries hops above here shown rest
  | (name, .folder inner) :: rest =>
    (if w.prunes name then []
      else
        w.entries hops ((here ++ [name], shown ++ [name]) :: above) (here ++ [name])
          (shown ++ [name]) inner) ++
      w.entries hops above here shown rest
  | (name, .link _) :: rest =>
    (if !w.followLinks then []
      else
        match locateFrom w.top .content linkLimit [] (shown ++ [name]) with
        | .error why => [.error (.blocked (shown ++ [name]) why)]
        | .ok place =>
          match w.top.at? place, above.lookup place, hops with
          | some (.file _), _, _ => [.ok (shown ++ [name])]
          | some (.folder _), some ancestor, _ => [.error (.loop (shown ++ [name]) ancestor)]
          | some (.folder inner), none, hops + 1 =>
            if w.prunes name then []
            else
              w.entries hops ((place, shown ++ [name]) :: above) place (shown ++ [name]) inner
          | _, _, _ => []) ++
      w.entries hops above here shown rest
  termination_by (hops, es)

/-- The files below the folder at `root`, each by the place at which the walk reached it. -/
def Walker.files (w : Walker) (root : Place) : List (Except WalkFault Place) :=
  match w.top.at? root with
  | some (.folder es) => w.entries w.top.folderCount [(root, root)] root root es
  | _ => []

/-- The files below a place and their contents, no link followed and nothing pruned; places are told
as texts. -/
def inventory (d : Disk) (root : Place) : List (List String × ByteArray) :=
  let w : Walker := ⟨d.top, false, fun _ => false⟩
  (w.files root).filterMap fun found =>
    match found with
    | .error _ => none
    | .ok place =>
      match d.top.at? place with
      | some (.file content) => some (place.map Raw.shown, content)
      | _ => none

end ImportScout.Disk
