import ImportScout.Proofs.Path.Canonical

/-! # Where a path leads

Many spellings name one place. `location` works out the segments of a path as far as they go, so
that two relative paths name the same place exactly if their locations agree. Paths that are worked
out already are spelled like their location (`eq_ofSegments_location`), and the form in which files
are compared keeps the location of a file (`location_key`).
-/

namespace ImportScout.Path

/-- Go to the next segment from the place whose names, innermost first, are `stack`. An idle segment
stays, `..` takes back the last name, and where there is none to take back it is kept. -/
def place (stack : List String) (seg : String) : List String :=
  if isIdle seg then stack
  else if seg = ".." then
    match stack with
    | [] => [".."]
    | top :: below => if top = ".." then ".." :: top :: below else below
  else seg :: stack

/-- The segments of a path with its empty, `.` and `..` segments worked out. -/
def location (path : String) : List String :=
  ((segments path).foldl place []).reverse

section Place

variable {stack : List String} {seg : String}

theorem place_idle (h : seg = "" ∨ seg = ".") : place stack seg = stack := by
  rcases h with rfl | rfl <;> rfl

theorem place_leave {top : String} {below : List String} (h : top ≠ "..") :
    place (top :: below) ".." = below := by
  simp [place, isIdle, h]

theorem place_enter (hidle : ¬(seg = "" ∨ seg = ".")) (hup : seg ≠ "..") :
    place stack seg = seg :: stack := by
  rw [not_or] at hidle
  simp [place, isIdle, hidle.1, hidle.2, hup]

end Place

/-! ## Paths that are worked out -/

/-- A walk that does not break off ends where the segments lead, whatever lies beyond its start. -/
theorem foldl_place_append {stack segs stop : List String} (hstack : ".." ∉ stack)
    (h : walk stack segs = some stop) (beyond : List String) :
    segs.foldl place (stack ++ beyond) = stop ++ beyond := by
  -- no `..` comes onto the stack of a walk, so each one takes back a name
  induction segs generalizing stack with
  | nil => rw [← Option.some.inj h, List.foldl_nil]
  | cons seg segs ih =>
    unfold walk at h
    rw [List.foldl_cons]
    by_cases hidle : seg = "" ∨ seg = "."
    · rw [if_pos hidle] at h
      rw [place_idle hidle]
      exact ih hstack h
    · rw [if_neg hidle] at h
      by_cases hup : seg = ".."
      · rw [if_pos hup] at h
        cases stack with
        | nil => exact absurd h (by simp)
        | cons top below =>
          rw [List.mem_cons, not_or] at hstack
          rw [hup, List.cons_append, place_leave (Ne.symm hstack.1)]
          exact ih hstack.2 h
      · rw [if_neg hup] at h
        rw [place_enter hidle hup, ← List.cons_append]
        refine ih ?_ h
        rw [List.mem_cons, not_or]
        exact ⟨Ne.symm hup, hstack⟩

theorem foldl_place_of_walk {stack segs stop : List String} (hstack : ".." ∉ stack)
    (h : walk stack segs = some stop) : segs.foldl place stack = stop := by
  simpa using foldl_place_append hstack h []

/-- Working out a path spells its location. -/
theorem eq_ofSegments_location {path spelled : String} (h : collapse? path = some spelled) :
    spelled = ofSegments (location path) := by
  rw [collapse?_eq, Option.map_eq_some_iff] at h
  obtain ⟨stop, hwalk, rfl⟩ := h
  rw [location, foldl_place_of_walk List.not_mem_nil hwalk]

/-! ## The form in which files are compared -/

/-- A `./` in front leads nowhere. -/
theorem location_here (cs : List Char) :
    location (String.ofList ('.' :: '/' :: cs)) = location (String.ofList cs) := by
  rw [location, segments_here, List.foldl_cons]
  rfl

theorem location_dropHere (cs : List Char) :
    location (dropExtension (String.ofList (dropHere cs))) =
      location (dropExtension (String.ofList cs)) := by
  fun_induction dropHere cs with
  | case1 rest ih =>
    have hdrop := dropExtension_below ['.'] rest
    rw [List.singleton_append, List.singleton_append] at hdrop
    rw [ih, hdrop, location_here, String.ofList_toList]
  | case2 => rfl

theorem slashed_slashed (path : String) : slashed (slashed path) = slashed path :=
  slashed_of_not_mem (backslash_not_mem_slashed path)

theorem slashed_of_relativeTo? {root path rel : String} (h : relativeTo? root path = some rel) :
    slashed rel = rel := by
  rw [relativeTo?] at h
  split at h
  · obtain ⟨below, -, rfl⟩ := Option.map_eq_some_iff.mp h
    exact slashed_slashed below
  · rw [← Option.some.inj h]
    exact slashed_slashed path

/-- A file in the form in which files are compared is where it is without its extension. -/
theorem location_key {root path rel : String} (h : relativeTo? root path = some rel) :
    location (key rel) = location (dropExtension rel) := by
  rw [key, slashed_of_relativeTo? h, location_dropHere, String.ofList_toList]

end ImportScout.Path
