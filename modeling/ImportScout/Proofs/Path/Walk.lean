import ImportScout.Proofs.Path.Climb
import ImportScout.Proofs.Path.Location

/-! # Along the segments of a path

What a walk does to the folders that it starts from is told by its segments alone: it leaves the
innermost `retreat` of them and then stands in some new ones (`exists_walk_eq`). Working out a
path, in contrast, lets `..` take back a name only, so that every segment moves by one step at most,
and the `depth` of the place is that of the segments that lead there (`depth_location`).
-/

namespace ImportScout.Path

variable {stack segs : List String} {seg : String}

/-! ## Walking -/

theorem isIdle_iff : isIdle seg = true ↔ seg = "" ∨ seg = "." := by
  simp [isIdle]

theorem isIdle_eq_false_iff : isIdle seg = false ↔ ¬(seg = "" ∨ seg = ".") := by
  rw [← isIdle_iff, Bool.not_eq_true]

theorem isName_of_mem_segments {path : String} (h : seg ∈ segments path)
    (hidle : isIdle seg = false) (hup : seg ≠ "..") : IsName seg := by
  obtain ⟨hempty, hhere⟩ := not_or.mp (isIdle_eq_false_iff.mp hidle)
  exact ⟨hempty, hhere, hup, slash_not_mem_of_mem_segments h⟩

theorem walk_idle_cons (h : isIdle seg = true) : walk stack (seg :: segs) = walk stack segs := by
  conv_lhs => unfold walk
  rw [if_pos (isIdle_iff.mp h)]

theorem walk_up_cons (top : String) : walk (top :: stack) (".." :: segs) = walk stack segs := by
  simp [walk]

theorem walk_name_cons (hidle : isIdle seg = false) (hup : seg ≠ "..") :
    walk stack (seg :: segs) = walk (seg :: stack) segs := by
  conv_lhs => unfold walk
  rw [if_neg (isIdle_eq_false_iff.mp hidle), if_neg hup]

theorem walk_append (segs' : List String) :
    walk stack (segs ++ segs') = (walk stack segs).bind fun stop => walk stop segs' := by
  fun_induction walk stack segs with
  | case1 stack => rfl
  | case2 stack seg segs hidle ih =>
    rw [List.cons_append, walk_idle_cons (isIdle_iff.mpr hidle), ih]
  | case3 segs hidle => rfl
  | case4 segs hidle top below ih => rw [List.cons_append, walk_up_cons, ih]
  | case5 stack seg segs hidle hup ih =>
    rw [List.cons_append, walk_name_cons (isIdle_eq_false_iff.mpr hidle) hup, ih]

/-- Idle segments do not matter to a walk. -/
theorem walk_filter (stack segs : List String) :
    walk stack (segs.filter fun seg => !isIdle seg) = walk stack segs := by
  fun_induction walk stack segs with
  | case1 stack => rfl
  | case2 stack seg segs hidle ih =>
    rw [List.filter_cons_of_neg (by simp [isIdle_iff.mpr hidle]), ih]
  | case3 segs hidle => rfl
  | case4 segs hidle top below ih =>
    rw [List.filter_cons_of_pos (by decide), walk_up_cons, ih]
  | case5 stack seg segs hidle hup ih =>
    have hname := isIdle_eq_false_iff.mpr hidle
    rw [List.filter_cons_of_pos (by simp [hname]), walk_name_cons hname hup, ih]

/-- Idle segments do not matter to climbing. -/
theorem climbs_filter : Climbs (segs.filter fun seg => !isIdle seg) ↔ Climbs segs := by
  rw [climbs_iff_walk, walk_filter, climbs_iff_walk]

/-! ## How far a walk goes back -/

/-- How many of the folders that it starts from a walk along the segments leaves. -/
def retreat : (segs : List String) → ℕ
  | [] => 0
  | seg :: segs =>
    if isIdle seg then retreat segs
    else if seg = ".." then retreat segs + 1
    else retreat segs - 1

/-! ## Depth -/

/-- How many more folders the segments enter than they leave. -/
def depth (segs : List String) : ℤ :=
  descents segs - ascents segs

@[simp] theorem depth_nil : depth [] = 0 := rfl

@[simp] theorem depth_append (segs segs' : List String) :
    depth (segs ++ segs') = depth segs + depth segs' := by
  unfold depth
  rw [descents_append, ascents_append]
  omega

theorem depth_cons (seg : String) (segs : List String) :
    depth (seg :: segs) = depth [seg] + depth segs := by
  rw [← List.singleton_append, depth_append]

@[simp] theorem depth_reverse (segs : List String) : depth segs.reverse = depth segs := by
  simp [depth, descents, ascents]

theorem depth_idle (h : isIdle seg = true) : depth [seg] = 0 := by
  obtain ⟨hdown, hup⟩ := moves_idle (isIdle_iff.mp h)
  rw [depth, hdown, hup]
  rfl

theorem depth_up : depth [".."] = -1 := by
  decide

theorem depth_name (hidle : isIdle seg = false) (hup : seg ≠ "..") : depth [seg] = 1 := by
  obtain ⟨hdown, hup⟩ := moves_name (isIdle_eq_false_iff.mp hidle) hup
  rw [depth, hdown, hup]
  rfl

theorem depth_le_length (segs : List String) : depth segs ≤ segs.length := by
  have hdown : descents segs ≤ segs.length := List.countP_le_length
  unfold depth
  omega

/-- Only names lead down at every step. -/
theorem depth_eq_length_iff :
    depth segs = segs.length ↔ ∀ seg ∈ segs, isIdle seg = false ∧ seg ≠ ".." := by
  constructor
  · intro h
    have hdown : descents segs ≤ segs.length := List.countP_le_length
    have hall : descents segs = segs.length := by
      unfold depth at h
      omega
    simpa [descents, List.countP_eq_length] using hall
  · intro h
    have hdown : descents segs = segs.length := by
      simpa [descents, List.countP_eq_length] using h
    have hup : ascents segs = 0 :=
      List.count_eq_zero_of_not_mem fun hmem => (h _ hmem).2 rfl
    rw [depth, hdown, hup]
    omega

/-- A walk leaves the innermost folders of those that it starts from, and stands in new ones
below. -/
theorem exists_walk_eq (segs : List String) :
    ∃ ahead, (∀ name ∈ ahead, name ∈ segs ∧ isIdle name = false ∧ name ≠ "..") ∧
      depth segs = ahead.length - retreat segs ∧
        ∀ stack, walk stack segs =
          if retreat segs ≤ stack.length then some (ahead ++ stack.drop (retreat segs))
          else none := by
  induction segs with
  | nil => exact ⟨[], by simp, by simp [retreat], fun stack => by simp [walk, retreat]⟩
  | cons seg segs ih =>
    obtain ⟨ahead, hahead, hdepth, hwalk⟩ := ih
    have hlater : ∀ name ∈ ahead, name ∈ seg :: segs ∧ isIdle name = false ∧ name ≠ ".." :=
      fun name hname => (hahead name hname).imp_left (List.mem_cons_of_mem seg)
    rw [depth_cons, hdepth, retreat]
    by_cases hidle : isIdle seg = true
    · refine ⟨ahead, hlater, ?_, fun stack => ?_⟩
      · rw [if_pos hidle, depth_idle hidle]
        omega
      · rw [if_pos hidle, walk_idle_cons hidle, hwalk]
    rw [if_neg hidle]
    rw [Bool.not_eq_true] at hidle
    by_cases hup : seg = ".."
    · subst hup
      refine ⟨ahead, hlater, ?_, fun stack => ?_⟩
      · rw [if_pos rfl, depth_up]
        omega
      · rw [if_pos rfl]
        cases stack with
        | nil => rfl
        | cons top below =>
          rw [walk_up_cons, hwalk, List.length_cons, List.drop_succ_cons]
          simp only [Nat.add_le_add_iff_right]
    · rw [if_neg hup, depth_name hidle hup]
      -- the name is left again by what follows, or it is one of the new folders
      cases hback : retreat segs with
      | zero =>
        refine ⟨ahead ++ [seg], ?_, ?_, fun stack => ?_⟩
        · rw [List.forall_mem_append, List.forall_mem_singleton]
          exact ⟨hlater, List.mem_cons_self, hidle, hup⟩
        · simp
          omega
        · simp [walk_name_cons hidle hup, hwalk, hback]
      | succ back =>
        refine ⟨ahead, hlater, ?_, fun stack => ?_⟩
        · omega
        · simp [walk_name_cons hidle hup, hwalk, hback]

/-! ## Depth of a place -/

theorem mem_place {name : String} (h : name ∈ place stack seg) :
    name ∈ stack ∨ name = seg ∧ isIdle seg = false := by
  unfold place at h
  split_ifs at h with hidle hup
  · exact Or.inl h
  · subst hup
    cases stack with
    | nil => exact Or.inr ⟨List.mem_singleton.mp h, rfl⟩
    | cons top below =>
      dsimp only at h
      split_ifs at h with htop
      · exact (List.mem_cons.mp h).symm.imp_right fun hname => ⟨hname, rfl⟩
      · exact Or.inl (List.mem_cons_of_mem top h)
  · exact (List.mem_cons.mp h).symm.imp_right fun hname => ⟨hname, by simpa using hidle⟩

theorem mem_foldl_place {name : String} (h : name ∈ segs.foldl place stack) :
    name ∈ stack ∨ name ∈ segs ∧ isIdle name = false := by
  induction segs generalizing stack with
  | nil => exact Or.inl h
  | cons seg segs ih =>
    rcases ih h with hname | ⟨hname, hidle⟩
    · exact (mem_place hname).imp_right fun ⟨heq, hidle⟩ =>
        ⟨heq ▸ List.mem_cons_self, heq ▸ hidle⟩
    · exact Or.inr ⟨List.mem_cons_of_mem seg hname, hidle⟩

theorem mem_location {name path : String} (h : name ∈ location path) :
    name ∈ segments path ∧ isIdle name = false :=
  (mem_foldl_place (List.mem_reverse.mp h)).resolve_left List.not_mem_nil

/-- A segment moves a place by its own depth. -/
theorem depth_place (h : ∀ name ∈ stack, isIdle name = false) :
    depth (place stack seg) = depth stack + depth [seg] := by
  unfold place
  split_ifs with hidle hup
  · rw [depth_idle hidle]
    omega
  · subst hup
    cases stack with
    | nil => rfl
    | cons top below =>
      dsimp only
      split_ifs with htop
      · rw [depth_cons]
        omega
      · rw [depth_cons top, depth_name (h top List.mem_cons_self) htop, depth_up]
        omega
  · rw [depth_cons, Int.add_comm]

theorem depth_foldl_place (h : ∀ name ∈ stack, isIdle name = false) (segs : List String) :
    depth (segs.foldl place stack) = depth stack + depth segs := by
  induction segs generalizing stack with
  | nil => simp
  | cons seg segs ih =>
    have hplace : ∀ name ∈ place stack seg, isIdle name = false := by
      intro name hname
      rcases mem_place hname with hname | ⟨rfl, hidle⟩
      · exact h name hname
      · exact hidle
    rw [List.foldl_cons, ih hplace, depth_place h, depth_cons seg segs]
    omega

/-- Working out a path keeps its depth. -/
theorem depth_location (path : String) : depth (location path) = depth (segments path) := by
  rw [location, depth_reverse, depth_foldl_place (by simp), depth_nil, Int.zero_add]

theorem depth_segments_ofSegments (hslash : ∀ seg ∈ segs, '/' ∉ seg.toList) :
    depth (segments (ofSegments segs)) = depth segs := by
  by_cases hnil : segs = []
  · subst hnil
    decide
  · rw [segments_ofSegments hnil hslash]

theorem depth_segments_of_collapse? {path spelled : String} (h : collapse? path = some spelled) :
    depth (segments spelled) = depth (segments path) := by
  rw [eq_ofSegments_location h, depth_segments_ofSegments, depth_location]
  exact fun seg hseg => slash_not_mem_of_mem_segments (mem_location hseg).1

/-! ## Paths that do not climb -/

section

variable {path : String} (h : ¬Climbs (segments path))

include h

/-- A path that does not climb is worked out to its location. -/
theorem collapse?_of_not_climbs : collapse? path = some (ofSegments (location path)) := by
  rw [← collapse?_eq_none_iff] at h
  obtain ⟨spelled, hspelled⟩ := Option.ne_none_iff_exists'.mp h
  rw [hspelled, eq_ofSegments_location hspelled]

theorem isName_of_mem_location : ∀ name ∈ location path, IsName name := by
  intro name hname
  rw [climbs_iff_walk] at h
  obtain ⟨stop, hwalk⟩ := Option.ne_none_iff_exists'.mp h
  rw [location, foldl_place_of_walk List.not_mem_nil hwalk, List.mem_reverse] at hname
  exact (isName_of_mem_walk (fun seg => slash_not_mem_of_mem_segments) hwalk name hname).1

end

end ImportScout.Path
