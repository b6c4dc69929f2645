import Mathlib.Data.List.Basic
import ImportScout.Proofs.Path.Name

/-! # Paths that are worked out

Working out a path leaves names with slashes between them (`exists_names_of_collapse?`), and leaves
such a path alone (`collapse?_ofSegments`). A path of names is read back as these names
(`segments_ofSegments`), and has no character that they do not have.
-/

namespace ImportScout.Path

open Text

/-! ## Segments and their path -/

theorem joinWith_eq_intercalate (glue : List Char) (pieces : List (List Char)) :
    joinWith glue pieces = glue.intercalate pieces := by
  induction pieces with
  | nil => rfl
  | cons piece pieces ih =>
    cases pieces with
    | nil => simp [joinWith]
    | cons next pieces =>
      rw [joinWith, ih, List.intercalate_cons_cons]
      exact List.cons_ne_nil _ _

/-- The pieces of a text hold its characters except those at which it is cut. -/
theorem mem_of_mem_splitOn {c : Char} {cs piece : List Char} (h : piece ∈ cs.splitOn c) :
    ∀ d ∈ piece, d ∈ cs ∧ d ≠ c := by
  induction cs generalizing piece with
  | nil =>
    rw [List.splitOn_nil, List.mem_singleton] at h
    simp [h]
  | cons e cs ih =>
    rw [List.splitOn_cons_eq_if_modifyHead] at h
    have hlater {piece : List Char} (h : piece ∈ cs.splitOn c) : ∀ d ∈ piece, d ∈ e :: cs ∧ d ≠ c :=
      fun d hd => (ih h d hd).imp_left (List.mem_cons_of_mem e)
    split at h
    · rcases List.mem_cons.mp h with rfl | h
      · simp
      · exact hlater h
    · rename_i hne
      obtain ⟨first, others, hcs⟩ := List.exists_cons_of_ne_nil (List.splitOn_ne_nil c cs)
      rw [hcs] at h hlater
      rcases List.mem_cons.mp h with rfl | h
      · rw [List.forall_mem_cons]
        exact ⟨⟨List.mem_cons_self, by simpa using hne⟩, hlater List.mem_cons_self⟩
      · exact hlater (List.mem_cons_of_mem _ h)

theorem mem_of_mem_segments {path seg : String} (h : seg ∈ segments path) :
    ∀ c ∈ seg.toList, c ∈ path.toList ∧ c ≠ '/' := by
  obtain ⟨piece, hpiece, rfl⟩ := List.mem_map.mp h
  rw [String.toList_ofList]
  exact mem_of_mem_splitOn hpiece

theorem slash_not_mem_of_mem_segments {path seg : String} (h : seg ∈ segments path) :
    '/' ∉ seg.toList :=
  fun hslash => (mem_of_mem_segments h _ hslash).2 rfl

theorem segments_ofSegments {segs : List String} (hne : segs ≠ [])
    (hslash : ∀ seg ∈ segs, '/' ∉ seg.toList) : segments (ofSegments segs) = segs := by
  have hpieces : ∀ piece ∈ segs.map String.toList, '/' ∉ piece := by
    simpa using hslash
  rw [segments, ofSegments, String.toList_ofList, joinWith_eq_intercalate,
    List.splitOn_intercalate '/' hpieces (by simpa using hne), List.map_map]
  exact (List.map_congr_left fun _ _ => String.ofList_toList).trans (List.map_id _)

theorem ofSegments_segments (path : String) : ofSegments (segments path) = path := by
  have hpieces : String.toList ∘ String.ofList = id := funext fun _ => String.toList_ofList
  rw [ofSegments, joinWith_eq_intercalate, segments, List.map_map, hpieces, List.map_id,
    List.intercalate_splitOn, String.ofList_toList]

theorem toList_ofSegments_cons (seg next : String) (segs : List String) :
    (ofSegments (seg :: next :: segs)).toList =
      seg.toList ++ '/' :: (ofSegments (next :: segs)).toList := by
  simp [ofSegments, joinWith]

/-- A path has the characters of its segments and slashes. -/
theorem not_mem_ofSegments {c : Char} (hc : c ≠ '/') {segs : List String}
    (h : ∀ seg ∈ segs, c ∉ seg.toList) : c ∉ (ofSegments segs).toList := by
  induction segs with
  | nil => simp [ofSegments, joinWith]
  | cons seg segs ih =>
    rw [List.forall_mem_cons] at h
    cases segs with
    | nil => simpa [ofSegments, joinWith] using h.1
    | cons next segs =>
      rw [toList_ofSegments_cons, List.mem_append, List.mem_cons, not_or, not_or]
      exact ⟨h.1, hc, ih h.2⟩

/-! ## Names -/

/-- Whether a segment is a name that stands for something in a folder. -/
structure IsName (seg : String) : Prop where
  ne_empty : seg ≠ ""
  ne_here : seg ≠ "."
  ne_up : seg ≠ ".."
  slash_not_mem : '/' ∉ seg.toList

instance (seg : String) : Decidable (IsName seg) :=
  decidable_of_iff (seg ≠ "" ∧ seg ≠ "." ∧ seg ≠ ".." ∧ '/' ∉ seg.toList)
    ⟨fun ⟨hempty, hhere, hup, hslash⟩ => ⟨hempty, hhere, hup, hslash⟩,
      fun ⟨hempty, hhere, hup, hslash⟩ => ⟨hempty, hhere, hup, hslash⟩⟩

theorem IsName.isIdle_eq {seg : String} (h : IsName seg) : isIdle seg = false := by
  simp [isIdle, h.ne_empty, h.ne_here]

/-- What a walk ends with are the names on its way and those that it started from. -/
theorem mem_of_mem_walk {stack segs stop : List String} (h : walk stack segs = some stop)
    {seg : String} (hseg : seg ∈ stop) :
    seg ∈ stack ∨ (seg ∈ segs ∧ seg ≠ "" ∧ seg ≠ "." ∧ seg ≠ "..") := by
  fun_induction walk stack segs with
  | case1 stack =>
    cases h
    exact Or.inl hseg
  | case2 stack next segs hidle ih =>
    exact (ih h).imp_right fun h => ⟨List.mem_cons_of_mem _ h.1, h.2⟩
  | case3 => exact absurd h (by simp)
  | case4 segs hidle top below ih =>
    rcases ih h with h | h
    · exact Or.inl (List.mem_cons_of_mem _ h)
    · exact Or.inr ⟨List.mem_cons_of_mem _ h.1, h.2⟩
  | case5 stack next segs hidle hup ih =>
    rw [not_or] at hidle
    rcases ih h with h | h
    · rcases List.mem_cons.mp h with rfl | h
      · exact Or.inr ⟨List.mem_cons_self, hidle.1, hidle.2, hup⟩
      · exact Or.inl h
    · exact Or.inr ⟨List.mem_cons_of_mem _ h.1, h.2⟩

/-- A walk from the root ends with names. -/
theorem isName_of_mem_walk {segs stop : List String} (hslash : ∀ seg ∈ segs, '/' ∉ seg.toList)
    (h : walk [] segs = some stop) : ∀ name ∈ stop, IsName name ∧ name ∈ segs := by
  intro name hname
  rcases mem_of_mem_walk h hname with hnil | ⟨hmem, hempty, hhere, hup⟩
  · exact absurd hnil List.not_mem_nil
  · exact ⟨⟨hempty, hhere, hup, hslash name hmem⟩, hmem⟩

theorem walk_of_names {stack segs : List String} (h : ∀ seg ∈ segs, IsName seg) :
    walk stack segs = some (segs.reverse ++ stack) := by
  induction segs generalizing stack with
  | nil => rfl
  | cons seg segs ih =>
    rw [List.forall_mem_cons] at h
    unfold walk
    rw [if_neg (by simp [h.1.ne_empty, h.1.ne_here]), if_neg h.1.ne_up, ih h.2]
    simp

/-- Working out a path leaves names, all of them from the path. -/
theorem exists_names_of_collapse? {path spelled : String} (h : collapse? path = some spelled) :
    ∃ names, spelled = ofSegments names ∧ ∀ name ∈ names, IsName name ∧ name ∈ segments path := by
  rw [collapse?_eq, Option.map_eq_some_iff] at h
  obtain ⟨stop, hwalk, rfl⟩ := h
  have hnames := isName_of_mem_walk (fun seg => slash_not_mem_of_mem_segments) hwalk
  exact ⟨stop.reverse, rfl, fun name hname => hnames name (List.mem_reverse.mp hname)⟩

/-- A path of names is worked out. -/
theorem collapse?_ofSegments {names : List String} (h : ∀ name ∈ names, IsName name) :
    collapse? (ofSegments names) = some (ofSegments names) := by
  cases names with
  | nil => decide
  | cons name names =>
    rw [collapse?_eq,
      segments_ofSegments (List.cons_ne_nil _ _) fun seg hseg => (h seg hseg).slash_not_mem,
      walk_of_names h, Option.map_some, List.append_nil, List.reverse_reverse]

theorem ofSegments_ne_empty {names : List String} (hne : names ≠ [])
    (h : ∀ name ∈ names, IsName name) : ofSegments names ≠ "" := by
  intro hempty
  obtain ⟨name, rest, rfl⟩ := List.exists_cons_of_ne_nil hne
  have hnone : segments "" = [""] := by decide
  have hsegs := segments_ofSegments hne fun seg hseg => (h seg hseg).slash_not_mem
  rw [hempty, hnone] at hsegs
  exact (h name List.mem_cons_self).ne_empty (List.cons.inj hsegs).1.symm

/-- Working out a path brings in no character but slashes. -/
theorem not_mem_of_collapse? {c : Char} (hc : c ≠ '/') {path spelled : String}
    (h : collapse? path = some spelled) (hpath : c ∉ path.toList) : c ∉ spelled.toList := by
  obtain ⟨names, rfl, hnames⟩ := exists_names_of_collapse? h
  refine not_mem_ofSegments hc fun name hname hmem => hpath ?_
  exact (mem_of_mem_segments (hnames name hname).2 _ hmem).1

/-! ## Slashes and backslashes -/

theorem slashed_of_not_mem {path : String} (h : '\\' ∉ path.toList) : slashed path = path := by
  have keep : ∀ c ∈ path.toList, (if c = '\\' then '/' else c) = c := by
    intro c hc
    rw [if_neg]
    rintro rfl
    exact h hc
  rw [slashed, List.map_congr_left keep, List.map_id', String.ofList_toList]

/-- Third-party code is known by its folders, with slashes between them or backslashes. -/
theorem isVendored_slashed (path : String) : isVendored (slashed path) = isVendored path := by
  have hpieces (cs : List Char) :
      (cs.map fun c => if c = '\\' then '/' else c).splitOnP (fun c => c = '/' || c = '\\') =
        cs.splitOnP fun c => c = '/' || c = '\\' := by
    induction cs with
    | nil => rfl
    | cons c cs ih =>
      rw [List.map_cons, List.splitOnP_cons_eq_if_modifyHead, List.splitOnP_cons_eq_if_modifyHead,
        ih]
      by_cases hc : c = '\\' <;> simp [hc]
  rw [isVendored, isVendored, slashed, String.toList_ofList, splitWhere, splitWhere, hpieces]

/-- Where a path is written with slashes, third-party code is known by its segments. -/
theorem isVendored_iff {path : String} (h : '\\' ∉ path.toList) :
    isVendored path = true ↔ ∃ seg ∈ segments path, seg ∈ vendoredFolders := by
  have hpieces : ∀ cs : List Char, '\\' ∉ cs →
      cs.splitOnP (fun c => c = '/' || c = '\\') = cs.splitOn '/' := by
    intro cs hcs
    induction cs with
    | nil => rfl
    | cons c cs ih =>
      rw [List.mem_cons, not_or] at hcs
      rw [List.splitOnP_cons_eq_if_modifyHead, List.splitOn_cons_eq_if_modifyHead, ih hcs.2]
      simp [Ne.symm hcs.1]
  simp [isVendored, splitWhere, segments, hpieces _ h]

/-- A `./` in front does not matter to how a path is worked out. -/
theorem collapse?_dropHere (cs : List Char) :
    collapse? (String.ofList (dropHere cs)) = collapse? (String.ofList cs) := by
  fun_induction dropHere cs with
  | case1 rest ih =>
    rw [ih, collapse?_eq, collapse?_eq, segments_here]
    rfl
  | case2 cs _ => rfl

end ImportScout.Path
