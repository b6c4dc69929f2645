import Mathlib.Data.List.Induction
import ImportScout.Proofs.Path.Name

/-! # Paths that climb

A path read segment by segment enters folders and leaves them. It climbs if at some point it has
left more folders than it has entered, and then it names nothing below the root. Two questions are
answered here. `collapse?_eq_none_iff` shows that working out a path refuses exactly those that
climb. `inside_dropExtension_iff` says when a file stays below the root once its extension is
dropped: its folder must, and it must not be one of the few files whose shortened name is `..`.
-/

namespace ImportScout.Path

/-- How many folders the segments enter. -/
def descents (segs : List String) : ℕ :=
  segs.countP fun seg => !isIdle seg && seg != ".."

/-- How many folders the segments leave. -/
def ascents (segs : List String) : ℕ :=
  segs.count ".."

/-- Whether some of the first segments leave more folders than they enter. -/
def Climbs (segs : List String) : Prop :=
  ∃ front, front <+: segs ∧ descents front < ascents front

/-- Whether a path is relative and at no point above the folder that it is read from. -/
def Inside (path : String) : Prop :=
  isAbsolute path = false ∧ ¬Climbs (segments path)

theorem not_climbs_nil : ¬Climbs [] := by
  rintro ⟨front, hfront, hlt⟩
  rw [List.prefix_nil.mp hfront] at hlt
  exact absurd hlt (by decide)

theorem descents_append (segs segs' : List String) :
    descents (segs ++ segs') = descents segs + descents segs' :=
  List.countP_append

theorem ascents_append (segs segs' : List String) :
    ascents (segs ++ segs') = ascents segs + ascents segs' :=
  List.count_append

section Segment

variable {seg : String}

theorem ascents_of_ne (h : seg ≠ "..") : ascents [seg] = 0 :=
  List.count_eq_zero_of_not_mem (by simpa using Ne.symm h)

theorem moves_idle (h : seg = "" ∨ seg = ".") : descents [seg] = 0 ∧ ascents [seg] = 0 := by
  rcases h with rfl | rfl <;> decide

theorem moves_up : descents [".."] = 0 ∧ ascents [".."] = 1 := by
  decide

theorem moves_name (hidle : ¬(seg = "" ∨ seg = ".")) (hup : seg ≠ "..") :
    descents [seg] = 1 ∧ ascents [seg] = 0 := by
  rw [not_or] at hidle
  refine ⟨?_, ascents_of_ne hup⟩
  simp [descents, isIdle, hidle.1, hidle.2, hup]

end Segment

/-- One more segment makes a path climb only if it leaves a folder and there is none to leave. -/
theorem climbs_concat (segs : List String) (seg : String) :
    Climbs (segs ++ [seg]) ↔ Climbs segs ∨ (seg = ".." ∧ descents segs ≤ ascents segs) := by
  constructor
  · rintro ⟨front, hfront, hlt⟩
    rcases List.prefix_concat_iff.mp hfront with rfl | hfront
    · rw [descents_append, ascents_append] at hlt
      by_cases hseg : seg = ".."
      · subst hseg
        have hmoves := moves_up
        exact Or.inr ⟨rfl, by omega⟩
      · have hup := ascents_of_ne hseg
        exact Or.inl ⟨segs, List.prefix_rfl, by omega⟩
    · exact Or.inl ⟨front, hfront, hlt⟩
  · rintro (⟨front, hfront, hlt⟩ | ⟨rfl, hle⟩)
    · exact ⟨front, hfront.trans (List.prefix_append _ _), hlt⟩
    · refine ⟨segs ++ [".."], List.prefix_rfl, ?_⟩
      have hmoves := moves_up
      rw [descents_append, ascents_append]
      omega

/-! ## Working out a path -/

/-- Of the beginnings of a path that leave more than `depth` folders, none is empty. -/
theorem exists_prefix_cons_iff (depth : ℕ) (seg : String) (segs : List String) :
    (∃ front, front <+: seg :: segs ∧ depth + descents front < ascents front) ↔
      ∃ front, front <+: segs ∧
        depth + (descents [seg] + descents front) < ascents [seg] + ascents front := by
  constructor
  · rintro ⟨front, hfront, hlt⟩
    rcases List.prefix_cons_iff.mp hfront with rfl | ⟨others, rfl, hothers⟩
    · exact absurd hlt (Nat.not_lt_zero _)
    · rw [← List.singleton_append, descents_append, ascents_append] at hlt
      exact ⟨others, hothers, hlt⟩
  · rintro ⟨front, hfront, hlt⟩
    refine ⟨[seg] ++ front, (List.prefix_cons_inj seg).mpr hfront, ?_⟩
    rw [descents_append, ascents_append]
    exact hlt

/-- A walk breaks off where the segments leave more folders than there are on the stack. -/
theorem walk_eq_none_iff (stack segs : List String) :
    walk stack segs = none ↔
      ∃ front, front <+: segs ∧ stack.length + descents front < ascents front := by
  induction segs generalizing stack with
  | nil =>
    constructor
    · intro h
      exact absurd h (by simp [walk])
    · rintro ⟨front, hfront, hlt⟩
      rw [List.prefix_nil.mp hfront] at hlt
      exact absurd hlt (Nat.not_lt_zero _)
  | cons seg segs ih =>
    -- the first segment moves by a fixed amount, and the rest is the induction hypothesis
    rw [exists_prefix_cons_iff]
    unfold walk
    by_cases hidle : seg = "" ∨ seg = "."
    · obtain ⟨hdown, hup⟩ := moves_idle hidle
      rw [if_pos hidle, ih, hdown, hup]
      simp only [Nat.zero_add]
    · rw [if_neg hidle]
      by_cases hseg : seg = ".."
      · obtain ⟨hdown, hup⟩ := moves_up
        rw [if_pos hseg, hseg, hdown, hup]
        cases stack with
        | nil => exact iff_of_true rfl ⟨[], List.nil_prefix, Nat.zero_lt_one⟩
        | cons top below =>
          rw [ih, List.length_cons]
          refine exists_congr fun front => and_congr_right fun _ => ?_
          omega
      · obtain ⟨hdown, hup⟩ := moves_name hidle hseg
        rw [if_neg hseg, ih, List.length_cons, hdown, hup]
        refine exists_congr fun front => and_congr_right fun _ => ?_
        omega

theorem climbs_iff_walk {segs : List String} : Climbs segs ↔ walk [] segs = none := by
  rw [walk_eq_none_iff, Climbs]
  simp only [List.length_nil, Nat.zero_add]

instance (segs : List String) : Decidable (Climbs segs) :=
  decidable_of_iff (walk [] segs = none) climbs_iff_walk.symm

/-- Working out a path from the root refuses exactly the paths that climb. -/
theorem collapse?_eq_none_iff (path : String) : collapse? path = none ↔ Climbs (segments path) := by
  rw [collapse?_eq, Option.map_eq_none_iff, climbs_iff_walk]

/-! ## Files without their extension -/

/-- Whether a name is three dots with no dot after them, so that `..` is left of it without its
extension. -/
def IsDotted (name : String) : Prop :=
  ∃ rest, name = "..." ++ rest ∧ '.' ∉ rest.toList

/-- Whether a file is below the root by its folder, and its name without the extension does not
lead out of it. -/
def Sheltered (file : String) : Prop :=
  isAbsolute file = false ∧ ¬Climbs (segments (folder file)) ∧
    ¬(IsDotted (lastName file) ∧
      descents (segments (folder file)) ≤ ascents (segments (folder file)))

/-- Dropping the extension of a name leaves `..` just for three dots with no dot after them. -/
theorem dropExtension_eq_dots_iff {name : List Char} (h : '/' ∉ name) :
    dropExtension (String.ofList name) = ".." ↔ IsDotted (String.ofList name) := by
  constructor
  · intro hname
    rcases extension_cases name with hdot | ⟨stem, ext, rfl, hstem, hext⟩
    · -- the name is `..` itself, which does lose its second dot
      rw [dropExtension_of_dot_not_mem_tail h hdot] at hname
      have hlist : name = ['.', '.'] := String.ofList_injective hname
      rw [hlist] at hdot
      exact absurd hdot (by decide)
    · rw [dropExtension_dot h hstem hext] at hname
      have hlist : stem = ['.', '.'] := String.ofList_injective hname
      refine ⟨String.ofList ext, ?_, by rwa [String.toList_ofList]⟩
      rw [hlist]
      apply String.toList_injective
      simp
  · rintro ⟨rest, hname, hrest⟩
    have hlist : name = ['.', '.'] ++ '.' :: rest.toList := by
      have := congrArg String.toList hname
      simpa using this
    rw [hlist] at h ⊢
    exact dropExtension_dot h (by decide) hrest

theorem isAbsolute_append (dir name : List Char) :
    isAbsolute (String.ofList (dir ++ '/' :: name)) =
      isAbsolute (String.ofList (dir ++ ['/'])) := by
  cases dir with
  | nil => simp [isAbsolute]
  | cons c dir => simp [isAbsolute]

theorem isAbsolute_of_slash_not_mem {name : List Char} (h : '/' ∉ name) :
    isAbsolute (String.ofList name) = false := by
  cases name with
  | nil => rfl
  | cons c name =>
    rw [List.mem_cons, not_or] at h
    simp [isAbsolute, Ne.symm h.1]

theorem isAbsolute_dropExtension (path : String) :
    isAbsolute (dropExtension path) = isAbsolute path := by
  obtain ⟨cs, rfl⟩ : ∃ cs, path = String.ofList cs := ⟨path.toList, by simp⟩
  rcases last_occurrence '/' cs with h | ⟨dir, name, rfl, h⟩
  · have hstem := isAbsolute_of_slash_not_mem (slash_not_mem_dropExtension h)
    rw [String.ofList_toList] at hstem
    rw [hstem, isAbsolute_of_slash_not_mem h]
  · rw [dropExtension_append h, isAbsolute_append, isAbsolute_append dir name]

/-- A file without its extension is inside exactly if the file is sheltered. -/
theorem inside_dropExtension_iff (path : String) :
    Inside (dropExtension path) ↔ Sheltered path := by
  obtain ⟨cs, rfl⟩ : ∃ cs, path = String.ofList cs := ⟨path.toList, by simp⟩
  rw [Inside, Sheltered, isAbsolute_dropExtension]
  refine and_congr_right fun _ => ?_
  -- the last segment is the name without its extension, and the others are those of the folder
  rcases last_occurrence '/' cs with h | ⟨dir, name, rfl, h⟩
  · have hstem := segments_of_slash_not_mem (slash_not_mem_dropExtension h)
    rw [String.ofList_toList] at hstem
    have hfolder : ¬Climbs (segments "") := by
      have hsegs : segments "" = [] ++ [""] := by decide
      rw [hsegs, climbs_concat]
      rintro (hnil | ⟨hdots, -⟩)
      · exact not_climbs_nil hnil
      · exact absurd hdots (by decide)
    have hcounts : descents (segments "") ≤ ascents (segments "") := by decide
    rw [folder_of_slash_not_mem h, lastName_of_slash_not_mem h, hstem,
      ← dropExtension_eq_dots_iff h, ← List.nil_append [_], climbs_concat]
    have hle : descents [] ≤ ascents [] := by decide
    rw [not_or]
    exact and_congr (iff_of_true not_climbs_nil hfolder)
      (not_congr (and_congr_right fun _ => iff_of_true hle hcounts))
  · rw [folder_append h, lastName_append h, dropExtension_append h, segments_append,
      segments_of_slash_not_mem (slash_not_mem_dropExtension h), String.ofList_toList,
      climbs_concat, dropExtension_eq_dots_iff h, not_or]

end ImportScout.Path
