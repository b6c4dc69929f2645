import Mathlib.Data.List.Dedup
import Mathlib.Data.List.Perm.Basic
import ImportScout.Glob.Cache
import ImportScout.Proofs.Entries

/-! # The cache of globs cannot be told

A cache that was filled by questions keeps each pattern once, with the glob that it is read as
(`Cache.IsSound`). One question keeps it so, and adds the pattern of the question if it is a glob
and nothing else (`Cache.IsSound.accepts_cases`). So every question in a row is answered as if its
pattern was read afresh, and the cache grows with the patterns that are new globs
(`Cache.acceptsAll_eq_fresh`).
-/

namespace ImportScout.Glob

/-- Whether a pattern describes a path, the pattern read for this question. -/
def fresh (pattern path : String) : Except Fault Bool :=
  (parse searchStyle pattern).map (·.accepts path)

/-- Whether a pattern is read as a glob. -/
def isGlob (pattern : String) : Bool :=
  (parse searchStyle pattern).isOk

namespace Cache

/-- The patterns that are kept. -/
def patterns (c : Cache) : List String :=
  c.entries.map Prod.fst

/-- Ask one question after the other, of a pattern and a path each. -/
def acceptsAll (c : Cache) : List (String × String) → List (Except Fault Bool) × Cache
  | [] => ([], c)
  | (pattern, path) :: questions =>
    let (answer, c) := c.accepts pattern path
    let (answers, c) := acceptsAll c questions
    (answer :: answers, c)

/-- Whether each pattern is kept once, with the glob that it is read as. -/
structure IsSound (c : Cache) : Prop where
  nodup : c.patterns.Nodup
  parsed : ∀ entry ∈ c.entries, parse searchStyle entry.1 = .ok entry.2

theorem isSound_empty : IsSound {} :=
  ⟨List.nodup_nil, by simp⟩

variable {c : Cache} {pattern path other : String} {fault : Fault} {glob : Glob}

/-! ## One question -/

theorem lookup_eq_none_iff : c.entries.lookup pattern = none ↔ pattern ∉ c.patterns := by
  rw [patterns, mem_keys_iff, Option.not_isSome_iff_eq_none]

theorem IsSound.parse_of_lookup (sound : c.IsSound) (h : c.entries.lookup pattern = some glob) :
    parse searchStyle pattern = .ok glob :=
  sound.parsed (pattern, glob) (mem_of_lookup_eq_some h)

/-- A question is answered as if its pattern was read for it. The pattern is kept if it is a new
glob, and else the cache stays as it is. -/
theorem IsSound.accepts_cases (sound : c.IsSound) (pattern path : String) :
    (c.accepts pattern path = (fresh pattern path, c) ∧
        (pattern ∈ c.patterns ∨ isGlob pattern = false)) ∨
      ∃ glob, parse searchStyle pattern = .ok glob ∧ pattern ∉ c.patterns ∧
        c.accepts pattern path = (fresh pattern path, ⟨(pattern, glob) :: c.entries⟩) := by
  cases hkept : c.entries.lookup pattern with
  | some glob =>
    have hmem : pattern ∈ c.patterns := List.mem_map_of_mem (mem_of_lookup_eq_some hkept)
    refine Or.inl ⟨?_, Or.inl hmem⟩
    rw [accepts, hkept, fresh, sound.parse_of_lookup hkept]
    rfl
  | none =>
    cases hparse : parse searchStyle pattern with
    | error fault =>
      refine Or.inl ⟨?_, Or.inr (by rw [isGlob, hparse]; rfl)⟩
      rw [accepts, hkept, fresh, hparse]
      rfl
    | ok glob =>
      refine Or.inr ⟨glob, rfl, lookup_eq_none_iff.mp hkept, ?_⟩
      rw [accepts, hkept, fresh, hparse]
      rfl

section Sound

variable (sound : c.IsSound)

include sound

theorem IsSound.accepts_value (pattern path : String) :
    (c.accepts pattern path).1 = fresh pattern path := by
  obtain ⟨haccepts, -⟩ | ⟨glob, -, -, haccepts⟩ := sound.accepts_cases pattern path
  · rw [haccepts]
  · rw [haccepts]

theorem IsSound.accepts (pattern path : String) : (c.accepts pattern path).2.IsSound := by
  obtain ⟨haccepts, -⟩ | ⟨glob, hparse, hnew, haccepts⟩ := sound.accepts_cases pattern path
  · rwa [haccepts]
  · rw [haccepts]
    exact ⟨List.nodup_cons.mpr ⟨hnew, sound.nodup⟩,
      List.forall_mem_cons.mpr ⟨hparse, sound.parsed⟩⟩

/-- A question adds its pattern, if that is a glob, and no other. -/
theorem IsSound.mem_patterns_accepts_iff :
    other ∈ (c.accepts pattern path).2.patterns ↔
      other ∈ c.patterns ∨ (other = pattern ∧ isGlob other = true) := by
  obtain ⟨haccepts, hold⟩ | ⟨glob, hparse, -, haccepts⟩ := sound.accepts_cases pattern path
  · rw [haccepts, or_iff_left_of_imp]
    rintro ⟨rfl, hglob⟩
    exact hold.resolve_right (by simp [hglob])
  · have hglob : isGlob pattern = true := by
      rw [isGlob, hparse]
      rfl
    rw [haccepts, patterns, List.map_cons, List.mem_cons, or_comm]
    exact or_congr_right ⟨fun heq => ⟨heq, heq ▸ hglob⟩, And.left⟩

theorem IsSound.accepts_of_error (h : (c.accepts pattern path).1 = .error fault) :
    c.accepts pattern path = (.error fault, c) := by
  obtain ⟨haccepts, -⟩ | ⟨glob, hparse, -, haccepts⟩ := sound.accepts_cases pattern path
  · rw [haccepts] at h ⊢
    exact congrArg (·, c) h
  · rw [haccepts, fresh, hparse] at h
    exact absurd h (by simp [Except.map])

/-! ## Questions in a row -/

/-- Questions in a row are answered as if each pattern was read for its question. -/
theorem IsSound.acceptsAll_value (questions : List (String × String)) :
    (c.acceptsAll questions).1 = questions.map fun q => fresh q.1 q.2 := by
  induction questions generalizing c with
  | nil => rfl
  | cons q questions ih =>
    rw [acceptsAll, List.map_cons, ← sound.accepts_value, ← ih (sound.accepts q.1 q.2)]

theorem IsSound.acceptsAll (questions : List (String × String)) :
    (c.acceptsAll questions).2.IsSound := by
  induction questions generalizing c with
  | nil => exact sound
  | cons q questions ih => exact ih (sound.accepts q.1 q.2)

/-- Questions in a row add those of their patterns that are globs. -/
theorem IsSound.mem_patterns_acceptsAll_iff (questions : List (String × String)) :
    other ∈ (c.acceptsAll questions).2.patterns ↔
      other ∈ c.patterns ∨ (other ∈ questions.map Prod.fst ∧ isGlob other = true) := by
  induction questions generalizing c with
  | nil => simp [Cache.acceptsAll]
  | cons q questions ih =>
    rw [Cache.acceptsAll, ih (sound.accepts q.1 q.2), sound.mem_patterns_accepts_iff, or_assoc,
      ← or_and_right, List.map_cons, List.mem_cons]

end Sound

/-- Each question that is put to a cache is answered as if its pattern was read for it. One that
fails leaves the cache as it is, and there are kept as many globs as there are different patterns
among the questions that are globs. -/
theorem acceptsAll_eq_fresh (questions : List (String × String)) :
    (acceptsAll {} questions).1 = questions.map (fun q => fresh q.1 q.2) ∧
      (∀ pattern path fault,
        ((acceptsAll {} questions).2.accepts pattern path).1 = .error fault →
          ((acceptsAll {} questions).2.accepts pattern path).2 = (acceptsAll {} questions).2) ∧
        (acceptsAll {} questions).2.size =
          ((questions.map Prod.fst).dedup.filter isGlob).length := by
  have sound := isSound_empty.acceptsAll questions
  refine ⟨isSound_empty.acceptsAll_value questions, fun pattern path fault h => ?_, ?_⟩
  · rw [sound.accepts_of_error h]
  · have hperm : (acceptsAll {} questions).2.patterns.Perm
        ((questions.map Prod.fst).dedup.filter isGlob) := by
      refine (List.perm_ext_iff_of_nodup sound.nodup ((List.nodup_dedup _).filter _)).mpr ?_
      intro pattern
      rw [isSound_empty.mem_patterns_acceptsAll_iff, List.mem_filter, List.mem_dedup]
      simp [patterns]
    rw [← hperm.length_eq, patterns, List.length_map]
    rfl

/-- A glob that is asked for twice, and a pattern that is none, asked for again. -/
theorem acceptsAll_eq_fresh_repeated :
    let (answers, c) :=
      acceptsAll {} [("*.rs", "a.rs"), ("src/[", "src/a"), ("*.rs", "b/c.rs"), ("*", "a.rs")]
    answers = [.ok true, .error ⟨"src/[", .unclosedClass⟩, .ok false, .ok true] ∧
      (c.accepts "src/[" "a").1 = .error ⟨"src/[", .unclosedClass⟩ ∧
        (c.accepts "src/[" "a").2 = c ∧ c.size = 2 := by
  have hfails : ((acceptsAll {} [("*.rs", "a.rs"), ("src/[", "src/a"), ("*.rs", "b/c.rs"),
      ("*", "a.rs")]).2.accepts "src/[" "a").1 = .error ⟨"src/[", .unclosedClass⟩ := by
    decide +kernel
  exact ⟨by decide +kernel, hfails, (acceptsAll_eq_fresh _).2.1 _ _ _ hfails, by decide +kernel⟩

end Cache

end ImportScout.Glob
