import Mathlib.Data.List.Lex
import Mathlib.Data.String.Basic
import ImportScout.Proofs.Path.Canonical

/-! # Two orders of paths

Paths can be ordered as texts, character by character, or as ways, segment by segment. What the
paths start with in common matters to neither order (`segments_cons_lt_cons_iff`), and where they
first differ, a slash comes before everything else in the order of ways, but behind a few characters
such as the dot and the hyphen in the order of texts. Only there do the two orders differ
(`lt_or_overtakes`, `Overtakes.lt`, `Overtakes.segments_lt`).
-/

namespace ImportScout.Path

/-- Whether the text `p` has a character that comes before the slash where `q` has a slash, after
what they start with in common. -/
def Overtakes (p q : String) : Prop :=
  ∃ front c rest rest', c < '/' ∧ p.toList = front ++ c :: rest ∧ q.toList = front ++ '/' :: rest'

variable {c d : Char} {cs ds : List Char} {p q : String}

/-! ## Segments of texts that start with a character -/

theorem segments_cons (cs : List Char) (hc : c ≠ '/') : ∃ first rest,
    segments (String.ofList cs) = String.ofList first :: rest ∧
      segments (String.ofList (c :: cs)) = String.ofList (c :: first) :: rest := by
  obtain ⟨first, rest, hcs⟩ := List.exists_cons_of_ne_nil (List.splitOn_ne_nil '/' cs)
  refine ⟨first, rest.map String.ofList, ?_, ?_⟩
  · simp [segments, hcs]
  · simp [segments, List.splitOn_cons_eq_if_modifyHead, hcs, hc]

theorem ofList_lt_ofList_iff : String.ofList cs < String.ofList ds ↔ cs < ds := by
  rw [String.lt_iff_toList_lt, String.toList_ofList, String.toList_ofList]

theorem empty_lt_ofList_cons : "" < String.ofList (c :: cs) := by
  rw [String.lt_iff_toList_lt, String.toList_ofList, String.toList_ofList]
  exact List.nil_lt_cons c cs

theorem segments_empty_lt : segments "" < segments (String.ofList (c :: cs)) := by
  have hempty : segments "" = [""] := by decide
  rw [hempty]
  by_cases hc : c = '/'
  · obtain ⟨first, rest, hcs⟩ := List.exists_cons_of_ne_nil (List.splitOn_ne_nil '/' cs)
    rw [hc, segments_slash_cons, segments, String.toList_ofList, hcs, List.map_cons]
    exact List.cons_lt_cons_iff.mpr (Or.inr ⟨rfl, List.nil_lt_cons _ _⟩)
  · obtain ⟨first, rest, -, hcs⟩ := segments_cons cs hc
    rw [hcs]
    exact List.cons_lt_cons_iff.mpr (Or.inl empty_lt_ofList_cons)

/-- A character that two texts start with does not matter to the order of their segments. -/
theorem segments_cons_lt_cons_iff :
    segments (String.ofList (c :: cs)) < segments (String.ofList (c :: ds)) ↔
      segments (String.ofList cs) < segments (String.ofList ds) := by
  by_cases hc : c = '/'
  · subst hc
    rw [segments_slash_cons, segments_slash_cons, List.cons_lt_cons_iff]
    simp
  · obtain ⟨first, rest, hcs, hccs⟩ := segments_cons cs hc
    obtain ⟨first', rest', hds, hcds⟩ := segments_cons ds hc
    rw [hcs, hccs, hds, hcds, List.cons_lt_cons_iff, List.cons_lt_cons_iff, ofList_lt_ofList_iff,
      ofList_lt_ofList_iff, List.cons_lt_cons_iff, String.ofList_inj, String.ofList_inj,
      List.cons_inj_right]
    simp

/-- Where two texts first differ, a slash comes first in the order of segments. -/
theorem segments_slash_lt_cons (hd : d ≠ '/') :
    segments (String.ofList ('/' :: cs)) < segments (String.ofList (d :: ds)) := by
  obtain ⟨first, rest, -, hds⟩ := segments_cons ds hd
  rw [segments_slash_cons, hds]
  exact List.cons_lt_cons_iff.mpr (Or.inl empty_lt_ofList_cons)

/-- Where two texts first differ and neither has a slash, the order of segments is the order of the
characters. -/
theorem lt_of_segments_cons_lt_cons (hc : c ≠ '/') (hd : d ≠ '/') (hne : c ≠ d)
    (h : segments (String.ofList (c :: cs)) < segments (String.ofList (d :: ds))) : c < d := by
  obtain ⟨first, rest, -, hcs⟩ := segments_cons cs hc
  obtain ⟨first', rest', -, hds⟩ := segments_cons ds hd
  rw [hcs, hds, List.cons_lt_cons_iff, ofList_lt_ofList_iff, String.ofList_inj,
    List.cons_lt_cons_iff, List.cons_eq_cons] at h
  simpa [hne] using h

/-! ## Where the orders differ -/

theorem Overtakes.lt (h : Overtakes p q) : p < q := by
  obtain ⟨front, c, rest, rest', hc, hp, hq⟩ := h
  rw [String.lt_iff_toList_lt, hp, hq]
  exact List.append_left_lt (List.cons_lt_cons_iff.mpr (Or.inl hc))

theorem Overtakes.segments_lt (h : Overtakes p q) : segments q < segments p := by
  obtain ⟨front, c, rest, rest', hc, hp, hq⟩ := h
  rw [← String.ofList_toList (s := p), ← String.ofList_toList (s := q), hp, hq]
  clear hp hq
  induction front with
  | nil => exact segments_slash_lt_cons hc.ne
  | cons d front ih => exact segments_cons_lt_cons_iff.mpr ih

/-- A path that comes first by its segments also comes first as a text, unless it is overtaken. -/
theorem lt_or_overtakes (h : segments p < segments q) : p < q ∨ Overtakes q p := by
  suffices hlists : ∀ cs ds : List Char,
      segments (String.ofList cs) < segments (String.ofList ds) →
        cs < ds ∨ Overtakes (String.ofList ds) (String.ofList cs) by
    have hlists := hlists p.toList q.toList
    rw [String.ofList_toList, String.ofList_toList] at hlists
    exact hlists h
  intro cs ds h
  -- both texts are followed up to where they first differ
  induction cs generalizing ds with
  | nil =>
    cases ds with
    | nil => exact absurd h (lt_irrefl _)
    | cons d ds => exact Or.inl (List.nil_lt_cons d ds)
  | cons c cs ih =>
    cases ds with
    | nil => exact absurd h segments_empty_lt.asymm
    | cons d ds =>
      by_cases heq : c = d
      · subst heq
        rcases ih ds (segments_cons_lt_cons_iff.mp h) with
          hlt | ⟨front, e, rest, rest', he, hds, hcs⟩
        · exact Or.inl (List.cons_lt_cons_iff.mpr (Or.inr ⟨rfl, hlt⟩))
        · rw [String.toList_ofList] at hds hcs
          exact Or.inr ⟨c :: front, e, rest, rest', he, by simp [hds], by simp [hcs]⟩
      · by_cases hc : c = '/'
        · subst hc
          rcases lt_or_gt_of_ne heq with hlt | hgt
          · exact Or.inl (List.cons_lt_cons_iff.mpr (Or.inl hlt))
          · exact Or.inr ⟨[], d, ds, cs, hgt, by simp, by simp⟩
        · by_cases hd : d = '/'
          · subst hd
            exact absurd h (segments_slash_lt_cons hc).asymm
          · exact Or.inl (List.cons_lt_cons_iff.mpr
              (Or.inl (lt_of_segments_cons_lt_cons hc hd heq h)))

/-- Paths in the order of their segments are in the order of texts if none of them overtakes
another. -/
theorem pairwise_lt_iff_not_overtakes {paths : List String}
    (h : paths.Pairwise fun p q => segments p < segments q) :
    paths.Pairwise (· < ·) ↔ ∀ p ∈ paths, ∀ q ∈ paths, ¬Overtakes p q := by
  constructor
  · intro hlt p hp q hq
    refine List.Pairwise.forall_of_forall_of_flip (R := fun p q => ¬Overtakes p q)
      (fun p _ hover => lt_irrefl p hover.lt) ?_ ?_ hp hq
    · exact h.imp fun hlt hover => hlt.asymm hover.segments_lt
    · exact hlt.imp fun hlt hover => hlt.asymm hover.lt
  · exact fun hnone => h.imp_of_mem fun hp hq hlt =>
      (lt_or_overtakes hlt).resolve_right (hnone _ hq _ hp)

end ImportScout.Path
