import Mathlib.Data.List.Basic
import ImportScout.Proofs.Text.Match

/-! # What a search does not miss

Matches are taken from left to right and none overlaps another, so a match that is there may be
passed over. `exists_covering` says when: only if one that is found reaches over its first
character. Two more facts tell what is found. A stretch ends where the class of its characters ends
(`run_unique`), and a captured run at the end of a pattern is as long as it can be
(`Prefers.not_accepts`).
-/

namespace ImportScout.Text

/-! ## Stretches without a class of characters -/

section Runs

variable {P : Char → Bool} {a b c d e : List Char} {x y : Char}

/-- A character of a class stands behind every beginning without that class. -/
theorem exists_append_of_avoids (h : a ++ x :: b = c ++ d) (hc : ∀ z ∈ c, P z = false)
    (hx : P x = true) : ∃ gap, a = c ++ gap ∧ d = gap ++ x :: b := by
  rcases List.append_eq_append_iff.mp h with ⟨gap, rfl, hgap⟩ | ⟨gap, rfl, rfl⟩
  · cases gap with
    | nil => exact ⟨[], by simp, hgap.symm⟩
    | cons z gap =>
      obtain ⟨rfl, -⟩ := List.cons.inj hgap
      have := hc x (List.mem_append_right _ List.mem_cons_self)
      rw [hx] at this
      exact absurd this (by decide)
  · exact ⟨gap, rfl, rfl⟩

/-- Where the first character of a class stands is determined by the text. -/
theorem run_unique (h : a ++ x :: b = c ++ y :: d) (ha : ∀ z ∈ a, P z = false)
    (hc : ∀ z ∈ c, P z = false) (hx : P x = true) (hy : P y = true) : a = c ∧ x = y ∧ b = d := by
  obtain ⟨gap, rfl, hgap⟩ := exists_append_of_avoids h hc hx
  cases gap with
  | nil =>
    obtain ⟨rfl, rfl⟩ := List.cons.inj hgap
    exact ⟨List.append_nil _, rfl, rfl⟩
  | cons z gap =>
    obtain ⟨rfl, -⟩ := List.cons.inj hgap
    have := ha y (List.mem_append_right _ List.mem_cons_self)
    rw [hy] at this
    exact absurd this (by decide)

/-- A character of a class does not stand in a stretch without that class. -/
theorem length_le_of_avoids (h : a ++ x :: b = c ++ d ++ e) (hle : c.length ≤ a.length)
    (hd : ∀ z ∈ d, P z = false) (hx : P x = true) : (c ++ d).length ≤ a.length := by
  obtain ⟨gap, rfl⟩ : c <+: a := by
    refine List.prefix_of_prefix_length_le (List.prefix_append c (d ++ e)) ?_ hle
    rw [← List.append_assoc, ← h]
    exact List.prefix_append _ _
  rw [List.append_assoc, List.append_assoc, List.append_cancel_left_eq] at h
  obtain ⟨gap', rfl, -⟩ := exists_append_of_avoids h hd hx
  simp

end Runs

namespace Pattern

open Cursor

/-- Whether the pattern takes no character of a class. -/
def Avoids (P : Char → Bool) : Pattern → Prop
  | one accepts | many accepts => ∀ c, accepts c = true → P c = false
  | maybe p | captured p => p.Avoids P
  | andThen p q => p.Avoids P ∧ q.Avoids P
  | nothing | lineStart => True

theorem Fits.avoids {P : Char → Bool} {p : Pattern} {front taken : List Char}
    {cap cap' : Option Capture} (h : p.Fits front taken cap cap') (hp : p.Avoids P) :
    ∀ c ∈ taken, P c = false := by
  induction p generalizing front taken cap cap' with
  | nothing =>
    obtain ⟨rfl, -⟩ := h
    simp
  | one accepts =>
    obtain ⟨⟨c, hc, rfl⟩, -⟩ := h
    simpa using hp c hc
  | many accepts => exact fun c hc => hp c (h.1 c hc)
  | maybe p ih =>
    rcases h with h | ⟨rfl, -⟩
    · exact ih h hp
    · simp
  | andThen p q ihp ihq =>
    obtain ⟨head, tail, mid, rfl, hhead, htail⟩ := h
    rw [List.forall_mem_append]
    exact ⟨ihp hhead hp.1, ihq htail hp.2⟩
  | captured p ih =>
    obtain ⟨⟨inner, hinner⟩, -⟩ := h
    exact ih hinner hp
  | lineStart =>
    obtain ⟨-, rfl, -⟩ := h
    simp

theorem avoids_all {P : Char → Bool} {ps : List Pattern} (h : ∀ p ∈ ps, p.Avoids P) :
    (all ps).Avoids P := by
  induction ps with
  | nil => trivial
  | cons p ps ih =>
    rw [List.forall_mem_cons] at h
    exact ⟨h.1, ih h.2⟩

theorem avoids_word {P : Char → Bool} {s : String} (h : ∀ c ∈ s.toList, P c = false) :
    (word s).Avoids P := by
  refine avoids_all fun p hp => ?_
  obtain ⟨c, hc, rfl⟩ := List.mem_map.mp hp
  intro d hd
  rw [beq_iff_eq.mp hd]
  exact h c hc

/-! ## Matches that are found -/

section Found

variable {p : Pattern} {P : (before text post : List Char) → Prop} {front rest text : List Char}
  {caps : List Capture} {c : Capture}

/-- Where something fits, there is a best match. -/
theorem Fits.exists_prefers {taken : List Char} {cap : Option Capture}
    (h : p.Fits front taken none cap) (rest : List Char) :
    ∃ taken' rest' cap', taken ++ rest = taken' ++ rest' ∧ p.Prefers front taken' rest' cap' := by
  have hmem := (mem_ends_iff p front (taken ++ rest) none cap _).mpr
    ⟨taken, ⟨rest, rfl, rfl⟩, h⟩
  cases hfirst : p.first? (after front (taken ++ rest)) with
  | none =>
    rw [first?_eq_head?, List.head?_eq_none_iff] at hfirst
    rw [hfirst] at hmem
    exact absurd hmem List.not_mem_nil
  | some e =>
    obtain ⟨taken', rest', htext, -, hprefers⟩ := Pattern.exists_prefers hfirst
    exact ⟨taken', rest', e.2, htext, hprefers⟩

theorem CapturesIn.ne_nil (hp : p.CapturesIn P) {taken : List Char} {cap : Option Capture}
    (h : p.Fits front taken none cap) : taken ≠ [] := by
  obtain ⟨pre, text, post, rfl, -, hne, -⟩ := hp _ _ _ h
  simp [hne]

/-- What is captured is captured by a best match. -/
theorem Scans.exists_prefers (h : p.Scans front rest caps) (hc : c ∈ caps) :
    ∃ before taken after, front ++ rest = before ++ taken ++ after ∧
      p.Prefers before taken after (some c) := by
  induction h with
  | done => exact absurd hc List.not_mem_nil
  | @found front taken rest cap caps hprefers _ _ ih =>
    rcases List.mem_append.mp hc with hcap | hcaps
    · rw [Option.mem_toList] at hcap
      subst hcap
      exact ⟨front, taken, rest, by rw [List.append_assoc], hprefers⟩
    · rw [← List.append_assoc]
      exact ih hcaps
  | passed _ _ ih =>
    rw [← List.singleton_append, ← List.append_assoc]
    exact ih hc

/-- Where something fits behind `pre`, a best match is found that starts there or before and takes
the next character. -/
theorem Scans.exists_covering (h : p.Scans front rest caps) (hp : p.CapturesIn P)
    {pre taken post : List Char} {cap : Option Capture} (hrest : rest = pre ++ taken ++ post)
    (hfits : p.Fits (front ++ pre) taken none cap) :
    ∃ before taken' after, ∃ c ∈ caps, front ++ rest = before ++ taken' ++ after ∧
      p.Prefers before taken' after (some c) ∧ before.length ≤ (front ++ pre).length ∧
        (front ++ pre).length < (before ++ taken').length := by
  induction h generalizing pre with
  | done =>
    rw [List.append_assoc, List.nil_eq, List.append_eq_nil_iff, List.append_eq_nil_iff] at hrest
    exact absurd hrest.2.1 (hp.ne_nil hfits)
  | @found front first rest cap' caps hprefers _ _ ih =>
    rcases Nat.lt_or_ge pre.length first.length with hlt | hle
    · -- the match at hand takes the character in question
      obtain ⟨_, text, _, -, rfl, -, -⟩ := hp _ _ _ hprefers.fits
      refine ⟨front, first, rest, _, List.mem_cons_self, by rw [List.append_assoc], hprefers, ?_,
        ?_⟩
      · simp
      · simpa using hlt
    · obtain ⟨pre', rfl⟩ : first <+: pre := by
        refine List.prefix_of_prefix_length_le (List.prefix_append first rest) ?_ hle
        rw [hrest, List.append_assoc]
        exact List.prefix_append _ _
      rw [List.append_assoc, List.append_assoc, List.append_cancel_left_eq] at hrest
      rw [← List.append_assoc] at hrest hfits
      obtain ⟨before, taken', after, c, hc, htext, hprefers', hbefore, hafter⟩ := ih hrest hfits
      refine ⟨before, taken', after, c, List.mem_append_right _ hc, ?_, hprefers', ?_, ?_⟩
      · rw [← List.append_assoc, htext]
      · rwa [← List.append_assoc]
      · rwa [← List.append_assoc]
  | @passed front rest d caps hnone _ ih =>
    cases pre with
    | nil =>
      -- the search passes over a place only if nothing fits there
      rw [List.append_nil] at hfits
      rw [List.nil_append] at hrest
      obtain ⟨taken', rest', cap', htext, hprefers⟩ := hfits.exists_prefers post
      exact absurd (hnone _ _ _ (hrest.trans htext) hprefers) (hp.ne_nil hprefers.fits)
    | cons e pre =>
      obtain ⟨rfl, htail⟩ := List.cons.inj hrest
      rw [List.append_cons] at hfits
      rw [List.append_cons front d rest, List.append_cons front d pre]
      exact ih htail hfits

theorem exists_prefers_of_mem_captures (hc : c ∈ p.captures text) :
    ∃ before taken after, text = before ++ taken ++ after ∧
      p.Prefers before taken after (some c) :=
  ((p.scans_iff_eq_captures text _).mpr rfl).exists_prefers hc

/-- A match is missed only if one that is found reaches over its first character. -/
theorem exists_covering (hp : p.CapturesIn P) {before taken after : List Char}
    {cap : Option Capture} (htext : text = before ++ taken ++ after)
    (hfits : p.Fits before taken none cap) :
    ∃ before' taken' after', ∃ c ∈ p.captures text, text = before' ++ taken' ++ after' ∧
      p.Prefers before' taken' after' (some c) ∧ before'.length ≤ before.length ∧
        before.length < (before' ++ taken').length :=
  ((p.scans_iff_eq_captures text _).mpr rfl).exists_covering hp htext hfits

end Found

/-! ## Runs as long as they can be -/

/-- Whether the best way to match always stops where `Q` holds of what follows. -/
def StopsBefore (p : Pattern) (Q : List Char → Prop) : Prop :=
  ∀ cur cap stop, (p.ends cur cap).head? = some stop → Q stop.1.rest

section StopsBefore

variable {p q : Pattern} {Q : List Char → Prop}

theorem StopsBefore.andThen (hq : q.StopsBefore Q) : (andThen p q).StopsBefore Q := by
  intro cur cap stop h
  rw [ends, List.head?_flatMap] at h
  obtain ⟨e, -, he⟩ := List.exists_of_findSome?_eq_some h
  exact hq _ _ _ he

theorem StopsBefore.captured (hp : p.StopsBefore Q) : (captured p).StopsBefore Q := by
  intro cur cap stop h
  rw [ends, List.head?_map, Option.map_eq_some_iff] at h
  obtain ⟨e, he, rfl⟩ := h
  exact hp cur cap e he

theorem StopsBefore.all_concat (hq : q.StopsBefore Q) (ps : List Pattern) :
    (all (ps ++ [q])).StopsBefore Q := by
  induction ps with
  | nil =>
    intro cur cap stop h
    have hlast : (all ([] ++ [q])).ends cur cap = q.ends cur cap :=
      List.flatMap_singleton' (q.ends cur cap)
    rw [hlast] at h
    exact hq _ _ _ h
  | cons p ps ih => exact ih.andThen

end StopsBefore

theorem head?_runEnds {accepts : Char → Bool} {offset : ℕ} {before : Option Char}
    {rest : List Char} {stop : Cursor}
    (h : (runEnds accepts offset before rest).head? = some stop) :
    ∀ c ∈ stop.rest.head?, accepts c = false := by
  induction rest generalizing offset before with
  | nil =>
    rw [runEnds, List.head?_singleton, Option.some.injEq] at h
    subst h
    simp
  | cons c rest ih =>
    rw [runEnds] at h
    by_cases hc : accepts c = true
    · rw [if_pos hc, List.head?_append, Option.or_eq_some_iff] at h
      rcases h with h | ⟨hnone, -⟩
      · exact ih h
      · cases rest <;> simp [runEnds] at hnone
    · rw [if_neg hc, List.nil_append, List.head?_singleton, Option.some.injEq] at h
      subst h
      simpa using hc

theorem stopsBefore_many (accepts : Char → Bool) :
    (many accepts).StopsBefore fun rest => ∀ c ∈ rest.head?, accepts c = false := by
  intro cur cap stop h
  rw [ends, List.head?_map, Option.map_eq_some_iff] at h
  obtain ⟨cur', hcur', rfl⟩ := h
  exact head?_runEnds hcur'

/-- A run that is captured last does not stop before a character that it could take. -/
theorem Prefers.not_accepts {ps : List Pattern} {accepts : Char → Bool}
    {front taken rest : List Char} {cap : Option Capture}
    (h : (all (ps ++ [Pattern.captured (some1 accepts)])).Prefers front taken rest cap) :
    ∀ c ∈ rest.head?, accepts c = false :=
  (stopsBefore_many accepts).andThen.captured.all_concat ps _ _ _ h

end Pattern

end ImportScout.Text
