import Mathlib.Data.List.Perm.Basic
import Mathlib.Data.List.Induction
import Mathlib.Data.Nat.Find
import Mathlib.Order.Bounds.Basic
import ImportScout.Proofs.Import.Capture

/-! # The imports of a text

What `Import.extract` finds, said without the table in which it is collected: each captured
specifier once, at the least of its offsets, and in the order of these offsets. As no two specifiers
share an offset, the order in which the table is read does not matter (`eq_extract_of_perm`).
-/

namespace ImportScout.Import

open Text

/-- Whether one of the forms captures `c` at one of its matches from left to right. -/
def Captured (code : String) (c : Capture) : Prop :=
  ∃ p ∈ forms, ∃ caps, p.Scans [] code.toList caps ∧ c ∈ caps

theorem captured_iff {code : String} {c : Capture} : Captured code c ↔ c ∈ captures code := by
  rw [captures, List.mem_flatMap]
  refine exists_congr fun p => and_congr_right fun _ => ?_
  simp only [Pattern.scans_iff_eq_captures, exists_eq_left]

/-- The table of specifiers, each with the least offset noted for it. -/
def found (code : String) : List Import :=
  (captures code).foldl (fun imps c => note (String.ofList c.text) c.offset imps) []

/-! ## Noting -/

section Note

variable {spec : String} {offset : ℕ} {imps : List Import}

theorem map_specifier_note :
    (note spec offset imps).map specifier =
      if spec ∈ imps.map specifier then imps.map specifier else imps.map specifier ++ [spec] := by
  induction imps with
  | nil => rfl
  | cons imp imps ih =>
    rw [note]
    by_cases h : imp.specifier = spec
    · rw [if_pos h, if_pos (by simp [h]), List.map_cons, List.map_cons, h]
    · rw [if_neg h, List.map_cons, ih, List.map_cons]
      have hmem : spec ∈ imp.specifier :: imps.map specifier ↔ spec ∈ imps.map specifier := by
        rw [List.mem_cons, or_iff_right (Ne.symm h)]
      simp only [hmem]
      split <;> rfl

theorem nodup_note (nodup : (imps.map specifier).Nodup) :
    ((note spec offset imps).map specifier).Nodup := by
  rw [map_specifier_note]
  split
  · exact nodup
  · rename_i h
    rw [← List.concat_eq_append]
    exact nodup.concat h

/-- Noting a specifier leaves the others alone. -/
theorem mem_note_of_ne {imp : Import} (h : imp.specifier ≠ spec) :
    imp ∈ note spec offset imps ↔ imp ∈ imps := by
  induction imps with
  | nil =>
    rw [note, List.mem_singleton]
    refine iff_of_false ?_ List.not_mem_nil
    rintro rfl
    exact h rfl
  | cons other imps ih =>
    rw [note]
    by_cases hother : other.specifier = spec
    · have hne : imp ≠ other := fun heq => h (heq ▸ hother)
      have hne' : imp ≠ ⟨spec, min other.offset offset⟩ := fun heq => h (heq ▸ rfl)
      rw [if_pos hother, List.mem_cons, List.mem_cons, or_iff_right hne, or_iff_right hne']
    · rw [if_neg hother, List.mem_cons, List.mem_cons, ih]

theorem mem_note_of_mem {least : ℕ} (nodup : (imps.map specifier).Nodup)
    (h : ⟨spec, least⟩ ∈ imps) : ⟨spec, min least offset⟩ ∈ note spec offset imps := by
  induction imps with
  | nil => exact absurd h List.not_mem_nil
  | cons other imps ih =>
    rw [List.map_cons, List.nodup_cons] at nodup
    rw [note]
    rcases List.mem_cons.mp h with rfl | h
    · rw [if_pos rfl]
      exact List.mem_cons_self
    · have hne : other.specifier ≠ spec := fun heq =>
        nodup.1 (heq ▸ List.mem_map_of_mem (f := specifier) h)
      rw [if_neg hne]
      exact List.mem_cons_of_mem _ (ih nodup.2 h)

theorem mem_note_of_not_mem (h : spec ∉ imps.map specifier) :
    ⟨spec, offset⟩ ∈ note spec offset imps := by
  induction imps with
  | nil => exact List.mem_singleton_self _
  | cons other imps ih =>
    rw [List.map_cons, List.mem_cons, not_or] at h
    rw [note, if_neg (Ne.symm h.1)]
    exact List.mem_cons_of_mem _ (ih h.2)

end Note

/-! ## The table -/

/-- The offsets at which a specifier is captured. -/
def offsetsOf (caps : List Capture) (spec : String) : Set ℕ :=
  {n | ⟨spec.toList, n⟩ ∈ caps}

section Offsets

variable (caps : List Capture) (c : Capture)

theorem offsetsOf_concat_self :
    offsetsOf (caps ++ [c]) (String.ofList c.text) =
      insert c.offset (offsetsOf caps (String.ofList c.text)) := by
  ext n
  simp only [offsetsOf, String.toList_ofList, Set.mem_ofPred_eq, Set.mem_insert_iff,
    List.mem_append, List.mem_singleton]
  rw [or_comm]
  refine or_congr ⟨?_, ?_⟩ Iff.rfl
  · intro h
    rw [← h]
  · rintro rfl
    rfl

theorem offsetsOf_concat_of_ne {spec : String} (h : spec ≠ String.ofList c.text) :
    offsetsOf (caps ++ [c]) spec = offsetsOf caps spec := by
  ext n
  simp only [offsetsOf, Set.mem_ofPred_eq, List.mem_append, List.mem_singleton]
  refine or_iff_left ?_
  rintro rfl
  exact h (String.ofList_toList).symm

end Offsets

/-- Whether `imps` lists the specifiers of the captures, each once, with its least offset. -/
structure Tabulates (caps : List Capture) (imps : List Import) : Prop where
  nodup : (imps.map specifier).Nodup
  mem_iff : ∀ imp, imp ∈ imps ↔ IsLeast (offsetsOf caps imp.specifier) imp.offset

namespace Tabulates

variable {caps : List Capture} {imps : List Import}

/-- A specifier is listed exactly if it is captured. -/
theorem mem_specifiers_iff (h : Tabulates caps imps) (spec : String) :
    spec ∈ imps.map specifier ↔ (offsetsOf caps spec).Nonempty := by
  rw [List.mem_map]
  constructor
  · rintro ⟨imp, himp, rfl⟩
    exact ((h.mem_iff imp).mp himp).nonempty
  · intro hne
    have hcaptured : ∃ n, (⟨spec.toList, n⟩ : Capture) ∈ caps := hne
    have hleast : IsLeast (offsetsOf caps spec) (Nat.find hcaptured) :=
      ⟨Nat.find_spec hcaptured, fun _ hn => Nat.find_min' hcaptured hn⟩
    exact ⟨⟨spec, _⟩, (h.mem_iff _).mpr hleast, rfl⟩

theorem nil : Tabulates [] [] where
  nodup := List.nodup_nil
  mem_iff _ := iff_of_false List.not_mem_nil fun h => absurd h.1 List.not_mem_nil

/-- The specifier that is noted is listed at the least of its offsets. -/
theorem exists_noted (h : Tabulates caps imps) (c : Capture) :
    ∃ least, ⟨String.ofList c.text, least⟩ ∈ note (String.ofList c.text) c.offset imps ∧
      IsLeast (offsetsOf (caps ++ [c]) (String.ofList c.text)) least := by
  rw [offsetsOf_concat_self]
  by_cases hmem : String.ofList c.text ∈ imps.map specifier
  · obtain ⟨⟨spec, old⟩, hold, heq⟩ := List.mem_map.mp hmem
    change spec = String.ofList c.text at heq
    subst heq
    -- the older offsets have their least one in the table already
    refine ⟨min old c.offset, mem_note_of_mem h.nodup hold, ?_⟩
    rw [min_comm]
    exact ((h.mem_iff _).mp hold).insert c.offset
  · have hempty : offsetsOf caps (String.ofList c.text) = ∅ :=
      Set.not_nonempty_iff_eq_empty.mp (mt (h.mem_specifiers_iff _).mpr hmem)
    refine ⟨c.offset, mem_note_of_not_mem hmem, ?_⟩
    rw [hempty, insert_empty_eq]
    exact isLeast_singleton

/-- Noting one more capture keeps the table. -/
theorem note (h : Tabulates caps imps) (c : Capture) :
    Tabulates (caps ++ [c]) (note (String.ofList c.text) c.offset imps) where
  nodup := nodup_note h.nodup
  mem_iff imp := by
    by_cases hne : imp.specifier = String.ofList c.text
    · obtain ⟨least, hleast, hmin⟩ := h.exists_noted c
      obtain ⟨spec, n⟩ := imp
      change spec = String.ofList c.text at hne
      subst hne
      constructor
      · intro himp
        rw [List.inj_on_of_nodup_map (nodup_note h.nodup) himp hleast rfl]
        exact hmin
      · intro himp
        have heq : n = least := himp.unique hmin
        rw [heq]
        exact hleast
    · rw [mem_note_of_ne hne, offsetsOf_concat_of_ne caps c hne, h.mem_iff]

end Tabulates

/-- The table holds what is captured. -/
theorem tabulates_found (code : String) : Tabulates (captures code) (found code) := by
  rw [found]
  induction captures code using List.reverseRecOn with
  | nil => exact Tabulates.nil
  | append_singleton caps c ih =>
    rw [List.foldl_append]
    exact ih.note c

/-! ## The imports in order -/

section Order

variable {code : String}

/-- In the table an offset determines its specifier. -/
theorem eq_of_mem_found {imp imp' : Import} (h : imp ∈ found code) (h' : imp' ∈ found code)
    (heq : imp.offset = imp'.offset) : imp = imp' := by
  have htext : imp.specifier.toList = imp'.specifier.toList :=
    text_eq_of_offset_eq (((tabulates_found code).mem_iff imp).mp h).1
      (((tabulates_found code).mem_iff imp').mp h').1 heq
  cases imp
  cases imp'
  rw [Import.mk.injEq]
  exact ⟨String.toList_injective htext, heq⟩

theorem extract_perm (code : String) : (extract code).Perm (found code) :=
  List.mergeSort_perm _ _

theorem pairwise_extract (code : String) :
    (extract code).Pairwise fun a b => a.offset ≤ b.offset := by
  have htrans (a b c : Import) (hab : decide (a.offset ≤ b.offset) = true)
      (hbc : decide (b.offset ≤ c.offset) = true) : decide (a.offset ≤ c.offset) = true :=
    decide_eq_true (Nat.le_trans (of_decide_eq_true hab) (of_decide_eq_true hbc))
  have htotal (a b : Import) :
      (decide (a.offset ≤ b.offset) || decide (b.offset ≤ a.offset)) = true := by
    rw [Bool.or_eq_true, decide_eq_true_eq, decide_eq_true_eq]
    exact Nat.le_total _ _
  exact (List.pairwise_mergeSort htrans htotal (found code)).imp of_decide_eq_true

/-- Reading the table in another order and sorting by offsets gives the same list. -/
theorem eq_extract_of_perm {sorted : List Import} (hperm : sorted.Perm (found code))
    (hsorted : sorted.Pairwise fun a b => a.offset ≤ b.offset) : sorted = extract code := by
  -- sorted lists of the same entries agree if no two entries are equally far
  refine List.Perm.eq_of_pairwise ?_ hsorted (pairwise_extract code)
    (hperm.trans (extract_perm code).symm)
  intro a b ha hb hab hba
  exact eq_of_mem_found (hperm.mem_iff.mp ha) ((extract_perm code).mem_iff.mp hb)
    (Nat.le_antisymm hab hba)

end Order

/-- What is imported stands in the text at its offset. -/
theorem exists_split_of_mem_extract {code : String} {imp : Import} (h : imp ∈ extract code) :
    ∃ before after, code = before ++ imp.specifier ++ after ∧
      before.utf8ByteSize = imp.offset := by
  have hcaptured := (((tabulates_found code).mem_iff imp).mp ((extract_perm code).mem_iff.mp h)).1
  obtain ⟨before, post, rest, hcode, hoffset, -, -⟩ := mem_captures_cases hcaptured
  refine ⟨String.ofList before, String.ofList (post ++ rest), ?_, ?_⟩
  · apply String.toList_injective
    simpa using hcode
  · rw [utf8ByteSize_ofList]
    exact hoffset.symm

/-- The imports of a text stand in it at their offsets, each specifier once. They are exactly what
the forms capture, each at the least offset of its captures, in strictly increasing order, and the
order in which the table of specifiers is read does not matter. -/
theorem extract_tabulates_captures (code : String) :
    (∀ imp ∈ extract code, imp.specifier ≠ "" ∧ ∃ before after,
        code = before ++ imp.specifier ++ after ∧ before.utf8ByteSize = imp.offset) ∧
      ((extract code).map specifier).Nodup ∧
      (∀ spec, spec ∈ (extract code).map specifier ↔
        ∃ c, Captured code c ∧ String.ofList c.text = spec) ∧
      (∀ imp ∈ extract code,
        IsLeast {n | Captured code ⟨imp.specifier.toList, n⟩} imp.offset) ∧
      ((extract code).Pairwise fun a b => a.offset < b.offset) ∧
      ∀ sorted : List Import, sorted.Perm (found code) →
        (sorted.Pairwise fun a b => a.offset ≤ b.offset) → sorted = extract code := by
  have table := tabulates_found code
  have hperm := extract_perm code
  have hnodup : ((extract code).map specifier).Nodup :=
    (hperm.map specifier).nodup_iff.mpr table.nodup
  have hoffsets (spec : String) :
      offsetsOf (captures code) spec = {n | Captured code ⟨spec.toList, n⟩} := by
    ext n
    exact captured_iff.symm
  refine ⟨?_, hnodup, ?_, ?_, ?_, fun sorted => eq_extract_of_perm⟩
  · intro imp himp
    have hcaptured := ((table.mem_iff imp).mp (hperm.mem_iff.mp himp)).1
    obtain ⟨before, post, rest, -, -, hne, -⟩ := mem_captures_cases hcaptured
    exact ⟨fun hempty => hne (by rw [hempty]; rfl), exists_split_of_mem_extract himp⟩
  · intro spec
    rw [(hperm.map specifier).mem_iff, table.mem_specifiers_iff, hoffsets]
    constructor
    · rintro ⟨n, hmem⟩
      exact ⟨_, hmem, String.ofList_toList⟩
    · rintro ⟨c, hc, rfl⟩
      refine ⟨c.offset, ?_⟩
      show Captured code ⟨(String.ofList c.text).toList, c.offset⟩
      rwa [String.toList_ofList]
  · intro imp himp
    rw [← hoffsets]
    exact (table.mem_iff imp).mp (hperm.mem_iff.mp himp)
  · -- sorted offsets that are distinct increase strictly
    have hdistinct : (extract code).Pairwise fun a b => a ≠ b := hnodup.of_map specifier
    refine ((pairwise_extract code).and hdistinct).imp_of_mem ?_
    intro a b ha hb hab
    refine Nat.lt_of_le_of_ne hab.1 fun heq => hab.2 ?_
    exact eq_of_mem_found (hperm.mem_iff.mp ha) (hperm.mem_iff.mp hb) heq

end ImportScout.Import
