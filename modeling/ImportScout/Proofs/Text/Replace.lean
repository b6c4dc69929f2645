import Mathlib.Data.List.Infix
import ImportScout.Text.Split

/-! # Replacing one text by another

Replacing leaves everything but the occurrences of the old text alone. If the first character of the
old text does not come again in it, occurrences cannot overlap, and all of them are replaced: each
takes one such character away (`count_replaceAll`). A text in front that makes no new occurrence
stays as it is (`replaceAll_append_of_occurrences_eq`).
-/

namespace ImportScout.Text

/-- How often `needle` occurs in `cs`. -/
def occurrences (needle cs : List Char) : ℕ :=
  cs.tails.countP needle.isPrefixOf

variable {old new front cs : List Char} {c x : Char} {start : List Char}

theorem dropStart?_eq_none_iff : dropStart? old cs = none ↔ ¬old <+: cs := by
  rw [Option.eq_none_iff_forall_ne_some]
  simp only [ne_eq, dropStart?_eq_some_iff]
  constructor
  · rintro h ⟨rest, rfl⟩
    exact h rest rfl
  · rintro h rest rfl
    exact h (List.prefix_append old rest)

/-! ## One occurrence -/

theorem replaceAll_self_append (x : Char) (start new cs : List Char) :
    replaceAll (x :: start) new (x :: start ++ cs) = new ++ replaceAll (x :: start) new cs := by
  have hstart : dropStart? (x :: start) (x :: (start ++ cs)) = some cs :=
    dropStart?_eq_some_iff.mpr rfl
  rw [List.cons_append, replaceAll, hstart]
  simp

theorem replaceAll_cons (h : ¬old <+: c :: cs) :
    replaceAll old new (c :: cs) = c :: replaceAll old new cs := by
  rw [replaceAll, dropStart?_eq_none_iff.mpr h]

/-- A text ends, starts with an occurrence, or starts with a character that starts none. -/
theorem replaceAll_induction (x : Char) (start : List Char) {motive : List Char → Prop}
    (nil : motive []) (occurrence : ∀ cs, motive cs → motive (x :: start ++ cs))
    (other : ∀ c cs, ¬x :: start <+: c :: cs → motive cs → motive (c :: cs)) (cs : List Char) :
    motive cs := by
  induction cs using replaceAll.induct (x :: start) with
  | case1 => exact nil
  | case2 c cs rest hstart _ ih =>
    rw [dropStart?_eq_some_iff.mp hstart]
    exact occurrence rest ih
  | case3 c cs rest hstart hlonger _ =>
    have hlength := congrArg List.length (dropStart?_eq_some_iff.mp hstart)
    simp only [List.length_cons, List.length_append] at hlength
    omega
  | case4 c cs hnone ih => exact other c cs (dropStart?_eq_none_iff.mp hnone) ih

theorem occurrences_cons (needle : List Char) (c : Char) (cs : List Char) :
    occurrences needle (c :: cs) =
      occurrences needle cs + if needle <+: c :: cs then 1 else 0 := by
  rw [occurrences, List.tails_cons, List.countP_cons, occurrences]
  simp only [List.isPrefixOf_iff_prefix]

theorem occurrences_nil (x : Char) (start : List Char) : occurrences (x :: start) [] = 0 := by
  simp [occurrences]

theorem not_prefix_cons (h : c ≠ x) : ¬x :: start <+: c :: cs := by
  rw [List.cons_prefix_cons]
  exact fun hprefix => h hprefix.1.symm

/-! ## Parts of a text -/

theorem replaceAll_append_of_not_mem (h : x ∉ front) :
    replaceAll (x :: start) new (front ++ cs) = front ++ replaceAll (x :: start) new cs := by
  induction front with
  | nil => rfl
  | cons c front ih =>
    rw [List.mem_cons, not_or] at h
    rw [List.cons_append, replaceAll_cons (not_prefix_cons (Ne.symm h.1)), ih h.2, List.cons_append]

theorem occurrences_append_of_not_mem (h : x ∉ front) :
    occurrences (x :: start) (front ++ cs) = occurrences (x :: start) cs := by
  induction front with
  | nil => rfl
  | cons c front ih =>
    rw [List.mem_cons, not_or] at h
    rw [List.cons_append, occurrences_cons, if_neg (not_prefix_cons (Ne.symm h.1)), ih h.2,
      Nat.add_zero]

theorem occurrences_le_append (needle front cs : List Char) :
    occurrences needle cs ≤ occurrences needle (front ++ cs) := by
  induction front with
  | nil => exact le_refl _
  | cons c front ih =>
    rw [List.cons_append, occurrences_cons]
    exact ih.trans (Nat.le_add_right _ _)

/-- Where a text in front makes no new occurrence, it stays as it is. -/
theorem replaceAll_append_of_occurrences_eq
    (h : occurrences old (front ++ cs) = occurrences old cs) :
    replaceAll old new (front ++ cs) = front ++ replaceAll old new cs := by
  induction front with
  | nil => rfl
  | cons c front ih =>
    have hle := occurrences_le_append old front cs
    rw [List.cons_append, occurrences_cons] at h
    split_ifs at h with hprefix
    · omega
    · rw [List.cons_append, replaceAll_cons hprefix, ih h, List.cons_append]

section Apart

variable (hstart : x ∉ start)

include hstart

theorem occurrences_self_append (cs : List Char) :
    occurrences (x :: start) (x :: start ++ cs) = occurrences (x :: start) cs + 1 := by
  have hprefix : x :: start <+: x :: (start ++ cs) := List.prefix_append (x :: start) cs
  rw [List.cons_append, occurrences_cons, if_pos hprefix, occurrences_append_of_not_mem hstart]

/-- Every occurrence is replaced. -/
theorem count_replaceAll (hnew : x ∉ new) (cs : List Char) :
    (replaceAll (x :: start) new cs).count x + occurrences (x :: start) cs = cs.count x := by
  have hcount {text : List Char} (h : x ∉ text) : text.count x = 0 := List.count_eq_zero.mpr h
  induction cs using replaceAll_induction x start with
  | nil => simp [replaceAll, occurrences_nil]
  | occurrence cs ih =>
    rw [replaceAll_self_append, occurrences_self_append hstart, List.count_append, hcount hnew,
      List.count_append, List.count_cons_self, hcount hstart, ← ih]
    omega
  | other c cs hother ih =>
    rw [replaceAll_cons hother, occurrences_cons, if_neg hother, List.count_cons, List.count_cons,
      ← ih]
    omega

end Apart

end ImportScout.Text
