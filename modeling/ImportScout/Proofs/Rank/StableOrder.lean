import Mathlib.Data.List.Nodup
import Mathlib.Data.List.Sort
import Mathlib.Order.Monotone.Basic

/-! # Stable orders

Ranking sorts twice, each time by a number and with ties left in order. `StableDescending` says
what such a sort must give back, without saying how it is found. `stableDescending_mergeSort`
shows that sorting by merging gives it, and `StableDescending.unique` that nothing else does, so a
statement about *the* stable order determines a list. It can therefore be carried over from a list
to what is left of it (`StableDescending.filter`), from a key to another one
(`StableDescending.comp`), and across a cut (`StableDescending.mem_take_of_key_lt`).
-/

namespace ImportScout

variable {α β : Type}

/-! ## Lists cut in two -/

/-- What is not kept is cut off. -/
theorem mem_drop_of_not_mem_take {l : List α} {n : ℕ} {a : α} (ha : a ∈ l)
    (out : a ∉ l.take n) : a ∈ l.drop n := by
  rw [← List.take_append_drop n l, List.mem_append] at ha
  exact ha.resolve_left out

/-- What a test keeps of the first `n` entries is among the first `n` that it keeps. -/
theorem mem_take_filter {l : List α} {n : ℕ} {p : α → Bool} {a : α} (ha : a ∈ l.take n)
    (hp : p a = true) : a ∈ (l.filter p).take n := by
  have hfront : ((l.take n).filter p).length ≤ n :=
    (List.length_filter_le p _).trans (List.length_take_le n l)
  have hsplit : l.filter p = (l.take n).filter p ++ (l.drop n).filter p := by
    rw [← List.filter_append, List.take_append_drop]
  rw [hsplit, List.take_append, List.take_of_length_le hfront]
  exact List.mem_append_left _ (List.mem_filter.mpr ⟨ha, hp⟩)

/-- Where nothing that passes a test follows something that does not, the test cuts the list in
two. -/
theorem filter_append_filter_not {p : α → Bool} {l : List α}
    (h : l.Pairwise fun a b => p b = true → p a = true) :
    l.filter p ++ l.filter (fun a => !p a) = l := by
  induction l with
  | nil => rfl
  | cons a l ih =>
    rw [List.pairwise_cons] at h
    by_cases hp : p a = true
    · rw [List.filter_cons_of_pos hp, List.filter_cons_of_neg (by simp [hp]), List.cons_append,
        ih h.2]
    · -- a failed test at the head fails all tests behind it
      have hfails : ∀ b ∈ l, p b = false := fun b hb =>
        Bool.eq_false_iff.mpr fun hb' => hp (h.1 b hb hb')
      rw [List.filter_eq_nil_iff.mpr, List.nil_append, List.filter_eq_self]
      · simpa [hp] using hfails
      · simpa [hp] using hfails

/-- Such a test can be made before the list is cut off or after. -/
theorem take_filter_of_front {p : α → Bool} {l : List α}
    (h : l.Pairwise fun a b => p b = true → p a = true) (n : ℕ) :
    (l.filter p).take n = (l.take n).filter p := by
  conv_rhs => rw [← filter_append_filter_not h, List.take_append, List.filter_append]
  have hpass : ((l.filter p).take n).filter p = (l.filter p).take n :=
    List.filter_eq_self.mpr fun a ha => (List.mem_filter.mp (List.mem_of_mem_take ha)).2
  have hfail : ((l.filter fun a => !p a).take (n - (l.filter p).length)).filter p = [] :=
    List.filter_eq_nil_iff.mpr fun a ha => by
      simpa using (List.mem_filter.mp (List.mem_of_mem_take ha)).2
  rw [hpass, hfail, List.append_nil]

section Nodup

variable [DecidableEq α] {front back : List α} (nodup : (front ++ back).Nodup)

include nodup

theorem filter_mem_front : ((front ++ back).filter fun a => a ∈ front) = front := by
  have hout : ∀ a ∈ back, a ∉ front := fun a hback hfront =>
    List.disjoint_of_nodup_append nodup hfront hback
  rw [List.filter_append, List.filter_eq_self.mpr fun a ha => decide_eq_true ha,
    List.filter_eq_nil_iff.mpr fun a ha => by simpa using hout a ha, List.append_nil]

theorem filter_not_mem_front :
    ((front ++ back).filter fun a => !decide (a ∈ front)) = back := by
  have hout : ∀ a ∈ back, a ∉ front := fun a hback hfront =>
    List.disjoint_of_nodup_append nodup hfront hback
  rw [List.filter_append, List.filter_eq_nil_iff.mpr fun a ha => by simpa using ha,
    List.filter_eq_self.mpr fun a ha => by simpa using hout a ha, List.nil_append]

end Nodup

/-- Entries that do not repeat stand in one order only. -/
theorem not_pair_sublist {l : List α} (nodup : l.Nodup) {a b : α} (hab : [a, b].Sublist l) :
    ¬[b, a].Sublist l := by
  obtain ⟨upToA, fromB, hl, ha, hb⟩ := List.cons_sublist_iff.mp hab
  intro hba
  obtain ⟨upToB, fromA, hl', hb', ha'⟩ := List.cons_sublist_iff.mp hba
  rw [List.singleton_sublist] at hb ha'
  -- the shorter of the two fronts is a part of the other
  rcases List.prefix_or_prefix_of_prefix ⟨fromB, hl.symm⟩ ⟨fromA, hl'.symm⟩ with hpre | hpre
  · exact List.disjoint_of_nodup_append (hl' ▸ nodup) (hpre.subset ha) ha'
  · exact List.disjoint_of_nodup_append (hl ▸ nodup) (hpre.subset hb') hb

/-! ## The order -/

/-- `after` lists the entries of `before` from the greatest key to the least, and entries with the
same key in the order that they have in `before`. -/
structure StableDescending (key : α → ℕ) (before after : List α) : Prop where
  descending : after.Pairwise fun a b => key b ≤ key a
  classes : ∀ n, (after.filter fun a => key a = n) = before.filter fun a => key a = n

/-! ## The order that merging finds -/

private theorem descending_trans (key : α → ℕ) (a b c : α) (hab : decide (key b ≤ key a) = true)
    (hbc : decide (key c ≤ key b) = true) : decide (key c ≤ key a) = true := by
  rw [decide_eq_true_eq] at hab hbc ⊢
  exact Nat.le_trans hbc hab

private theorem descending_total (key : α → ℕ) (a b : α) :
    (decide (key b ≤ key a) || decide (key a ≤ key b)) = true := by
  rw [Bool.or_eq_true, decide_eq_true_eq, decide_eq_true_eq]
  exact Nat.le_total _ _

/-- Sorting by merging gives the stable order. -/
theorem stableDescending_mergeSort (key : α → ℕ) (l : List α) :
    StableDescending key l (l.mergeSort fun a b => key b ≤ key a) where
  descending := by
    refine (List.pairwise_mergeSort (descending_trans key) (descending_total key) l).imp ?_
    intro a b h
    exact of_decide_eq_true h
  classes n := by
    -- entries of one class are sorted as they stand, so they survive as a sublist
    have sorted : (l.filter fun a => key a = n).Pairwise
        fun a b => decide (key b ≤ key a) = true := by
      refine List.pairwise_of_forall_mem_list ?_
      intro a ha b hb
      rw [List.mem_filter, decide_eq_true_eq] at ha hb
      exact decide_eq_true (Nat.le_of_eq (hb.2.trans ha.2.symm))
    have sub := List.sublist_mergeSort (descending_trans key) (descending_total key) sorted
      List.filter_sublist
    have sub' := sub.filter fun a => decide (key a = n)
    rw [List.filter_filter] at sub'
    simp only [Bool.and_self] at sub'
    have perm := (List.mergeSort_perm l fun a b => key b ≤ key a).filter fun a => key a = n
    exact (sub'.eq_of_length perm.length_eq.symm).symm

namespace StableDescending

variable {key : α → ℕ} {before after other : List α}

theorem mem_iff (h : StableDescending key before after) {a : α} : a ∈ after ↔ a ∈ before := by
  have cls := congrArg (a ∈ ·) (h.classes (key a))
  simpa using cls

/-! ## There is only one -/

/-- Two descending lists with the same classes are the same list. -/
theorem eq_of_classes : ∀ {l m : List α}, (l.Pairwise fun a b => key b ≤ key a) →
    (m.Pairwise fun a b => key b ≤ key a) →
    (∀ n, (l.filter fun a => key a = n) = m.filter fun a => key a = n) → l = m
  | [], m, _, _, cls => by
    cases m with
    | nil => rfl
    | cons b m =>
      have := cls (key b)
      simp at this
  | a :: l, [], _, _, cls => by
    have := cls (key a)
    simp at this
  | a :: l, b :: m, hl, hm, cls => by
    rw [List.pairwise_cons] at hl hm
    have ha : a ∈ b :: m := by
      have := congrArg (a ∈ ·) (cls (key a))
      simpa using this
    have hb : b ∈ a :: l := by
      have := congrArg (b ∈ ·) (cls (key b))
      simpa using this
    -- both heads carry the greatest key, and each heads the class of that key
    have same : key a = key b := by
      apply Nat.le_antisymm
      · rcases List.mem_cons.mp ha with rfl | ha
        · exact Nat.le_refl _
        · exact hm.1 a ha
      · rcases List.mem_cons.mp hb with rfl | hb
        · exact Nat.le_refl _
        · exact hl.1 b hb
    have heads := cls (key a)
    rw [List.filter_cons_of_pos (by simp), List.filter_cons_of_pos (by simp [same])] at heads
    obtain ⟨rfl, -⟩ := List.cons.inj heads
    congr 1
    refine eq_of_classes hl.2 hm.2 fun n => ?_
    have tails := cls n
    by_cases hn : key a = n
    · rw [List.filter_cons_of_pos (by simpa using hn),
        List.filter_cons_of_pos (by simpa using hn)] at tails
      exact (List.cons.inj tails).2
    · rw [List.filter_cons_of_neg (by simpa using hn),
        List.filter_cons_of_neg (by simpa using hn)] at tails
      exact tails

theorem unique (h : StableDescending key before after) (h' : StableDescending key before other) :
    after = other :=
  eq_of_classes h.descending h'.descending fun n => (h.classes n).trans (h'.classes n).symm

theorem eq_mergeSort (h : StableDescending key before after) :
    after = before.mergeSort fun a b => key b ≤ key a :=
  h.unique (stableDescending_mergeSort key before)

theorem perm (h : StableDescending key before after) : after.Perm before := by
  rw [h.eq_mergeSort]
  exact List.mergeSort_perm _ _

/-- Stable orders of the same entries show the same keys, in whatever order the entries were. -/
theorem map_key_eq {before' after' : List α} (h : StableDescending key before after)
    (h' : StableDescending key before' after') (hperm : before.Perm before') :
    after.map key = after'.map key := by
  have hsame : (after.map key).Perm (after'.map key) :=
    ((h.perm.trans hperm).trans h'.perm.symm).map key
  refine hsame.eq_of_pairwise' (r := (· ≥ ·)) ?_ ?_
  · exact List.pairwise_map.mpr h.descending
  · exact List.pairwise_map.mpr h'.descending

/-! ## What the order says of its entries -/

/-- Renaming the entries keeps a stable order. -/
theorem map {f : β → α} {before after : List β}
    (h : StableDescending (fun b => key (f b)) before after) :
    StableDescending key (before.map f) (after.map f) where
  descending := by
    rw [List.pairwise_map]
    exact h.descending
  classes n := by
    rw [List.filter_map, List.filter_map]
    exact congrArg (List.map f) (h.classes n)

/-- Leaving entries out keeps a stable order. -/
theorem filter (h : StableDescending key before after) (p : α → Bool) :
    StableDescending key (before.filter p) (after.filter p) where
  descending := h.descending.filter p
  classes n := by
    rw [List.filter_comm, h.classes, List.filter_comm]

/-- A stable order by a key is one by every key that grows with it. -/
theorem comp (h : StableDescending key before after) {g : ℕ → ℕ} (hg : StrictMono g) :
    StableDescending (fun a => g (key a)) before after where
  descending := h.descending.imp fun hle => hg.monotone hle
  classes n := by
    by_cases hn : ∃ m, g m = n
    · obtain ⟨m, rfl⟩ := hn
      simpa only [hg.injective.eq_iff] using h.classes m
    · rw [List.filter_eq_nil_iff.mpr fun a _ => by simpa using fun heq => hn ⟨key a, heq⟩,
        List.filter_eq_nil_iff.mpr fun a _ => by simpa using fun heq => hn ⟨key a, heq⟩]

/-- Of two entries with the same key, the one that comes first did so before. -/
theorem pair_sublist (h : StableDescending key before after) {a b : α} (same : key a = key b)
    (hab : [a, b].Sublist after) : [a, b].Sublist before := by
  have cls := hab.filter fun c => decide (key c = key b)
  rw [h.classes (key b), List.filter_cons_of_pos (by simpa using same),
    List.filter_cons_of_pos (by simp), List.filter_nil] at cls
  exact cls.trans List.filter_sublist

/-- What is cut off at the end of a stable order has no greater key than what is kept. -/
theorem key_le_of_not_mem_take (h : StableDescending key before after) {n : ℕ} {kept dropped : α}
    (hk : kept ∈ after.take n) (hd : dropped ∈ before) (out : dropped ∉ after.take n) :
    key dropped ≤ key kept := by
  have hdrop : dropped ∈ after.drop n := mem_drop_of_not_mem_take (h.mem_iff.mpr hd) out
  have split : (after.take n ++ after.drop n).Pairwise fun a b => key b ≤ key a := by
    rw [List.take_append_drop]
    exact h.descending
  exact (List.pairwise_append.mp split).2.2 kept hk dropped hdrop

/-- An entry with a greater key than the first one that is cut off is kept. -/
theorem mem_take_of_key_lt (h : StableDescending key before after) {n : ℕ} {a : α}
    (ha : a ∈ before) (hcut : ∀ cut, after[n]? = some cut → key cut < key a) :
    a ∈ after.take n := by
  by_contra out
  have hdrop : a ∈ after.drop n := mem_drop_of_not_mem_take (h.mem_iff.mpr ha) out
  obtain ⟨cut, below, hcons⟩ := List.exists_cons_of_ne_nil (List.ne_nil_of_mem hdrop)
  have hkey : key cut < key a := by
    refine hcut cut ?_
    rw [← List.head?_drop, hcons, List.head?_cons]
  have hdesc : (after.drop n).Pairwise fun a b => key b ≤ key a :=
    h.descending.sublist (List.drop_sublist n after)
  rw [hcons, List.pairwise_cons] at hdesc
  rw [hcons, List.mem_cons] at hdrop
  rcases hdrop with rfl | hbelow
  · exact Nat.lt_irrefl _ hkey
  · exact Nat.not_le.mpr hkey (hdesc.1 a hbelow)

end StableDescending

end ImportScout
