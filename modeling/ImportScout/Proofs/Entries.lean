import Mathlib.Data.List.Sort

/-! # Entries and their keys

Looking a key up in a list of entries gives an entry of the list. Where the entries are in the order
of their keys, each of them is what its key looks up (`lookup_eq_some_iff_mem`).
-/

namespace ImportScout

variable {α β : Type} [BEq α] [LawfulBEq α]

theorem mem_of_lookup_eq_some {entries : List (α × β)} {key : α} {value : β}
    (h : entries.lookup key = some value) : (key, value) ∈ entries := by
  obtain ⟨before, after, rfl, -⟩ := List.lookup_eq_some_iff.mp h
  simp

theorem mem_keys_iff {entries : List (α × β)} {key : α} :
    key ∈ entries.map Prod.fst ↔ (entries.lookup key).isSome = true := by
  rw [List.lookup_isSome_iff, List.mem_map]
  refine exists_congr fun entry => and_congr_right fun _ => ?_
  rw [beq_iff_eq, eq_comm]

theorem lookup_filter_self (entries : List (α × β)) (key : α) :
    (entries.filter (·.1 != key)).lookup key = none := by
  rw [List.lookup_eq_none_iff]
  intro entry hentry
  have hne : entry.1 ≠ key := by simpa using (List.mem_filter.mp hentry).2
  simpa using hne.symm

/-- Once the entries of a key are gone, another key looks up what it did. -/
theorem lookup_filter_of_ne (entries : List (α × β)) {key other : α} (hne : other ≠ key) :
    (entries.filter (·.1 != key)).lookup other = entries.lookup other := by
  induction entries with
  | nil => rfl
  | cons first entries ih =>
    rw [List.filter_cons, List.lookup_cons]
    split_ifs with hfirst
    · rw [List.lookup_cons, ih]
    · have hkey : first.1 = key := by simpa using hfirst
      rw [ih, hkey, beq_false_of_ne hne]

section Sorted

variable [Preorder α] {entries : List (α × β)} (sorted : entries.Pairwise fun a b => a.1 < b.1)

include sorted

theorem lookup_eq_some_of_sorted {entry : α × β} (h : entry ∈ entries) :
    entries.lookup entry.1 = some entry.2 := by
  induction entries with
  | nil => exact absurd h List.not_mem_nil
  | cons first entries ih =>
    obtain ⟨hfirst, sorted⟩ := List.pairwise_cons.mp sorted
    rw [List.lookup_cons]
    rcases List.mem_cons.mp h with rfl | h
    · simp
    · have hne : entry.1 ≠ first.1 := fun heq => lt_irrefl _ (heq ▸ hfirst entry h)
      rw [beq_false_of_ne hne]
      exact ih sorted h

theorem lookup_eq_some_iff_mem {key : α} {value : β} :
    entries.lookup key = some value ↔ (key, value) ∈ entries :=
  ⟨mem_of_lookup_eq_some, lookup_eq_some_of_sorted sorted⟩

/-- What the keys look up tells all entries. -/
theorem eq_of_lookup_eq {entries' : List (α × β)}
    (sorted' : entries'.Pairwise fun a b => a.1 < b.1)
    (h : ∀ key, entries.lookup key = entries'.lookup key) : entries = entries' := by
  have : Std.Antisymm fun a b : α × β => a.1 < b.1 :=
    ⟨fun _ _ hlt hgt => absurd hgt (lt_asymm hlt)⟩
  have : Std.Irrefl fun a b : α × β => a.1 < b.1 := ⟨fun _ => lt_irrefl _⟩
  refine sorted.eq_of_mem_iff sorted' fun entry => ?_
  rw [← lookup_eq_some_iff_mem sorted, ← lookup_eq_some_iff_mem sorted', h]

end Sorted

end ImportScout
