import Mathlib.Data.List.Nodup
import Mathlib.Data.List.Count
import Mathlib.Data.List.Induction
import ImportScout.Rank.Frequency

/-! # The tally

What ranking counts, said without the tally that it keeps. `Engine.seen` lists the files that the
snippets import and that are not in the list already, in the order in which they are first seen,
and `Engine.frequencyOf` says how many snippets import a file. `frequencies_value` shows that the
tally holds just these numbers in just this order: a snippet counts once for a file however often
it imports it, and no file is lost or listed twice.
-/

namespace ImportScout

/-! ## Lists without repetitions -/

/-- A further entry comes last if it is new, and changes nothing if it is not. -/
theorem eraseDups_concat {α : Type} [DecidableEq α] (l : List α) (a : α) :
    (l ++ [a]).eraseDups = if a ∈ l then l.eraseDups else l.eraseDups ++ [a] := by
  rw [List.eraseDups_append, List.removeAll]
  by_cases h : a ∈ l
  · simp [h]
  · simp [h, List.eraseDups_cons]

theorem nodup_eraseDups {α : Type} [DecidableEq α] (l : List α) : l.eraseDups.Nodup := by
  induction l using List.reverseRecOn with
  | nil => exact List.nodup_nil
  | append_singleton l a ih =>
    rw [eraseDups_concat]
    split_ifs with h
    · exact ih
    · rw [← List.concat_eq_append]
      exact ih.concat (mt List.mem_eraseDups.mp h)

/-- Leaving entries out and leaving repetitions out can be done in any order. -/
theorem eraseDups_filter {α : Type} [DecidableEq α] (p : α → Bool) (l : List α) :
    (l.filter p).eraseDups = l.eraseDups.filter p := by
  induction l using List.reverseRecOn with
  | nil => rfl
  | append_singleton l a ih =>
    -- the last entry matters only if it is kept and was not there before
    rw [List.filter_append, eraseDups_concat]
    cases hp : p a with
    | true => by_cases hmem : a ∈ l <;> simp [hp, hmem, eraseDups_concat, ih]
    | false => by_cases hmem : a ∈ l <;> simp [hp, hmem, ih]

/-- Lists without repetitions contain an entry together as often as there are lists that do. -/
theorem count_flatMap {α : Type} (files : α → List String) (nodup : ∀ a, (files a).Nodup)
    (path : String) (l : List α) :
    (l.flatMap files).count path = l.countP fun a => path ∈ files a := by
  induction l with
  | nil => rfl
  | cons a l ih =>
    rw [List.flatMap_cons, List.count_append, ih, List.countP_cons, Nat.add_comm]
    congr 1
    by_cases h : path ∈ files a
    · rw [List.count_eq_one_of_mem (nodup a) h, if_pos (decide_eq_true h)]
    · rw [List.count_eq_zero_of_not_mem h, if_neg (by simpa using h)]

namespace Engine

/-! ## The files of one snippet -/

/-- Adding paths one by one, each only if it is new, leaves the first occurrence of each. -/
theorem foldl_addNew (paths : List String) : paths.foldl addNew [] = paths.eraseDups := by
  induction paths using List.reverseRecOn with
  | nil => rfl
  | append_singleton paths path ih =>
    rw [List.foldl_append, List.foldl_cons, List.foldl_nil, ih, eraseDups_concat, addNew]
    by_cases h : path ∈ paths <;> simp [h]

theorem resolveAll_value (e : Engine) (source : String) (base : ℕ) (imps : List Import)
    (found : List String) :
    (e.resolveAll source base imps found).value =
      (imps.filterMap fun imp =>
        (e.chain.resolve e.workspace ⟨imp.specifier, base + imp.offset, source⟩).value).foldl
          addNew found := by
  induction imps generalizing found with
  | nil => rfl
  | cons imp imps ih =>
    rw [resolveAll, Traced.value_bind, List.filterMap_cons]
    cases (e.chain.resolve e.workspace ⟨imp.specifier, base + imp.offset, source⟩).value with
    | none => exact ih found
    | some path => exact ih (addNew found path)

/-- The project files of a piece of code: what its imports resolve to, the first of each. -/
theorem suggestionsFor_value (e : Engine) (code source : String) (base : ℕ) :
    (e.suggestionsFor code source base).value =
      ((Import.extractLocal code).filterMap fun imp =>
        (e.chain.resolve e.workspace
          ⟨imp.specifier, base + imp.offset, source⟩).value).eraseDups := by
  rw [suggestionsFor, resolveAll_value, foldl_addNew]

theorem importsOf_value (e : Engine) (s : Snippet) :
    (e.importsOf s).value =
      (e.suggestionsFor s.text (e.relative s.fileName)
        (e.offsetOf s (e.relative s.fileName)).value).value :=
  rfl

/-- A snippet names each of its files once. -/
theorem nodup_importsOf (e : Engine) (s : Snippet) : (e.importsOf s).value.Nodup := by
  rw [importsOf_value, suggestionsFor_value]
  exact nodup_eraseDups _

/-! ## Counting -/

section Tick

variable {paths : List String} {path : String}

theorem tick_map_of_mem (f : String → ℕ) (nodup : paths.Nodup) (h : path ∈ paths) :
    tick path (paths.map fun q => (q, f q)) =
      paths.map fun q => (q, if q = path then f q + 1 else f q) := by
  induction paths with
  | nil => exact absurd h List.not_mem_nil
  | cons q paths ih =>
    rw [List.nodup_cons] at nodup
    rw [List.map_cons, tick, List.map_cons]
    by_cases hq : q = path
    · subst hq
      rw [if_pos rfl, if_pos rfl]
      congr 1
      refine List.map_congr_left fun r hr => ?_
      rw [if_neg fun hrq : r = q => nodup.1 (hrq ▸ hr)]
    · rw [if_neg hq, if_neg hq, ih nodup.2 (List.mem_of_ne_of_mem (Ne.symm hq) h)]

theorem tick_map_of_not_mem (f : String → ℕ) (h : path ∉ paths) :
    tick path (paths.map fun q => (q, f q)) = (paths.map fun q => (q, f q)) ++ [(path, 1)] := by
  induction paths with
  | nil => rfl
  | cons q paths ih =>
    rw [List.mem_cons, not_or] at h
    rw [List.map_cons, tick, if_neg (Ne.symm h.1), ih h.2, List.cons_append]

end Tick

/-- Counting path by path gives each path once, in the order of first sight, with the number of its
occurrences. -/
theorem foldl_tick (paths : List String) :
    paths.foldl (fun tally path => tick path tally) [] =
      paths.eraseDups.map fun q => (q, paths.count q) := by
  induction paths using List.reverseRecOn with
  | nil => rfl
  | append_singleton paths path ih =>
    rw [List.foldl_append, List.foldl_cons, List.foldl_nil, ih, eraseDups_concat]
    by_cases h : path ∈ paths
    · rw [if_pos h, tick_map_of_mem _ (nodup_eraseDups _) (List.mem_eraseDups.mpr h)]
      refine List.map_congr_left fun q _ => ?_
      rw [List.count_append, List.count_singleton]
      by_cases hq : q = path
      · simp [hq]
      · simp [hq, Ne.symm hq]
    · rw [if_neg h, tick_map_of_not_mem _ (mt List.mem_eraseDups.mp h), List.map_append]
      congr 1
      · refine List.map_congr_left fun q hq => ?_
        have hne : path ≠ q := fun heq => h (heq ▸ List.mem_eraseDups.mp hq)
        rw [List.count_append, List.count_singleton, if_neg (by simpa using hne), Nat.add_zero]
      · simp [List.count_eq_zero_of_not_mem h]

theorem tallyFrom_value (e : Engine) (known : List String) (snippets : List Snippet)
    (tally : List (String × ℕ)) :
    (e.tallyFrom known snippets tally).value =
      (snippets.flatMap fun s => (e.importsOf s).value.filter fun p => !known.contains p).foldl
        (fun tally path => tick path tally) tally := by
  induction snippets generalizing tally with
  | nil => rfl
  | cons s snippets ih =>
    rw [tallyFrom, Traced.value_bind, ih, List.flatMap_cons, List.foldl_append]

/-! ## The tally as a whole -/

/-- How many of the snippets that count import `path`. -/
def frequencyOf (e : Engine) (snippets : List Snippet) (path : String) : ℕ :=
  (snippets.filter counts).countP fun s => path ∈ (e.importsOf s).value

/-- The files that the snippets import and that are not in the list already, in the order in which
they are first seen. -/
def seen (e : Engine) (snippets : List Snippet) : List String :=
  (((snippets.filter counts).flatMap fun s => (e.importsOf s).value).filter
    fun path => path ∉ e.present snippets).eraseDups

theorem nodup_seen (e : Engine) (snippets : List Snippet) : (e.seen snippets).Nodup :=
  nodup_eraseDups _

theorem mem_seen_iff {e : Engine} {snippets : List Snippet} {path : String} :
    path ∈ e.seen snippets ↔
      (∃ s ∈ snippets, counts s = true ∧ path ∈ (e.importsOf s).value) ∧
        path ∉ e.present snippets := by
  simp only [seen, List.mem_eraseDups, List.mem_filter, List.mem_flatMap, decide_eq_true_eq,
    and_assoc]

/-- What is seen is imported by some snippet. -/
theorem frequencyOf_pos {e : Engine} {snippets : List Snippet} {path : String}
    (h : path ∈ e.seen snippets) : 0 < e.frequencyOf snippets path := by
  obtain ⟨⟨s, hs, hcounts, hpath⟩, -⟩ := mem_seen_iff.mp h
  exact List.countP_pos_iff.mpr ⟨s, List.mem_filter.mpr ⟨hs, hcounts⟩, decide_eq_true hpath⟩

/-- Snippets that the user did not add are passed over. -/
theorem filter_counts_eq_nil {snippets : List Snippet}
    (h : ∀ s ∈ snippets, s.isPrimary = false) : snippets.filter counts = [] :=
  List.filter_eq_nil_iff.mpr fun s hs => by simp [counts, h s hs]

/-! ## Limits decide nothing -/

theorem suggestionsFor_limits (e : Engine) (l : Limits) (code source : String) (base : ℕ) :
    (Engine.suggestionsFor { e with limits := l } code source base).value =
      (e.suggestionsFor code source base).value := by
  rw [suggestionsFor_value, suggestionsFor_value]

theorem importsOf_limits (e : Engine) (l : Limits) (s : Snippet) :
    (Engine.importsOf { e with limits := l } s).value = (e.importsOf s).value := by
  rw [importsOf_value, importsOf_value, suggestionsFor_limits]
  rfl

theorem frequencyOf_limits (e : Engine) (l : Limits) (snippets : List Snippet) :
    Engine.frequencyOf { e with limits := l } snippets = e.frequencyOf snippets := by
  funext path
  simp only [frequencyOf, importsOf_limits]

theorem seen_limits (e : Engine) (l : Limits) (snippets : List Snippet) :
    Engine.seen { e with limits := l } snippets = e.seen snippets := by
  simp only [seen, importsOf_limits]
  rfl

/-! ## What the tally holds -/

/-- The tally holds the files that are seen, in that order, each with its frequency. -/
theorem frequencies_value (e : Engine) (snippets : List Snippet) :
    (e.frequencies snippets).value =
      (e.seen snippets).map fun path => (path, e.frequencyOf snippets path) := by
  have fresh : ((snippets.filter counts).flatMap fun s =>
      (e.importsOf s).value.filter fun p => !(e.present snippets).contains p) =
        ((snippets.filter counts).flatMap fun s => (e.importsOf s).value).filter
          fun path => path ∉ e.present snippets := by
    rw [List.filter_flatMap]
    simp
  rw [frequencies, tallyFrom_value, foldl_tick, fresh]
  refine List.map_congr_left fun path hpath => ?_
  have new : path ∉ e.present snippets := (mem_seen_iff.mp hpath).2
  rw [List.count_filter (by simpa using new), count_flatMap _ e.nodup_importsOf, frequencyOf]

end Engine

end ImportScout
