import Mathlib.Data.List.Nodup
import ImportScout.Rank.Score
import ImportScout.Proofs.Rank.StableOrder
import ImportScout.Proofs.Rank.Tally

/-! # The ranking

What a ranking is, said by frequencies, imports of the files themselves and two stable orders.
`IsRanking` describes the suggested files without the tally, the shortlist and the sorts by which
they are found, and scoring gives the one list that fits (`isRanking_score`, `IsRanking.unique`).
The suggestions are distinct, the best come first, ties keep the order of first sight, and nothing
better is cut off.
-/

namespace ImportScout.Engine

/-! ## What a ranking is -/

/-- The files that enough snippets import, in the order in which they are first seen. -/
def contenders (e : Engine) (snippets : List Snippet) : List String :=
  (e.seen snippets).filter fun path => e.limits.minFrequency ≤ e.frequencyOf snippets path

/-- The score of a file, its own imports counted only if it is one of the files `short`. -/
def scoreOf (e : Engine) (snippets : List Snippet) (short : List String) (path : String) : Score :=
  ⟨path, e.frequencyOf snippets path,
    if path ∈ short then (hubScore e.workspace e.extensions path).value else 0⟩

/-- `scores` are the scores of all contenders, in the order of first sight. The own imports are
counted of those that come first by frequency. -/
def IsScoring (e : Engine) (snippets : List Snippet) (scores : List Score) : Prop :=
  ∃ byFrequency,
    StableDescending (e.frequencyOf snippets) (e.contenders snippets) byFrequency ∧
      scores = (e.contenders snippets).map
        (e.scoreOf snippets (byFrequency.take e.limits.shortlistSize))

/-- `scores` are the best of the contenders, ten for each snippet and one for each own import, from
the best to the worst, ties in the order of first sight. -/
def IsRanking (e : Engine) (snippets : List Snippet) (scores : List Score) : Prop :=
  ∃ all ordered, e.IsScoring snippets all ∧
    StableDescending (fun s : Score => s.frequency * 10 + s.hub) all ordered ∧
      scores = ordered.take e.limits.maxSuggestions

variable {e : Engine} {snippets : List Snippet}

theorem IsScoring.unique {scores scores' : List Score} (h : e.IsScoring snippets scores)
    (h' : e.IsScoring snippets scores') : scores = scores' := by
  obtain ⟨order, hs, rfl⟩ := h
  obtain ⟨order', hs', rfl⟩ := h'
  rw [hs.unique hs']

theorem IsRanking.unique {scores scores' : List Score} (h : e.IsRanking snippets scores)
    (h' : e.IsRanking snippets scores') : scores = scores' := by
  obtain ⟨all, ordered, hall, hs, rfl⟩ := h
  obtain ⟨all', ordered', hall', hs', rfl⟩ := h'
  rw [hall.unique hall'] at hs
  rw [hs.unique hs']

theorem nodup_contenders (e : Engine) (snippets : List Snippet) :
    (e.contenders snippets).Nodup :=
  (e.nodup_seen snippets).filter _

/-- Where one importing snippet is enough, all files that are seen are contenders. -/
theorem contenders_eq_seen (hmin : e.limits.minFrequency ≤ 1) :
    e.contenders snippets = e.seen snippets :=
  List.filter_eq_self.mpr fun _ hpath => decide_eq_true (hmin.trans (frequencyOf_pos hpath))

theorem IsScoring.map_path {scores : List Score} (h : e.IsScoring snippets scores) :
    scores.map Score.path = e.contenders snippets := by
  obtain ⟨order, -, rfl⟩ := h
  rw [List.map_map]
  exact List.map_id _

/-! ## The stages of scoring -/

/-- The files that enough of the snippets import, with their frequencies. -/
def surviving (e : Engine) (snippets : List Snippet) : List (String × ℕ) :=
  survivors e.limits (e.frequencies snippets).value

/-- The files of which scoring counts the own imports. -/
def shortlisted (e : Engine) (snippets : List Snippet) : List String :=
  shortlist e.limits (e.surviving snippets)

/-- The scores of all survivors, in the order of first sight. -/
def results (e : Engine) (snippets : List Snippet) : List Score :=
  scored (e.surviving snippets) (e.hubScores (e.shortlisted snippets)).value

/-- The scores of all survivors, from the best to the worst. -/
def standings (e : Engine) (snippets : List Snippet) : List Score :=
  ranked (e.results snippets)

/-- The suggestions are cut from the standings. -/
theorem score_value (e : Engine) (snippets : List Snippet) :
    (e.score snippets).value = (e.standings snippets).take e.limits.maxSuggestions :=
  rfl

theorem surviving_eq (e : Engine) (snippets : List Snippet) :
    e.surviving snippets =
      (e.contenders snippets).map fun path => (path, e.frequencyOf snippets path) := by
  rw [surviving, frequencies_value, survivors, List.filter_map]
  rfl

theorem length_surviving (e : Engine) (snippets : List Snippet) :
    (e.surviving snippets).length = (e.contenders snippets).length := by
  rw [surviving_eq, List.length_map]

/-- The shortlist is cut from the stable order by frequency. -/
theorem exists_byFrequency (e : Engine) (snippets : List Snippet) :
    ∃ byFrequency,
      StableDescending (e.frequencyOf snippets) (e.contenders snippets) byFrequency ∧
        e.shortlisted snippets = byFrequency.take e.limits.shortlistSize := by
  -- the entries are sorted as their paths are, each carrying its key along
  have order := stableDescending_mergeSort (e.frequencyOf snippets) (e.contenders snippets)
  have pairs : StableDescending Prod.snd
      ((e.contenders snippets).map fun path => (path, e.frequencyOf snippets path)) _ :=
    StableDescending.map order
  refine ⟨_, order, ?_⟩
  rw [shortlisted, surviving_eq, shortlist, ← pairs.eq_mergeSort, ← List.map_take, List.map_map]
  exact List.map_id _

theorem hubScores_value (e : Engine) (paths : List String) :
    (e.hubScores paths).value =
      paths.map fun path => (path, (hubScore e.workspace e.extensions path).value) := by
  induction paths with
  | nil => rfl
  | cons path paths ih =>
    rw [hubScores, Traced.value_bind, Traced.value_bind, ih]
    rfl

theorem lookup_map (f : String → ℕ) (paths : List String) (path : String) :
    ((paths.map fun q => (q, f q)).lookup path).getD 0 = if path ∈ paths then f path else 0 := by
  induction paths with
  | nil => rfl
  | cons q paths ih =>
    rw [List.map_cons, List.lookup_cons]
    by_cases h : path = q
    · subst h
      simp
    · rw [beq_false_of_ne h]
      simpa [h] using ih

theorem results_eq_map_surviving (e : Engine) (snippets : List Snippet) :
    e.results snippets = (e.surviving snippets).map fun entry =>
      ⟨entry.1, entry.2, if entry.1 ∈ e.shortlisted snippets then
        (hubScore e.workspace e.extensions entry.1).value else 0⟩ := by
  rw [results, hubScores_value, scored]
  exact List.map_congr_left fun entry _ =>
    congrArg (Score.mk entry.1 entry.2) (lookup_map _ _ entry.1)

theorem results_eq (e : Engine) (snippets : List Snippet) :
    e.results snippets =
      (e.contenders snippets).map (e.scoreOf snippets (e.shortlisted snippets)) := by
  rw [results_eq_map_surviving, surviving_eq, List.map_map]
  rfl

/-- Scoring scores all contenders. -/
theorem isScoring_results (e : Engine) (snippets : List Snippet) :
    e.IsScoring snippets (e.results snippets) := by
  obtain ⟨byFrequency, order, hshort⟩ := e.exists_byFrequency snippets
  exact ⟨byFrequency, order, hshort ▸ e.results_eq snippets⟩

theorem stableDescending_standings (e : Engine) (snippets : List Snippet) :
    StableDescending Score.composite (e.results snippets) (e.standings snippets) :=
  stableDescending_mergeSort Score.composite _

/-- Where the survivors stand by frequency already and their results by score, nothing is sorted. -/
theorem standings_of_pairwise {e : Engine} {snippets : List Snippet} {alive : List (String × ℕ)}
    {scores : List Score} (hsurviving : e.surviving snippets = alive)
    (hresults : (alive.map fun entry =>
      ⟨entry.1, entry.2, if entry.1 ∈ (alive.take e.limits.shortlistSize).map (·.1) then
        (hubScore e.workspace e.extensions entry.1).value else 0⟩) = scores)
    (halive : alive.Pairwise fun a b => decide (b.2 ≤ a.2) = true)
    (hscores : scores.Pairwise fun a b => decide (b.composite ≤ a.composite) = true) :
    e.shortlisted snippets = (alive.take e.limits.shortlistSize).map (·.1) ∧
      e.standings snippets = scores := by
  have hshort : e.shortlisted snippets = (alive.take e.limits.shortlistSize).map (·.1) := by
    rw [shortlisted, hsurviving, shortlist, List.mergeSort_of_pairwise halive]
  refine ⟨hshort, ?_⟩
  rw [standings, results_eq_map_surviving, hsurviving, hshort, hresults, ranked,
    List.mergeSort_of_pairwise hscores]

theorem length_standings (e : Engine) (snippets : List Snippet) :
    (e.standings snippets).length = (e.surviving snippets).length := by
  rw [(e.stableDescending_standings snippets).perm.length_eq, results_eq_map_surviving,
    List.length_map]

theorem isRanking_score (e : Engine) (snippets : List Snippet) :
    e.IsRanking snippets (e.score snippets).value :=
  ⟨_, _, e.isScoring_results snippets, e.stableDescending_standings snippets, rfl⟩

/-! ## What holds of every ranking -/

namespace IsRanking

variable {scores : List Score}

theorem nodup_paths (h : e.IsRanking snippets scores) : (scores.map Score.path).Nodup := by
  obtain ⟨all, ordered, hall, hs, rfl⟩ := h
  have hnodup : (ordered.map Score.path).Nodup := by
    rw [(hs.perm.map Score.path).nodup_iff, hall.map_path]
    exact e.nodup_contenders snippets
  rw [List.map_take]
  exact hnodup.sublist (List.take_sublist _ _)

theorem pairwise_composite (h : e.IsRanking snippets scores) :
    scores.Pairwise fun a b => b.composite ≤ a.composite := by
  obtain ⟨all, ordered, hall, hs, rfl⟩ := h
  exact hs.descending.sublist (List.take_sublist _ _)

/-- Of two suggestions with the same score, the first is the one that was seen first. -/
theorem pair_sublist_seen (h : e.IsRanking snippets scores) {a b : Score}
    (hab : [a, b].Sublist scores) (same : a.composite = b.composite) :
    [a.path, b.path].Sublist (e.seen snippets) := by
  obtain ⟨all, ordered, hall, hs, rfl⟩ := h
  have hpair := (hs.pair_sublist same (hab.trans (List.take_sublist _ _))).map Score.path
  rw [hall.map_path] at hpair
  exact hpair.trans List.filter_sublist

/-- A contender that is not suggested scores no more than one that is. -/
theorem composite_le_of_not_mem (h : e.IsRanking snippets scores) {all : List Score}
    (hall : e.IsScoring snippets all) {kept dropped : Score} (hk : kept ∈ scores)
    (hd : dropped ∈ all) (out : dropped ∉ scores) : dropped.composite ≤ kept.composite := by
  obtain ⟨all', ordered, hall', hs, rfl⟩ := h
  rw [hall'.unique hall] at hs
  exact hs.key_le_of_not_mem_take hk hd out

theorem mem_contenders (h : e.IsRanking snippets scores) {s : Score} (hs : s ∈ scores) :
    s.path ∈ e.contenders snippets := by
  obtain ⟨all, ordered, hall, hord, rfl⟩ := h
  rw [← hall.map_path]
  exact List.mem_map_of_mem (hord.mem_iff.mp (List.mem_of_mem_take hs))

/-- Where there is room for all contenders, all of them are suggested. -/
theorem perm_contenders (h : e.IsRanking snippets scores)
    (room : (e.contenders snippets).length ≤ e.limits.maxSuggestions) :
    (scores.map Score.path).Perm (e.contenders snippets) := by
  obtain ⟨all, ordered, hall, hs, rfl⟩ := h
  have hperm : (ordered.map Score.path).Perm (e.contenders snippets) := by
    rw [← hall.map_path]
    exact hs.perm.map Score.path
  rw [List.map_take, List.take_of_length_le (by rw [hperm.length_eq]; exact room)]
  exact hperm

end IsRanking

theorem rank_value (e : Engine) (snippets : List Snippet) :
    (e.rank snippets).value = (e.score snippets).value.map Score.path :=
  rfl

/-- Scoring gives the ranking and nothing else. Its files are distinct, the scores never increase,
files with equal scores keep the order of first sight, and no contender that is left out scores more
than one that is kept. -/
theorem score_eq_iff_isRanking (e : Engine) (snippets : List Snippet) :
    (∀ scores, (e.score snippets).value = scores ↔ e.IsRanking snippets scores) ∧
      ((e.score snippets).value.map Score.path).Nodup ∧
      ((e.score snippets).value.Pairwise fun a b => b.composite ≤ a.composite) ∧
      (∀ a b, [a, b].Sublist (e.score snippets).value → a.composite = b.composite →
        [a.path, b.path].Sublist (e.seen snippets)) ∧
      ∀ all, e.IsScoring snippets all → ∀ kept ∈ (e.score snippets).value, ∀ dropped ∈ all,
        dropped ∉ (e.score snippets).value → dropped.composite ≤ kept.composite := by
  have ranking := e.isRanking_score snippets
  refine ⟨fun scores => ⟨?_, ?_⟩, ranking.nodup_paths, ranking.pairwise_composite, ?_, ?_⟩
  · rintro rfl
    exact ranking
  · intro h
    exact ranking.unique h
  · intro a b hab same
    exact ranking.pair_sublist_seen hab same
  · intro all hall kept hk dropped hd out
    exact ranking.composite_le_of_not_mem hall hk hd out

end ImportScout.Engine
