import ImportScout.Proofs.Rank.Ranking
import ImportScout.Workspace.Store

/-! # The shortlist in the standings

The shortlist is cut from one stable order, by frequency, and the suggestions from another, by
score. The two orders agree on the cut: a file of the shortlist stands before every other survivor,
even where both have the same score (`pairwise_standings`). So the standings are the shortlist by
score, followed by the other survivors by frequency (`score_shortlisted_first`), and as long as no
more files are suggested than the shortlist has room for, the own imports of every suggestion were
counted.
-/

namespace ImportScout.Engine

variable {e : Engine} {snippets : List Snippet} {short : List String} {path other : String}

/-! ## Scores on and off the shortlist -/

theorem scoreOf_of_mem (h : path ∈ short) :
    e.scoreOf snippets short path =
      ⟨path, e.frequencyOf snippets path, (hubScore e.workspace e.extensions path).value⟩ := by
  rw [scoreOf, if_pos h]

theorem scoreOf_of_not_mem (h : path ∉ short) :
    e.scoreOf snippets short path = ⟨path, e.frequencyOf snippets path, 0⟩ := by
  rw [scoreOf, if_neg h]

theorem le_composite_scoreOf (e : Engine) (snippets : List Snippet) (short : List String)
    (path : String) :
    e.frequencyOf snippets path * frequencyWeight ≤ (e.scoreOf snippets short path).composite :=
  Nat.le_add_right _ _

theorem composite_scoreOf_of_not_mem (h : path ∉ short) :
    (e.scoreOf snippets short path).composite = e.frequencyOf snippets path * frequencyWeight := by
  rw [scoreOf_of_not_mem h]
  rfl

theorem mem_results_iff {s : Score} :
    s ∈ e.results snippets ↔
      ∃ path ∈ e.contenders snippets, e.scoreOf snippets (e.shortlisted snippets) path = s := by
  rw [results_eq, List.mem_map]

/-- A file off the shortlist is no more frequent than one on it, and if it is as frequent, it was
seen later. -/
theorem frequencyOf_le_of_shortlisted (hon : path ∈ e.shortlisted snippets)
    (hother : other ∈ e.contenders snippets) (hoff : other ∉ e.shortlisted snippets) :
    e.frequencyOf snippets other ≤ e.frequencyOf snippets path ∧
      (e.frequencyOf snippets path = e.frequencyOf snippets other →
        [path, other].Sublist (e.contenders snippets)) := by
  obtain ⟨byFrequency, order, hshort⟩ := e.exists_byFrequency snippets
  rw [hshort] at hon hoff
  refine ⟨order.key_le_of_not_mem_take hon hother hoff, fun same => ?_⟩
  have hbelow : other ∈ byFrequency.drop e.limits.shortlistSize :=
    mem_drop_of_not_mem_take (order.mem_iff.mpr hother) hoff
  refine order.pair_sublist same ?_
  rw [← List.take_append_drop e.limits.shortlistSize byFrequency]
  exact (List.singleton_sublist.mpr hon).append (List.singleton_sublist.mpr hbelow)

/-- A file off the shortlist scores no more than one on it, and if it scores as much, it was seen
later. -/
theorem composite_le_of_shortlisted (hon : path ∈ e.shortlisted snippets)
    (hother : other ∈ e.contenders snippets) (hoff : other ∉ e.shortlisted snippets) :
    (e.scoreOf snippets (e.shortlisted snippets) other).composite ≤
        (e.scoreOf snippets (e.shortlisted snippets) path).composite ∧
      ((e.scoreOf snippets (e.shortlisted snippets) other).composite =
          (e.scoreOf snippets (e.shortlisted snippets) path).composite →
        [path, other].Sublist (e.contenders snippets)) := by
  obtain ⟨hle, hseen⟩ := frequencyOf_le_of_shortlisted hon hother hoff
  have hscore := e.le_composite_scoreOf snippets (e.shortlisted snippets) path
  rw [composite_scoreOf_of_not_mem hoff]
  refine ⟨(Nat.mul_le_mul_right frequencyWeight hle).trans hscore, fun same => hseen ?_⟩
  rw [← same] at hscore
  exact Nat.le_antisymm (Nat.le_of_mul_le_mul_right hscore (by decide)) hle

/-! ## The shortlist comes first -/

/-- Nothing of the shortlist stands behind a file that is not on it. -/
theorem pairwise_standings (e : Engine) (snippets : List Snippet) :
    (e.standings snippets).Pairwise fun a b =>
      b.path ∈ e.shortlisted snippets → a.path ∈ e.shortlisted snippets := by
  have order := e.stableDescending_standings snippets
  rw [List.pairwise_iff_forall_sublist]
  intro a b hab hon
  by_contra hoff
  have ha : a ∈ e.results snippets := order.mem_iff.mp (hab.subset List.mem_cons_self)
  have hb : b ∈ e.results snippets :=
    order.mem_iff.mp (hab.subset (List.mem_cons_of_mem a List.mem_cons_self))
  obtain ⟨off, hother, rfl⟩ := mem_results_iff.mp ha
  obtain ⟨on, -, rfl⟩ := mem_results_iff.mp hb
  obtain ⟨hle, hseen⟩ := composite_le_of_shortlisted hon hother hoff
  -- standing like this the two score the same, so each of them was seen before the other
  have same := Nat.le_antisymm hle (List.pairwise_iff_forall_sublist.mp order.descending hab)
  have hpaths := (order.pair_sublist same hab).map Score.path
  rw [(e.isScoring_results snippets).map_path] at hpaths
  exact not_pair_sublist (e.nodup_contenders snippets) (hseen same) hpaths

/-! ## The standings cut in two -/

theorem filter_results (e : Engine) (snippets : List Snippet) (p : String → Bool) :
    ((e.results snippets).filter fun s => p s.path) =
      ((e.contenders snippets).filter p).map
        (e.scoreOf snippets (e.shortlisted snippets)) := by
  rw [results_eq, List.filter_map]
  rfl

/-- The results on the shortlist count the own imports. -/
theorem filter_shortlisted_results (e : Engine) (snippets : List Snippet) :
    ((e.results snippets).filter fun s => s.path ∈ e.shortlisted snippets) =
      ((e.contenders snippets).filter fun path => path ∈ e.shortlisted snippets).map fun path =>
        ⟨path, e.frequencyOf snippets path, (hubScore e.workspace e.extensions path).value⟩ := by
  rw [e.filter_results snippets fun path => path ∈ e.shortlisted snippets]
  refine List.map_congr_left fun path hpath => scoreOf_of_mem ?_
  exact of_decide_eq_true (List.mem_filter.mp hpath).2

/-- The results off the shortlist count frequencies only. -/
theorem filter_not_shortlisted_results (e : Engine) (snippets : List Snippet) :
    ((e.results snippets).filter fun s => !decide (s.path ∈ e.shortlisted snippets)) =
      ((e.contenders snippets).filter fun path => !decide (path ∈ e.shortlisted snippets)).map
        fun path => ⟨path, e.frequencyOf snippets path, 0⟩ := by
  rw [e.filter_results snippets fun path => !decide (path ∈ e.shortlisted snippets)]
  refine List.map_congr_left fun path hpath => scoreOf_of_not_mem ?_
  simpa using (List.mem_filter.mp hpath).2

section ByFrequency

variable {byFrequency : List String}
  (order : StableDescending (e.frequencyOf snippets) (e.contenders snippets) byFrequency)
  (hshort : e.shortlisted snippets = byFrequency.take e.limits.shortlistSize)

include order hshort

/-- Membership in the shortlist cuts the order by frequency where the shortlist ends. -/
theorem filter_byFrequency :
    (byFrequency.filter fun path => path ∈ e.shortlisted snippets) =
        byFrequency.take e.limits.shortlistSize ∧
      (byFrequency.filter fun path => !decide (path ∈ e.shortlisted snippets)) =
        byFrequency.drop e.limits.shortlistSize := by
  have hnodup := order.perm.nodup_iff.mpr (e.nodup_contenders snippets)
  rw [← List.take_append_drop e.limits.shortlistSize byFrequency] at hnodup
  have hfront := filter_mem_front hnodup
  have hback := filter_not_mem_front hnodup
  rw [List.take_append_drop, ← hshort] at hfront hback
  exact ⟨hfront.trans hshort, hback⟩

/-- The standings off the shortlist are by frequency. -/
theorem filter_not_shortlisted_standings :
    ((e.standings snippets).filter fun s => !decide (s.path ∈ e.shortlisted snippets)) =
      (byFrequency.drop e.limits.shortlistSize).map fun path =>
        ⟨path, e.frequencyOf snippets path, 0⟩ := by
  -- without own imports a score grows with the frequency
  have hgrow : StrictMono fun n : ℕ => n * frequencyWeight := fun m n hlt =>
    Nat.mul_lt_mul_of_pos_right hlt (by decide)
  have hrest := (order.filter fun path => !decide (path ∈ e.shortlisted snippets)).comp hgrow
  have hstandings := (e.stableDescending_standings snippets).filter
    fun s => !decide (s.path ∈ e.shortlisted snippets)
  rw [(filter_byFrequency order hshort).2] at hrest
  rw [filter_not_shortlisted_results] at hstandings
  exact hstandings.unique (StableDescending.map hrest)

/-- On the standings are all files of the shortlist. -/
theorem length_filter_shortlisted_standings :
    ((e.standings snippets).filter fun s => s.path ∈ e.shortlisted snippets).length =
      min e.limits.shortlistSize byFrequency.length := by
  have hperm := (e.stableDescending_standings snippets).perm.filter
    fun s => s.path ∈ e.shortlisted snippets
  have hpaths := order.perm.filter fun path => path ∈ e.shortlisted snippets
  rw [hperm.length_eq, filter_shortlisted_results, List.length_map, ← hpaths.length_eq,
    (filter_byFrequency order hshort).1, List.length_take]

end ByFrequency

/-- The files of the shortlist stand first. -/
theorem filter_append_standings (e : Engine) (snippets : List Snippet) :
    ((e.standings snippets).filter fun s => s.path ∈ e.shortlisted snippets) ++
        ((e.standings snippets).filter fun s => !decide (s.path ∈ e.shortlisted snippets)) =
      e.standings snippets := by
  refine filter_append_filter_not ((e.pairwise_standings snippets).imp fun himp hon => ?_)
  exact decide_eq_true (himp (of_decide_eq_true hon))

/-! ## Suggestions -/

/-- The engine that suggests at most `n` files. -/
def suggesting (e : Engine) (n : ℕ) : Engine :=
  { e with limits := { e.limits with maxSuggestions := n } }

theorem standings_suggesting (e : Engine) (n : ℕ) (snippets : List Snippet) :
    (e.suggesting n).standings snippets = e.standings snippets := by
  have hcontenders : (e.suggesting n).contenders snippets = e.contenders snippets := by
    simp only [contenders, suggesting, seen_limits, frequencyOf_limits]
  have hfrequency : (e.suggesting n).frequencyOf snippets = e.frequencyOf snippets :=
    e.frequencyOf_limits _ snippets
  have hshort : (e.suggesting n).shortlisted snippets = e.shortlisted snippets := by
    rw [shortlisted, shortlisted, surviving_eq, surviving_eq, hcontenders, hfrequency]
    rfl
  have hresults : (e.suggesting n).results snippets = e.results snippets := by
    rw [results_eq, results_eq, hcontenders, hshort]
    refine List.map_congr_left fun path _ => ?_
    rw [scoreOf, scoreOf, hfrequency]
    rfl
  rw [standings, standings, hresults]

theorem mem_results_of_mem_score {s : Score} (hs : s ∈ (e.score snippets).value) :
    s ∈ e.results snippets :=
  (e.stableDescending_standings snippets).mem_iff.mp (List.mem_of_mem_take hs)

/-- As long as there is no more room for suggestions than on the shortlist, all of them are on
it. -/
theorem shortlisted_of_mem_score {s : Score} (hs : s ∈ (e.score snippets).value)
    (room : e.limits.maxSuggestions ≤ e.limits.shortlistSize) :
    s.path ∈ e.shortlisted snippets := by
  obtain ⟨byFrequency, order, hshort⟩ := e.exists_byFrequency snippets
  have hrest := filter_not_shortlisted_standings order hshort
  rw [score_value, ← filter_append_standings] at hs
  rcases Nat.le_total e.limits.shortlistSize byFrequency.length with hfull | hall
  · -- the shortlist is full, and the suggestions are cut off before it ends
    have hlength := length_filter_shortlisted_standings order hshort
    rw [Nat.min_eq_left hfull] at hlength
    rw [List.take_append_of_le_length (by rw [hlength]; exact room)] at hs
    exact of_decide_eq_true (List.mem_filter.mp (List.mem_of_mem_take hs)).2
  · -- everything is on the shortlist
    rw [hrest, List.drop_of_length_le hall, List.map_nil, List.append_nil] at hs
    exact of_decide_eq_true (List.mem_filter.mp (List.mem_of_mem_take hs)).2

/-- Whatever number of files is suggested, they are cut from the standings, in which every file of
the shortlist stands before every other survivor. So no file off the shortlist is suggested as long
as there is no more room than on the shortlist, and in general the suggestions are the shortlist by
score, followed by the other survivors by frequency, as far as there is room. Ties are in the order
of first sight throughout. -/
theorem score_shortlisted_first (e : Engine) (snippets : List Snippet) :
    (∀ n, ((e.suggesting n).score snippets).value = (e.standings snippets).take n) ∧
      (∀ on ∈ e.standings snippets, ∀ off ∈ e.standings snippets,
        on.path ∈ e.shortlisted snippets → off.path ∉ e.shortlisted snippets →
          [on, off].Sublist (e.standings snippets)) ∧
      (e.limits.maxSuggestions ≤ e.limits.shortlistSize →
        ∀ s ∈ (e.score snippets).value, s.path ∈ e.shortlisted snippets ∧
          s.hub = (hubScore e.workspace e.extensions s.path).value) ∧
      ∃ byFrequency best rest,
        StableDescending (e.frequencyOf snippets) (e.contenders snippets) byFrequency ∧
          e.shortlisted snippets = byFrequency.take e.limits.shortlistSize ∧
          StableDescending Score.composite
            (((e.contenders snippets).filter fun path => path ∈ e.shortlisted snippets).map
              fun path =>
                ⟨path, e.frequencyOf snippets path,
                  (hubScore e.workspace e.extensions path).value⟩)
            best ∧
          rest = (byFrequency.drop e.limits.shortlistSize).map (fun path =>
            ⟨path, e.frequencyOf snippets path, 0⟩) ∧
          (e.score snippets).value = (best ++ rest).take e.limits.maxSuggestions := by
  refine ⟨fun n => ?_, fun on hon off hoff hin hout => ?_, fun room s hs => ?_, ?_⟩
  · rw [score_value, standings_suggesting]
    rfl
  · have hfront : on ∈ (e.standings snippets).filter fun s => s.path ∈ e.shortlisted snippets :=
      List.mem_filter.mpr ⟨hon, decide_eq_true hin⟩
    have hback : off ∈ (e.standings snippets).filter
        fun s => !decide (s.path ∈ e.shortlisted snippets) :=
      List.mem_filter.mpr ⟨hoff, by simpa using hout⟩
    rw [← filter_append_standings]
    exact (List.singleton_sublist.mpr hfront).append (List.singleton_sublist.mpr hback)
  · have hin := shortlisted_of_mem_score hs room
    obtain ⟨path, -, rfl⟩ := mem_results_iff.mp (mem_results_of_mem_score hs)
    exact ⟨hin, if_pos hin⟩
  · obtain ⟨byFrequency, order, hshort⟩ := e.exists_byFrequency snippets
    have hbest := (e.stableDescending_standings snippets).filter
      fun s => s.path ∈ e.shortlisted snippets
    rw [filter_shortlisted_results] at hbest
    refine ⟨byFrequency, _, _, order, hshort, hbest,
      filter_not_shortlisted_standings order hshort, ?_⟩
    rw [filter_append_standings, score_value]

/-- Two files with the same score, of which only the first has a place on the shortlist. -/
theorem score_shortlisted_first_of_tie :
    let s : Store := .ofList "/p" [("core/a.ts", ""), ("core/b.ts", "import './x';")]
    let e : Engine := ⟨s.toWorkspace, .manual ⟨[".ts"], []⟩, [".ts"], ⟨1, 1, 1⟩⟩
    let snippets : List Snippet :=
      [.userCode "src/one.ts" "import '../core/a';", .userCode "src/two.ts" "import '../core/b';"]
    e.standings snippets = [⟨"core/a", 1, 0⟩, ⟨"core/b", 1, 0⟩] ∧
      e.shortlisted snippets = ["core/a"] ∧
      (hubScore e.workspace e.extensions "core/b").value = 1 ∧
      [⟨"core/a", 1, 0⟩, ⟨"core/b", 1, 0⟩].Sublist (e.standings snippets) ∧
      ∀ s ∈ (e.score snippets).value, s.path ∈ e.shortlisted snippets ∧
        s.hub = (hubScore e.workspace e.extensions s.path).value := by
  intro s e snippets
  have hsurviving : e.surviving snippets = [("core/a", 1), ("core/b", 1)] := by decide +kernel
  obtain ⟨hshort, hstandings⟩ : e.shortlisted snippets = ["core/a"] ∧
      e.standings snippets = [⟨"core/a", 1, 0⟩, ⟨"core/b", 1, 0⟩] :=
    standings_of_pairwise hsurviving (by decide +kernel) (by decide) (by decide)
  obtain ⟨-, hfirst, hscored, -⟩ := score_shortlisted_first e snippets
  refine ⟨hstandings, hshort, by decide +kernel, ?_, hscored (Nat.le_refl 1)⟩
  refine hfirst ⟨"core/a", 1, 0⟩ ?_ ⟨"core/b", 1, 0⟩ ?_ ?_ ?_
  · rw [hstandings]
    exact List.mem_cons_self
  · rw [hstandings]
    exact List.mem_cons_of_mem _ List.mem_cons_self
  · rw [hshort]
    exact List.mem_cons_self
  · rw [hshort]
    decide

end ImportScout.Engine
