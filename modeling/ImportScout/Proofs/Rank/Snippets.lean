import ImportScout.Proofs.Rank.Standings
import ImportScout.Workspace.Store

/-! # What the list of snippets decides

Ranking reads the snippets one after the other, but their order decides ties only: in another order
the same files survive with the same frequencies, and as long as all of them are on the shortlist
the scores of the suggestions are the same numbers (`score_of_perm`). Snippets that the user did not
add have one effect wherever they stand: their files are left out, and others may move up to the
shortlist in their place (`score_of_suggested`).
-/

namespace ImportScout.Engine

variable {e : Engine} {snippets : List Snippet}

/-! ## Room for all survivors -/

section Room

variable (room : (e.surviving snippets).length ≤ e.limits.maxSuggestions)

include room

/-- Where there is room for all survivors, nothing is cut off. -/
theorem score_eq_standings : (e.score snippets).value = e.standings snippets := by
  rw [score_value, List.take_of_length_le (by rwa [length_standings])]

theorem mem_score_iff {s : Score} : s ∈ (e.score snippets).value ↔ s ∈ e.results snippets := by
  rw [score_eq_standings room, (e.stableDescending_standings snippets).mem_iff]

theorem pairs_perm_surviving :
    ((e.score snippets).value.map fun s => (s.path, s.frequency)).Perm (e.surviving snippets) := by
  rw [score_eq_standings room]
  refine ((e.stableDescending_standings snippets).perm.map _).trans ?_
  rw [results_eq, List.map_map, surviving_eq]
  exact List.Perm.refl _

end Room

/-! ## Other orders -/

section Order

variable {reordered : List Snippet} (h : reordered.Perm snippets)

include h

theorem frequencyOf_perm : e.frequencyOf reordered = e.frequencyOf snippets := by
  funext path
  exact (h.filter counts).countP_eq _

theorem contenders_perm : (e.contenders reordered).Perm (e.contenders snippets) := by
  have hpresent : (e.present reordered).Perm (e.present snippets) := (h.filter _).map _
  rw [List.perm_ext_iff_of_nodup (e.nodup_contenders reordered) (e.nodup_contenders snippets)]
  intro path
  simp only [contenders, List.mem_filter, mem_seen_iff, frequencyOf_perm h, h.mem_iff,
    hpresent.mem_iff]

theorem surviving_perm : (e.surviving reordered).Perm (e.surviving snippets) := by
  rw [surviving_eq, surviving_eq, frequencyOf_perm h]
  exact (contenders_perm h).map _

end Order

/-- If the shortlist has room for all survivors, it holds all of them. -/
theorem mem_shortlisted_of_room (room : (e.surviving snippets).length ≤ e.limits.shortlistSize)
    {path : String} (hpath : path ∈ e.contenders snippets) : path ∈ e.shortlisted snippets := by
  obtain ⟨byFrequency, order, hshort⟩ := e.exists_byFrequency snippets
  rw [length_surviving, ← order.perm.length_eq] at room
  rw [hshort, List.take_of_length_le room]
  exact order.mem_iff.mpr hpath

theorem results_of_room (room : (e.surviving snippets).length ≤ e.limits.shortlistSize) :
    e.results snippets = (e.contenders snippets).map fun path =>
      ⟨path, e.frequencyOf snippets path, (hubScore e.workspace e.extensions path).value⟩ := by
  rw [results_eq]
  exact List.map_congr_left fun path hpath => scoreOf_of_mem (mem_shortlisted_of_room room hpath)

theorem results_perm {reordered : List Snippet} (h : reordered.Perm snippets)
    (room : (e.surviving snippets).length ≤ e.limits.shortlistSize) :
    (e.results reordered).Perm (e.results snippets) := by
  have room' : (e.surviving reordered).length ≤ e.limits.shortlistSize := by
    rwa [(surviving_perm h).length_eq]
  rw [results_of_room room', results_of_room room, frequencyOf_perm h]
  exact (contenders_perm h).map _

/-- In another order of the snippets the same files survive with the same frequencies. As long as
the shortlist has room for all of them, the suggestions score the same numbers in the same order,
and every file that scores more than the first one that is cut off is suggested in both orders with
the same score. -/
theorem score_of_perm (e : Engine) {snippets reordered : List Snippet}
    (h : reordered.Perm snippets) :
    (e.surviving reordered).Perm (e.surviving snippets) ∧
      ((e.surviving snippets).length ≤ e.limits.shortlistSize →
        (e.score reordered).value.map Score.composite =
            (e.score snippets).value.map Score.composite ∧
          ∀ s ∈ e.standings snippets,
            (∀ cut, (e.standings snippets)[e.limits.maxSuggestions]? = some cut →
              cut.composite < s.composite) →
            s ∈ (e.score snippets).value ∧ s ∈ (e.score reordered).value) := by
  refine ⟨surviving_perm h, fun room => ?_⟩
  have hperm := results_perm h room
  have order := e.stableDescending_standings snippets
  have order' := e.stableDescending_standings reordered
  have hkeys := order'.map_key_eq order hperm
  refine ⟨?_, fun s hs hcut => ⟨?_, ?_⟩⟩
  · rw [score_value, score_value, List.map_take, List.map_take, hkeys]
  · exact order.mem_take_of_key_lt (order.mem_iff.mp hs) hcut
  · refine order'.mem_take_of_key_lt (hperm.mem_iff.mpr (order.mem_iff.mp hs)) fun cut' hcut' => ?_
    -- at the place where the one order is cut off, the other one has the same number
    have hplace := congrArg (fun keys => keys[e.limits.maxSuggestions]?) hkeys
    simp only [List.getElem?_map, hcut', Option.map_some] at hplace
    obtain ⟨cut, hcut₀, hsame⟩ := Option.map_eq_some_iff.mp hplace.symm
    exact hsame ▸ hcut cut hcut₀

/-- Which of two files with the same score is suggested beside the best one depends on the order of
the snippets. The scores do not. -/
theorem score_of_perm_tie :
    let s : Store :=
      .ofList "/p" [("core/a.ts", ""), ("core/b.ts", ""), ("core/c.ts", "import './x';")]
    let e : Engine := ⟨s.toWorkspace, .manual ⟨[".ts"], []⟩, [".ts"], ⟨2, 3, 1⟩⟩
    let one : Snippet := .userCode "src/one.ts" "import '../core/c';"
    let two : Snippet := .userCode "src/two.ts" "import '../core/a';"
    let three : Snippet := .userCode "src/three.ts" "import '../core/b';"
    [one, three, two].Perm [one, two, three] ∧
      (e.score [one, two, three]).value = [⟨"core/c", 1, 1⟩, ⟨"core/a", 1, 0⟩] ∧
      (e.surviving [one, three, two]).Perm (e.surviving [one, two, three]) ∧
      (e.score [one, three, two]).value.map Score.composite =
        (e.score [one, two, three]).value.map Score.composite ∧
      (⟨"core/c", 1, 1⟩ : Score) ∈ (e.score [one, three, two]).value := by
  intro s e one two three
  have hperm : [one, three, two].Perm [one, two, three] := .cons one (.swap two three [])
  have hsurviving : e.surviving [one, two, three] =
      [("core/c", 1), ("core/a", 1), ("core/b", 1)] := by
    decide +kernel
  obtain ⟨-, hstandings⟩ : e.shortlisted [one, two, three] = ["core/c", "core/a", "core/b"] ∧
      e.standings [one, two, three] =
        [⟨"core/c", 1, 1⟩, ⟨"core/a", 1, 0⟩, ⟨"core/b", 1, 0⟩] :=
    standings_of_pairwise hsurviving (by decide +kernel) (by decide) (by decide)
  obtain ⟨hsame, hscores⟩ := score_of_perm e hperm
  obtain ⟨hcomposites, hbest⟩ := hscores (by rw [hsurviving]; decide)
  refine ⟨hperm, ?_, hsame, hcomposites, (hbest ⟨"core/c", 1, 1⟩ ?_ fun cut hcut => ?_).2⟩
  · rw [score_value, hstandings]
    rfl
  · rw [hstandings]
    exact List.mem_cons_self
  · rw [hstandings] at hcut
    obtain rfl : ⟨"core/b", 1, 0⟩ = cut := Option.some.inj hcut
    decide

/-! ## Snippets that are no signal -/

section Suggested

variable {added all : List Snippet} (hsub : snippets.Sublist all)
  (hperm : all.Perm (snippets ++ added)) (hadded : ∀ s ∈ added, s.isPrimary = false)

include hsub hperm hadded

theorem filter_counts_insert : all.filter counts = snippets.filter counts := by
  refine ((hsub.filter counts).eq_of_length ?_).symm
  rw [(hperm.filter counts).length_eq, List.filter_append, filter_counts_eq_nil hadded,
    List.append_nil]

theorem frequencyOf_insert : e.frequencyOf all = e.frequencyOf snippets := by
  funext path
  rw [frequencyOf, filter_counts_insert hsub hperm hadded, frequencyOf]

/-- The files of such snippets are left out, and nothing else changes. -/
theorem contenders_insert :
    e.contenders all = (e.contenders snippets).filter fun path => path ∉ e.present added := by
  have hpresent : ∀ path, path ∈ e.present all ↔
      path ∈ e.present snippets ∨ path ∈ e.present added := by
    intro path
    rw [← List.mem_append, present, present, present, ← List.map_append, ← List.filter_append]
    exact ((hperm.filter _).map _).mem_iff
  have hseen : e.seen all = (e.seen snippets).filter fun path => path ∉ e.present added := by
    rw [seen, seen, filter_counts_insert hsub hperm hadded, ← eraseDups_filter, List.filter_filter]
    simp only [hpresent, not_or, Bool.decide_and, Bool.and_comm]
  rw [contenders, hseen, frequencyOf_insert hsub hperm hadded, List.filter_comm, contenders]

theorem surviving_insert :
    e.surviving all = (e.surviving snippets).filter fun entry => entry.1 ∉ e.present added := by
  rw [surviving_eq, surviving_eq, contenders_insert hsub hperm hadded,
    frequencyOf_insert hsub hperm hadded, List.filter_map]
  rfl

/-- A file of the shortlist that is not left out stays on it. -/
theorem mem_shortlisted_insert {path : String} (hpath : path ∈ e.shortlisted snippets)
    (hout : path ∉ e.present added) : path ∈ e.shortlisted all := by
  obtain ⟨byFrequency, order, hshort⟩ := e.exists_byFrequency snippets
  obtain ⟨byFrequency', order', hshort'⟩ := e.exists_byFrequency all
  rw [contenders_insert hsub hperm hadded, frequencyOf_insert hsub hperm hadded] at order'
  rw [hshort] at hpath
  rw [hshort', order'.unique (order.filter fun path => path ∉ e.present added)]
  exact mem_take_filter hpath (decide_eq_true hout)

end Suggested

/-- Let snippets that the user did not add be put in between others, wherever, and let there have
been room for all survivors. Then exactly the files of these snippets are left out, and all other
files keep their frequencies. They keep their own imports as well, except that a file that was off
the shortlist, with nothing counted, may come to have its own imports counted. -/
theorem score_of_suggested (e : Engine) {snippets added all : List Snippet}
    (hsub : snippets.Sublist all) (hperm : all.Perm (snippets ++ added))
    (hadded : ∀ s ∈ added, s.isPrimary = false)
    (room : (e.surviving snippets).length ≤ e.limits.maxSuggestions) :
    ((e.score all).value.map fun s => (s.path, s.frequency)).Perm
        (((e.score snippets).value.map fun s => (s.path, s.frequency)).filter
          fun entry => entry.1 ∉ e.present added) ∧
      ∀ s ∈ (e.score all).value, ∃ before ∈ (e.score snippets).value,
        before.path = s.path ∧ before.frequency = s.frequency ∧
          (before.hub = s.hub ∨
            s.path ∉ e.shortlisted snippets ∧ before.hub = 0 ∧
              s.hub = (hubScore e.workspace e.extensions s.path).value) := by
  have hsurviving := surviving_insert (e := e) hsub hperm hadded
  have room' : (e.surviving all).length ≤ e.limits.maxSuggestions := by
    rw [hsurviving]
    exact (List.length_filter_le _ _).trans room
  refine ⟨?_, fun s hs => ?_⟩
  · refine (pairs_perm_surviving room').trans ?_
    rw [hsurviving]
    exact ((pairs_perm_surviving room).filter _).symm
  · rw [mem_score_iff room'] at hs
    obtain ⟨path, hpath, rfl⟩ := mem_results_iff.mp hs
    rw [contenders_insert hsub hperm hadded, List.mem_filter, decide_eq_true_eq] at hpath
    refine ⟨e.scoreOf snippets (e.shortlisted snippets) path,
      (mem_score_iff room).mpr (mem_results_iff.mpr ⟨path, hpath.1, rfl⟩), rfl,
      congrFun (frequencyOf_insert hsub hperm hadded).symm path, ?_⟩
    by_cases hon : path ∈ e.shortlisted snippets
    · rw [scoreOf_of_mem hon, scoreOf_of_mem (mem_shortlisted_insert hsub hperm hadded hon hpath.2)]
      exact Or.inl rfl
    · rw [scoreOf_of_not_mem hon]
      by_cases hnow : path ∈ e.shortlisted all
      · rw [scoreOf_of_mem hnow]
        exact Or.inr ⟨hon, rfl, rfl⟩
      · rw [scoreOf_of_not_mem hnow]
        exact Or.inl rfl

/-- A suggested file that the user has taken over frees its place on the shortlist. -/
theorem score_of_suggested_file :
    let s : Store := .ofList "/p" [("core/a.ts", "import './x';"), ("core/b.ts", "import './x';")]
    let e : Engine := ⟨s.toWorkspace, .manual ⟨[".ts"], []⟩, [".ts"], ⟨4, 1, 1⟩⟩
    let one : Snippet := .userCode "src/one.ts" "import '../core/a';"
    let two : Snippet := .userCode "src/two.ts" "import '../core/b';"
    let taken : Snippet := .fullFile "core/a.ts" "import './x';" .suggestion
    (e.score [one, two]).value = [⟨"core/a", 1, 1⟩, ⟨"core/b", 1, 0⟩] ∧
      (e.score [one, taken, two]).value = [⟨"core/b", 1, 1⟩] ∧
      ((e.score [one, taken, two]).value.map fun s => (s.path, s.frequency)).Perm
        (((e.score [one, two]).value.map fun s => (s.path, s.frequency)).filter
          fun entry => entry.1 ∉ e.present [taken]) ∧
      ∀ s ∈ (e.score [one, taken, two]).value, ∃ before ∈ (e.score [one, two]).value,
        before.path = s.path ∧ before.frequency = s.frequency ∧
          (before.hub = s.hub ∨
            s.path ∉ e.shortlisted [one, two] ∧ before.hub = 0 ∧
              s.hub = (hubScore e.workspace e.extensions s.path).value) := by
  intro s e one two taken
  have hsub : [one, two].Sublist [one, taken, two] := .cons_cons one (.cons taken (.refl [two]))
  have hperm : [one, taken, two].Perm ([one, two] ++ [taken]) := .cons one (.swap two taken [])
  have hadded : ∀ s ∈ [taken], s.isPrimary = false := by decide
  have hsurviving : e.surviving [one, two] = [("core/a", 1), ("core/b", 1)] := by decide +kernel
  obtain ⟨-, hstandings⟩ : e.shortlisted [one, two] = ["core/a"] ∧
      e.standings [one, two] = [⟨"core/a", 1, 1⟩, ⟨"core/b", 1, 0⟩] :=
    standings_of_pairwise hsurviving (by decide +kernel) (by decide) (by decide)
  refine ⟨?_, by decide +kernel,
    score_of_suggested e hsub hperm hadded (by rw [hsurviving]; decide)⟩
  rw [score_value, hstandings]
  rfl

end ImportScout.Engine
