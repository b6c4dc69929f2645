import ImportScout.Proofs.Rank.Snippets

/-! # Raising the threshold

How many snippets must import a file decides which files survive, and nothing else. The files that
meet a higher threshold stand at the front of the order by frequency, so what comes on the shortlist
then is what is left of the shortlist (`shortlisted_requiring`), and each of them keeps its score.
The ranking under the higher threshold is what is left of the ranking (`score_requiring`).
-/

namespace ImportScout.Engine

/-- The engine that suggests only files that at least `n` snippets import. -/
def requiring (e : Engine) (n : ℕ) : Engine :=
  { e with limits := { e.limits with minFrequency := n } }

variable {e : Engine} {snippets : List Snippet} {n : ℕ}

theorem frequencyOf_requiring : (e.requiring n).frequencyOf snippets = e.frequencyOf snippets :=
  e.frequencyOf_limits _ snippets

section Raised

variable (raised : e.limits.minFrequency ≤ n)

include raised

theorem contenders_requiring :
    (e.requiring n).contenders snippets =
      (e.contenders snippets).filter fun path => n ≤ e.frequencyOf snippets path := by
  have hseen : (e.requiring n).seen snippets = e.seen snippets := e.seen_limits _ snippets
  rw [contenders, hseen, frequencyOf_requiring, contenders, List.filter_filter]
  refine List.filter_congr fun path _ => ?_
  rw [← Bool.decide_and, decide_eq_decide]
  exact ⟨fun h => ⟨h, raised.trans h⟩, fun h => h.1⟩

theorem surviving_requiring :
    (e.requiring n).surviving snippets =
      (e.surviving snippets).filter fun entry => n ≤ entry.2 := by
  rw [surviving_eq, surviving_eq, contenders_requiring raised, frequencyOf_requiring,
    List.filter_map]
  rfl

/-- The shortlist under a higher threshold is what is left of the shortlist. -/
theorem shortlisted_requiring :
    (e.requiring n).shortlisted snippets =
      (e.shortlisted snippets).filter fun path => n ≤ e.frequencyOf snippets path := by
  obtain ⟨byFrequency, order, hshort⟩ := e.exists_byFrequency snippets
  obtain ⟨byFrequency', order', hshort'⟩ := (e.requiring n).exists_byFrequency snippets
  rw [contenders_requiring raised, frequencyOf_requiring] at order'
  -- a file that meets the threshold is not behind one that misses it
  have hfront : byFrequency.Pairwise fun a b =>
      decide (n ≤ e.frequencyOf snippets b) = true →
        decide (n ≤ e.frequencyOf snippets a) = true :=
    order.descending.imp fun hle hb => decide_eq_true ((of_decide_eq_true hb).trans hle)
  rw [hshort', order'.unique (order.filter _), hshort, ← take_filter_of_front hfront]
  rfl

theorem results_requiring :
    (e.requiring n).results snippets =
      (e.results snippets).filter fun s => n ≤ s.frequency := by
  have hscore : ∀ path ∈ (e.requiring n).contenders snippets,
      (e.requiring n).scoreOf snippets ((e.requiring n).shortlisted snippets) path =
        e.scoreOf snippets (e.shortlisted snippets) path := by
    intro path hpath
    rw [contenders_requiring raised, List.mem_filter] at hpath
    rw [scoreOf, scoreOf, frequencyOf_requiring, shortlisted_requiring raised]
    simp only [List.mem_filter, hpath.2, and_true]
    rfl
  rw [results_eq, List.map_congr_left hscore, contenders_requiring raised, results_eq,
    List.filter_map]
  rfl

theorem standings_requiring :
    (e.requiring n).standings snippets =
      (e.standings snippets).filter fun s => n ≤ s.frequency := by
  have order := (e.requiring n).stableDescending_standings snippets
  rw [results_requiring raised] at order
  exact order.unique ((e.stableDescending_standings snippets).filter _)

end Raised

/-- Under a higher threshold the suggestions are those of the files that meet it, with the scores
and in the order that they had, provided that there was room for all survivors. -/
theorem score_requiring (e : Engine) (snippets : List Snippet) {n : ℕ}
    (raised : e.limits.minFrequency ≤ n)
    (room : (e.surviving snippets).length ≤ e.limits.maxSuggestions) :
    ((e.requiring n).score snippets).value =
      (e.score snippets).value.filter fun s => n ≤ s.frequency := by
  have room' :
      ((e.requiring n).surviving snippets).length ≤ (e.requiring n).limits.maxSuggestions := by
    rw [surviving_requiring raised]
    exact (List.length_filter_le _ _).trans room
  rw [score_eq_standings room', standings_requiring raised, score_eq_standings room]

/-- Of two files that meet the threshold, the one without a place on the shortlist gets none when a
third file falls behind it. -/
theorem score_requiring_two :
    let s : Store :=
      .ofList "/p"
        [("core/a.ts", ""), ("core/b.ts", "import './x';"), ("core/c.ts", "import './x';")]
    let e : Engine := ⟨s.toWorkspace, .manual ⟨[".ts"], []⟩, [".ts"], ⟨3, 1, 1⟩⟩
    let snippets : List Snippet :=
      [.userCode "src/one.ts" "import '../core/b';", .userCode "src/two.ts" "import '../core/b';",
        .userCode "src/three.ts" "import '../core/c';",
        .userCode "src/four.ts" "import '../core/c';",
        .userCode "src/five.ts" "import '../core/a';"]
    (e.score snippets).value = [⟨"core/b", 2, 1⟩, ⟨"core/c", 2, 0⟩, ⟨"core/a", 1, 0⟩] ∧
      ((e.requiring 2).score snippets).value = [⟨"core/b", 2, 1⟩, ⟨"core/c", 2, 0⟩] := by
  intro s e snippets
  have hsurviving : e.surviving snippets = [("core/b", 2), ("core/c", 2), ("core/a", 1)] := by
    decide +kernel
  obtain ⟨-, hstandings⟩ : e.shortlisted snippets = ["core/b"] ∧
      e.standings snippets = [⟨"core/b", 2, 1⟩, ⟨"core/c", 2, 0⟩, ⟨"core/a", 1, 0⟩] :=
    standings_of_pairwise hsurviving (by decide +kernel) (by decide) (by decide)
  have hscore : (e.score snippets).value =
      [⟨"core/b", 2, 1⟩, ⟨"core/c", 2, 0⟩, ⟨"core/a", 1, 0⟩] := by
    rw [score_value, hstandings]
    rfl
  refine ⟨hscore, ?_⟩
  rw [score_requiring e snippets (n := 2) (by decide) (by rw [hsurviving]; decide), hscore]
  rfl

end ImportScout.Engine
