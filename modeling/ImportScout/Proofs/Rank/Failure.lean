import ImportScout.Proofs.Rank.Independence
import ImportScout.Proofs.Rank.Ranking

/-! # Reads that fail

Ranking reads files for two ends, and a read that fails spoils neither. The offset of a snippet is
taken to be 0, which probing leaves aside. The own imports of a file on the shortlist are taken to
be none. So whatever reads fail, the same files survive with the same frequencies and the same ones
come on the shortlist, and the suggestions are ranked as if the files that could not be read had no
imports (`score_failing`).
-/

namespace ImportScout

/-- The workspace whose reads fail as `faults` says, and that answers everything else as `w`
does. -/
def Workspace.failing (w : Workspace) (faults : String → Option Fault) : Workspace where
  root := w.root
  find := w.find
  read path :=
    match faults path with
    | some fault => .error fault
    | none => w.read path

/-- To refuse to read some files is a way to fail. -/
theorem Workspace.exists_refusing_eq_failing (w : Workspace) (reads : List String) :
    ∃ faults, w.refusing reads [] = w.failing faults ∧
      ∀ path, (faults path).isSome = true ↔ path ∈ reads := by
  let faults (path : String) : Option Fault :=
    if reads.contains path then some (.refused s!"permission denied: {path}") else none
  refine ⟨faults, ?_, fun path => ?_⟩
  · have hread : (w.refusing reads []).read = (w.failing faults).read := by
      funext path
      by_cases hpath : path ∈ reads <;> simp [refusing, failing, faults, hpath]
    have hfind : (w.refusing reads []).find = w.find := by
      funext pattern limit
      simp [refusing]
    exact congrArg₂ (Workspace.mk w.root) hfind hread
  · by_cases hpath : path ∈ reads <;> simp [faults, hpath]

/-- Whether the read of the file that is found for `path` is one that fails. -/
def Workspace.failsFor (w : Workspace) (faults : String → Option Fault) (extensions : List String)
    (path : String) : Bool :=
  match (Probe.fileFor w extensions path).value with
  | .ok (some file) => (faults file).isSome
  | .error _ | .ok none => false

variable (w : Workspace) (faults : String → Option Fault)

theorem Workspace.searchesAlike_failing : (w.failing faults).SearchesAlike w :=
  ⟨rfl, rfl⟩

/-- A file whose read fails has no imports, and all others have those that they had. -/
theorem hubScore_failing (extensions : List String) (path : String) :
    (hubScore (w.failing faults) extensions path).value =
      if w.failsFor faults extensions path then 0 else (hubScore w extensions path).value := by
  rw [hubScore, Traced.value_bind, (w.searchesAlike_failing faults).fileFor_eq, hubScore,
    Traced.value_bind, Workspace.failsFor]
  rcases (Probe.fileFor w extensions path).value with fault | _ | file
  · rfl
  · rfl
  · rw [Traced.value_bind, Traced.value_bind]
    rcases hfault : faults file with _ | fault
    · have hread : (w.failing faults).open? file = w.open? file := by
        simp only [Workspace.open?, Workspace.failing, hfault]
      simp only [hread, hfault, Option.isSome_none, Bool.false_eq_true, if_false]
    · have hread : ((w.failing faults).open? file).value = .error fault := by
        simp only [Workspace.open?, Workspace.failing, hfault]
      simp only [hread, hfault, Option.isSome_some, if_true, Traced.value_pure]

namespace Engine

theorem length_score (e : Engine) (snippets : List Snippet) :
    (e.score snippets).value.length =
      min e.limits.maxSuggestions (e.surviving snippets).length := by
  rw [score_value, List.length_take, length_standings]

/-- Where imports are only probed, failing reads do not change which files survive, how frequent
they are and which of them are on the shortlist. Scoring still suggests as many files; it ranks the
results in which the own imports of just those files of the shortlist are taken away whose read
fails. -/
theorem score_failing (o : ProbeOptions) (extensions : List String) (limits : Limits)
    (snippets : List Snippet) :
    let e : Engine := ⟨w, .manual o, extensions, limits⟩
    let e' : Engine := ⟨w.failing faults, .manual o, extensions, limits⟩
    e'.surviving snippets = e.surviving snippets ∧
      e'.shortlisted snippets = e.shortlisted snippets ∧
      (e'.score snippets).value.length = (e.score snippets).value.length ∧
      (e'.score snippets).value =
        (ranked ((e.results snippets).map fun s =>
          if s.path ∈ e.shortlisted snippets ∧ w.failsFor faults extensions s.path then
            { s with hub := 0 }
          else s)).take limits.maxSuggestions := by
  intro e e'
  have hsurviving : e'.surviving snippets = e.surviving snippets := by
    rw [surviving, (w.searchesAlike_failing faults).frequencies_eq, surviving]
  have hshort : e'.shortlisted snippets = e.shortlisted snippets := by
    rw [shortlisted, hsurviving, shortlisted]
  have hresults : e'.results snippets = (e.results snippets).map fun s =>
      if s.path ∈ e.shortlisted snippets ∧ w.failsFor faults extensions s.path then
        { s with hub := 0 }
      else s := by
    rw [results_eq_map_surviving, results_eq_map_surviving, hsurviving, hshort, List.map_map]
    refine List.map_congr_left fun entry _ => ?_
    have hhub : (hubScore e'.workspace e'.extensions entry.1).value =
        if w.failsFor faults extensions entry.1 then 0
        else (hubScore e.workspace e.extensions entry.1).value :=
      hubScore_failing w faults extensions entry.1
    rw [hhub, Function.comp_apply]
    by_cases hon : entry.1 ∈ e.shortlisted snippets
    · cases hfails : w.failsFor faults extensions entry.1 <;> simp [hon]
    · simp [hon]
  refine ⟨hsurviving, hshort, ?_, ?_⟩
  · rw [length_score, length_score, hsurviving]
  · rw [score_value, standings, hresults]

end Engine

end ImportScout
