import ImportScout.Proofs.Rank.Ranking
import ImportScout.Proofs.Resolve.Searches
import ImportScout.Workspace.Store

/-! # What ranking reads

Resolving an import reads no file, so ranking reads at two places only: the sources of the snippets
that start below the first line of their file, to place them, and the files on the shortlist, to
count their imports. `reads_score` lists these reads in order, whatever searches, reads and
definitions fail, and `reads_score_within_budget` says how many they are.
-/

namespace ImportScout

/-! ## Reads -/

/-- The path that a call reads. -/
def Call.read? : Call → Option String
  | .read path => some path
  | .find _ | .query _ _ => none

namespace Traced

variable {α β : Type}

/-- The paths that are read for a value. -/
def reads (x : Traced α) : List String :=
  x.calls.filterMap Call.read?

@[simp] theorem reads_pure (a : α) : (pure a : Traced α).reads = [] := rfl

@[simp] theorem reads_bind (x : Traced α) (f : α → Traced β) :
    (x >>= f).reads = x.reads ++ (f x.value).reads := by
  rw [reads, calls_bind, List.filterMap_append]
  rfl

theorem OnlySearches.reads_eq_nil {x : Traced α} (h : x.OnlySearches) : x.reads = [] := by
  refine List.filterMap_eq_nil_iff.mpr fun call hcall => ?_
  obtain ⟨pattern, rfl⟩ := h call hcall
  rfl

end Traced

@[simp] theorem Workspace.reads_open? (w : Workspace) (path : String) :
    (w.open? path).reads = [path] := rfl

/-! ## Resolving reads nothing -/

theorem Strategy.reads_resolve (s : Strategy) (w : Workspace) (req : Request) :
    (s.resolve w req).reads = [] := by
  cases s with
  | manual o =>
    rw [resolve, Traced.reads_bind, (onlySearches_byConvention w o req).reads_eq_nil,
      List.nil_append]
    split <;> rfl
  | definition p =>
    have hask : (p.definitions (Path.onto w.root req.source) req.offset).reads = [] := by
      cases p <;> rfl
    rw [resolve, byDefinition, Traced.reads_bind, hask, List.nil_append]
    split <;> rfl

theorem Chain.reads_resolve (chain : Chain) (w : Workspace) (req : Request) :
    (resolve w req chain).reads = [] := by
  induction chain with
  | nil => rfl
  | cons s chain ih =>
    rw [resolve, Traced.reads_bind, s.reads_resolve, List.nil_append]
    split
    · rfl
    · exact ih

/-! ## Placing snippets -/

/-- Whether a snippet is a part of its file that starts below the first line. -/
def Snippet.startsBelow (s : Snippet) : Bool :=
  !s.isFullFile && s.startLine.any fun line => 1 < line

namespace Engine

variable (e : Engine)

theorem reads_resolveAll (source : String) (base : ℕ) (imps : List Import) (found : List String) :
    (e.resolveAll source base imps found).reads = [] := by
  induction imps generalizing found with
  | nil => rfl
  | cons imp imps ih =>
    rw [resolveAll, Traced.reads_bind, Chain.reads_resolve, List.nil_append]
    split
    · exact ih _
    · exact ih _

theorem reads_offsetOf (s : Snippet) (source : String) :
    (e.offsetOf s source).reads = if s.startsBelow then [source] else [] := by
  rw [offsetOf, Snippet.startsBelow]
  cases s.startLine with
  | none => simp
  | some line =>
    by_cases htop : (line ≤ 1 || s.isFullFile) = true
    · have hbelow : (!s.isFullFile && decide (1 < line)) = false := by
        simp only [Bool.or_eq_true, decide_eq_true_eq] at htop
        rcases htop with hline | hfull
        · simp [Nat.not_lt.mpr hline]
        · simp [hfull]
      simp only [htop, Option.any_some, hbelow]
      rfl
    · have hbelow : (!s.isFullFile && decide (1 < line)) = true := by
        simpa [and_comm] using htop
      simp only [htop, Option.any_some, hbelow, if_true]
      rw [if_neg Bool.false_ne_true, Traced.reads_bind, Workspace.reads_open?]
      split <;> rfl

theorem reads_importsOf (s : Snippet) :
    (e.importsOf s).reads = if s.startsBelow then [e.relative s.fileName] else [] := by
  rw [importsOf, Traced.reads_bind, reads_offsetOf, suggestionsFor, reads_resolveAll,
    List.append_nil]

theorem reads_tallyFrom (known : List String) (snippets : List Snippet)
    (tally : List (String × ℕ)) :
    (e.tallyFrom known snippets tally).reads =
      (snippets.filter Snippet.startsBelow).map fun s => e.relative s.fileName := by
  induction snippets generalizing tally with
  | nil => rfl
  | cons s snippets ih =>
    rw [tallyFrom, Traced.reads_bind, reads_importsOf, ih, List.filter_cons]
    split <;> rfl

/-- The sources that are read to place snippets: those of the snippets that count and start below
the first line of their file. -/
def placing (snippets : List Snippet) : List String :=
  ((snippets.filter counts).filter Snippet.startsBelow).map fun s => e.relative s.fileName

/-! ## Counting the imports of files -/

/-- The file whose imports are counted for a path on the shortlist, if probing finds one. -/
def hubFile (path : String) : Option String :=
  match (Probe.fileFor e.workspace e.extensions path).value with
  | .ok found => found
  | .error _ => none

theorem reads_hubScore (path : String) :
    (hubScore e.workspace e.extensions path).reads = (e.hubFile path).toList := by
  rw [hubScore, Traced.reads_bind, (Probe.onlySearches_fileFor _ _ path).reads_eq_nil,
    List.nil_append, hubFile]
  rcases (Probe.fileFor e.workspace e.extensions path).value with fault | _ | file
  · rfl
  · rfl
  · rw [Traced.reads_bind, Workspace.reads_open?]
    split <;> rfl

theorem reads_hubScores (paths : List String) :
    (e.hubScores paths).reads = paths.filterMap e.hubFile := by
  induction paths with
  | nil => rfl
  | cons path paths ih =>
    rw [hubScores, Traced.reads_bind, Traced.reads_bind, reads_hubScore, ih, Traced.reads_pure,
      List.append_nil, List.filterMap_cons]
    cases e.hubFile path <;> rfl

/-! ## The reads of a ranking -/

/-- Ranking first reads what it needs to place the snippets, one after the other, and then the files
on the shortlist. -/
theorem reads_score (snippets : List Snippet) :
    (e.score snippets).reads =
      e.placing snippets ++ (e.shortlisted snippets).filterMap e.hubFile := by
  rw [score, Traced.reads_bind, Traced.reads_bind, frequencies, reads_tallyFrom, reads_hubScores,
    Traced.reads_pure, List.append_nil]
  rfl

/-- Whatever fails, ranking reads the source of each snippet that counts and starts below the first
line of its file, in the order of the snippets, and then the file that is found for each path on the
shortlist, from the most frequent on. So it counts the imports of no more files than the shortlist
has places. It reads only to place snippets if no file survives, and asks for nothing at all if no
snippet was added by the user. -/
theorem reads_score_within_budget (e : Engine) (snippets : List Snippet) :
    (e.score snippets).reads =
        e.placing snippets ++ (e.shortlisted snippets).filterMap e.hubFile ∧
      (∃ byFrequency,
        StableDescending (e.frequencyOf snippets) (e.contenders snippets) byFrequency ∧
          e.shortlisted snippets = byFrequency.take e.limits.shortlistSize) ∧
      ((e.shortlisted snippets).filterMap e.hubFile).length ≤ e.limits.shortlistSize ∧
      (e.surviving snippets = [] → (e.score snippets).reads = e.placing snippets) ∧
      ((∀ s ∈ snippets, s.isPrimary = false) → (e.score snippets).calls = []) := by
  refine ⟨e.reads_score snippets, e.exists_byFrequency snippets, ?_, fun hnone => ?_,
    fun hall => ?_⟩
  · refine (List.length_filterMap_le _ _).trans ?_
    rw [shortlisted, shortlist, List.length_map]
    exact List.length_take_le _ _
  · rw [reads_score, shortlisted, hnone, shortlist, List.mergeSort_nil, List.take_nil, List.map_nil,
      List.filterMap_nil, List.append_nil]
  · simp only [score, frequencies, filter_counts_eq_nil hall, tallyFrom, survivors, shortlist,
      hubScores, Traced.calls_bind, Traced.calls_pure, Traced.value_pure, List.filter_nil,
      List.mergeSort_nil, List.take_nil, List.map_nil, List.append_nil]

/-- A source that may not be read is asked for nevertheless, and a file of the list that the user
did not add asks for nothing. -/
theorem reads_score_of_refused :
    let s : Store := .ofList "/p" [("core/a.ts", ""), ("core/b.ts", "import './a';")]
    let e : Engine :=
      ⟨s.toWorkspace.refusing ["src/one.ts"] [], .manual ⟨[".ts"], []⟩, [".ts"], ⟨4, 7, 2⟩⟩
    let one : Snippet :=
      { fileName := "src/one.ts", text := "import '../core/a';", startLine := some 3 }
    let two : Snippet := .userCode "src/two.ts" "import '../core/a';"
    let taken : Snippet := .fullFile "core/b.ts" "import './a';" .suggestion
    (e.score [one, taken, two]).reads = ["src/one.ts", "core/a.ts"] ∧
      (e.score [one, taken]).reads = ["src/one.ts"] ∧ (e.score [taken]).calls = [] := by
  intro s e one two taken
  obtain ⟨hreads, -, -, -, -⟩ := reads_score_within_budget e [one, taken, two]
  obtain ⟨-, -, -, hnone, -⟩ := reads_score_within_budget e [one, taken]
  obtain ⟨-, -, -, -, hasks⟩ := reads_score_within_budget e [taken]
  refine ⟨?_, ?_, hasks (by decide)⟩
  · rw [hreads]
    decide +kernel
  · rw [hnone (by decide +kernel)]
    decide +kernel

end Engine

end ImportScout
