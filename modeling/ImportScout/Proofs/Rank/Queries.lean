import ImportScout.Rank.Score
import ImportScout.Proofs.Import.Extract
import ImportScout.Proofs.Resolve.Searches

/-! # What ranking asks a provider

Only the resolving of imports asks a provider for definitions, so the queries of a ranking are
those of the imports of its snippets, one import after the other (`queries_score`). Each of them
points into the source file of the snippet. Where the snippet stands in that file as its line number
says, the query points at the specifier (`queries_score_point_at_specifiers`): the bytes before the
snippet's first line and those before the specifier in the snippet add up.
-/

namespace ImportScout

open Text

/-! ## Queries -/

/-- Whether a call asks for a definition. -/
def Call.isQuery : Call → Bool
  | .query _ _ => true
  | .find _ | .read _ => false

namespace Traced

variable {α β : Type}

/-- The queries among the calls. -/
def queries (x : Traced α) : List Call :=
  x.calls.filter Call.isQuery

@[simp] theorem queries_pure (a : α) : (pure a : Traced α).queries = [] := rfl

@[simp] theorem queries_bind (x : Traced α) (f : α → Traced β) :
    (x >>= f).queries = x.queries ++ (f x.value).queries := by
  rw [queries, calls_bind, List.filter_append]
  rfl

end Traced

theorem Traced.OnlySearches.queries_eq_nil {α : Type} {x : Traced α} (h : x.OnlySearches) :
    x.queries = [] := by
  refine List.filter_eq_nil_iff.mpr fun call hcall => ?_
  obtain ⟨pattern, rfl⟩ := h call hcall
  exact Bool.false_ne_true

@[simp] theorem Workspace.queries_open? (w : Workspace) (path : String) :
    (w.open? path).queries = [] := rfl

theorem queries_hubScore (w : Workspace) (extensions : List String) (path : String) :
    (hubScore w extensions path).queries = [] := by
  rw [hubScore, Traced.queries_bind, (Probe.onlySearches_fileFor w extensions path).queries_eq_nil,
    List.nil_append]
  split
  · rfl
  · rfl
  · rw [Traced.queries_bind, Workspace.queries_open?, List.nil_append]
    split <;> rfl

/-! ## Resolving asks at the place of the import -/

/-- A strategy asks about the source file of the import, at the place of the import. -/
theorem Strategy.eq_of_mem_queries {s : Strategy} {w : Workspace} {req : Request} {call : Call}
    (h : call ∈ (s.resolve w req).queries) :
    call = .query (Path.onto w.root req.source) req.offset := by
  cases s with
  | manual o =>
    rw [resolve, Traced.queries_bind, (onlySearches_byConvention w o req).queries_eq_nil,
      List.nil_append] at h
    split at h <;> exact absurd h List.not_mem_nil
  | definition p =>
    rw [resolve, byDefinition, Traced.queries_bind, List.mem_append] at h
    rcases h with h | h
    · cases p with
      | silent => exact absurd h List.not_mem_nil
      | asking answer => exact List.mem_singleton.mp h
    · split at h <;> exact absurd h List.not_mem_nil

theorem Chain.eq_of_mem_queries {chain : Chain} {w : Workspace} {req : Request} {call : Call}
    (h : call ∈ (resolve w req chain).queries) :
    call = .query (Path.onto w.root req.source) req.offset := by
  induction chain with
  | nil => exact absurd h List.not_mem_nil
  | cons s chain ih =>
    rw [resolve, Traced.queries_bind, List.mem_append] at h
    rcases h with h | h
    · exact s.eq_of_mem_queries h
    · split at h
      · exact absurd h List.not_mem_nil
      · exact ih h

/-! ## The queries of a ranking -/

namespace Engine

/-- What ranking resolves for an import of a snippet. -/
def requestOf (e : Engine) (s : Snippet) (imp : Import) : Request :=
  ⟨imp.specifier, (e.offsetOf s (e.relative s.fileName)).value + imp.offset, e.relative s.fileName⟩

/-- The queries that are made for an import of a snippet. -/
def queriesFor (e : Engine) (s : Snippet) (imp : Import) : List Call :=
  (e.chain.resolve e.workspace (e.requestOf s imp)).queries

variable (e : Engine)

theorem queries_resolveAll (source : String) (base : ℕ) (imps : List Import)
    (found : List String) :
    (e.resolveAll source base imps found).queries = imps.flatMap fun imp =>
      (e.chain.resolve e.workspace ⟨imp.specifier, base + imp.offset, source⟩).queries := by
  induction imps generalizing found with
  | nil => rfl
  | cons imp imps ih =>
    rw [resolveAll, Traced.queries_bind, List.flatMap_cons]
    congr 1
    split
    · exact ih _
    · exact ih _

theorem queries_offsetOf (s : Snippet) (source : String) : (e.offsetOf s source).queries = [] := by
  rw [offsetOf]
  split
  · rfl
  · split
    · rfl
    · rw [Traced.queries_bind, Workspace.queries_open?, List.nil_append]
      split <;> rfl

theorem queries_importsOf (s : Snippet) :
    (e.importsOf s).queries = (Import.extractLocal s.text).flatMap (e.queriesFor s) := by
  rw [importsOf, Traced.queries_bind, queries_offsetOf, List.nil_append, suggestionsFor,
    queries_resolveAll]
  rfl

theorem queries_tallyFrom (known : List String) (snippets : List Snippet)
    (tally : List (String × ℕ)) :
    (e.tallyFrom known snippets tally).queries = snippets.flatMap fun s =>
      (Import.extractLocal s.text).flatMap (e.queriesFor s) := by
  induction snippets generalizing tally with
  | nil => rfl
  | cons s snippets ih =>
    rw [tallyFrom, Traced.queries_bind, queries_importsOf, List.flatMap_cons, ih]

theorem queries_hubScores (paths : List String) : (e.hubScores paths).queries = [] := by
  induction paths with
  | nil => rfl
  | cons path paths ih =>
    rw [hubScores, Traced.queries_bind, Traced.queries_bind, queries_hubScore, ih]
    rfl

/-- The queries of a ranking are those for the imports of the snippets that count, one after the
other. -/
theorem queries_score (snippets : List Snippet) :
    (e.score snippets).queries = (snippets.filter counts).flatMap fun s =>
      (Import.extractLocal s.text).flatMap (e.queriesFor s) := by
  rw [score, Traced.queries_bind, Traced.queries_bind, queries_hubScores, frequencies,
    queries_tallyFrom]
  exact List.append_nil _

end Engine

/-! ## Where snippets stand -/

/-- Whether the line with the number `line`, counted from 1, starts behind `above`. -/
def StartsLine (above : List Char) (line : ℕ) : Prop :=
  above.count '\n' + 1 = line ∧ (above = [] ∨ above.getLast? = some '\n')

/-- Whether the text of a snippet stands in the text of its file where its line number says: from
the start of its first line on if it is a part of the file with a first line below the top, and else
from the start of the file on. -/
def Snippet.StandsIn (s : Snippet) (file : String) : Prop :=
  ∃ above below, file = above ++ s.text ++ below ∧
    match s.startLine with
    | none => above = ""
    | some line => if line ≤ 1 || s.isFullFile then above = "" else StartsLine above.toList line

theorem go_eq_some {above rest : List Char} {feeds : ℕ} (offset : ℕ)
    (hcount : above.count '\n' = feeds) (hend : above = [] ∨ above.getLast? = some '\n') :
    lineStart?.go offset feeds (above ++ rest) = some (offset + size above) := by
  induction above generalizing offset feeds with
  | nil =>
    subst hcount
    rw [List.count_nil, lineStart?.go]
    rfl
  | cons c above ih =>
    have hsize : size (c :: above) = c.utf8Size + size above := by
      rw [← List.singleton_append, size_append, size_singleton]
    have hend : (c :: above).getLast? = some '\n' := by simpa using hend
    -- the last line feed is still to come, so at least one is counted here
    have hmem : '\n' ∈ c :: above := List.mem_of_getLast? hend
    obtain ⟨n, rfl⟩ : ∃ n, feeds = n + 1 := by
      have := List.count_pos_iff.mpr hmem
      exact ⟨feeds - 1, by omega⟩
    have hrest : above = [] ∨ above.getLast? = some '\n' := by
      cases above with
      | nil => exact Or.inl rfl
      | cons d above => exact Or.inr (by simpa using hend)
    rw [List.cons_append, lineStart?.go, hsize, ← Nat.add_assoc]
    by_cases hc : c = '\n'
    · rw [if_pos hc]
      rw [hc, List.count_cons_self] at hcount
      exact ih _ (Nat.succ.inj hcount) hrest
    · rw [if_neg hc]
      rw [List.count_cons_of_ne hc] at hcount
      exact ih _ hcount hrest

/-- A line starts at the number of bytes before it. -/
theorem lineStart?_append {above : List Char} {line : ℕ} (h : StartsLine above line)
    (hline : 1 < line) (rest : List Char) :
    lineStart? (above ++ rest) line = some (size above) := by
  obtain ⟨hcount, hend⟩ := h
  rw [lineStart?, if_neg (Nat.not_le.mpr hline), go_eq_some 0 (by omega) hend, Nat.zero_add]

namespace Engine

variable {e : Engine} {s : Snippet} {file : String}

/-- The offset of a snippet is the number of bytes before it in its file. -/
theorem exists_offsetOf_eq (hread : e.workspace.read (e.relative s.fileName) = .ok file)
    (hstands : s.StandsIn file) :
    ∃ above below, file = above ++ s.text ++ below ∧
      (e.offsetOf s (e.relative s.fileName)).value = above.utf8ByteSize := by
  obtain ⟨above, below, rfl, habove⟩ := hstands
  refine ⟨above, below, rfl, ?_⟩
  rw [offsetOf]
  cases hline : s.startLine with
  | none =>
    rw [hline] at habove
    rw [habove]
    rfl
  | some line =>
    simp only [hline] at habove ⊢
    by_cases htop : (line ≤ 1 || s.isFullFile) = true
    · rw [if_pos htop] at habove ⊢
      rw [habove]
      rfl
    · rw [if_neg htop] at habove ⊢
      have hbelow : 1 < line := by
        simp only [Bool.or_eq_true, decide_eq_true_eq, not_or] at htop
        exact Nat.not_le.mp htop.1
      have hstart := lineStart?_append habove hbelow (s.text ++ below).toList
      rw [← String.toList_append, ← String.append_assoc] at hstart
      rw [Traced.value_bind, Workspace.open?, hread, Traced.value_pure, hstart,
        Option.getD_some, ← utf8ByteSize_ofList, String.ofList_toList]

/-- Every query of a ranking is one for an import of a snippet that counts. It points into the
snippet's source file, and if that file can be read and the snippet stands in it as its line number
says, it points at the specifier of the import. -/
theorem queries_score_point_at_specifiers (e : Engine) (snippets : List Snippet) :
    ((e.score snippets).queries = (snippets.filter counts).flatMap fun s =>
        (Import.extractLocal s.text).flatMap (e.queriesFor s)) ∧
      ∀ s file, e.workspace.read (e.relative s.fileName) = .ok file → s.StandsIn file →
        ∀ imp ∈ Import.extractLocal s.text, ∀ call ∈ e.queriesFor s imp,
          ∃ before after, file = before ++ imp.specifier ++ after ∧
            call = .query (Path.onto e.workspace.root (e.relative s.fileName))
              before.utf8ByteSize := by
  refine ⟨e.queries_score snippets, ?_⟩
  intro s file hread hstands imp himp call hcall
  obtain ⟨above, below, rfl, habove⟩ := exists_offsetOf_eq hread hstands
  obtain ⟨before, after, htext, hbefore⟩ :=
    Import.exists_split_of_mem_extract (List.mem_of_mem_filter himp)
  refine ⟨above ++ before, after ++ below, ?_, ?_⟩
  · rw [htext]
    simp only [String.append_assoc]
  · rw [Chain.eq_of_mem_queries hcall, requestOf, habove, String.utf8ByteSize_append, hbefore]

/-- A snippet from the second line of a file on, behind a character of two bytes and a carriage
return. -/
theorem queries_score_below_first_line :
    let file := "// é\r\nimport './b';\n"
    let s : Snippet :=
      { fileName := "src/a.ts", text := "import './b';\n", startLine := some 2 }
    let e : Engine :=
      { workspace := ⟨"/p", fun _ _ => .ok [], fun _ => .ok file⟩
        chain := [.definition (.asking fun _ _ => .ok [])]
        extensions := []
        limits := {} }
    (e.score [s]).queries = [.query "/p/src/a.ts" 15] ∧ s.StandsIn file ∧
      ∃ before after, file = before ++ "./b" ++ after ∧
        Call.query "/p/src/a.ts" 15 = .query "/p/src/a.ts" before.utf8ByteSize := by
  intro file s e
  have hstart : StartsLine "// é\r\n".toList 2 := by
    constructor <;> decide +kernel
  have hstands : s.StandsIn file := ⟨"// é\r\n", "", by decide +kernel, hstart⟩
  have hcall : .query "/p/src/a.ts" 15 ∈ e.queriesFor s ⟨"./b", 8⟩ := by decide +kernel
  have hsource : Path.onto e.workspace.root (e.relative s.fileName) = "/p/src/a.ts" := by
    decide +kernel
  refine ⟨by decide +kernel, hstands, ?_⟩
  rw [← hsource]
  exact (queries_score_point_at_specifiers e [s]).2 s file rfl hstands ⟨"./b", 8⟩
    (by decide +kernel) _ (hsource ▸ hcall)

end Engine

end ImportScout
