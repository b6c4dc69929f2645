import ImportScout.Report
import ImportScout.Workspace.Store
import ImportScout.Proofs.Import.Extract
import ImportScout.Proofs.Path.Location
import ImportScout.Proofs.Rank.Ranking

/-! # Reports and suggestions

A report on the imports of a file and a ranking resolve imports in loops of their own. They agree:
the files that a report tells of are, in their order and each once, the project files that ranking
sees in the text (`Report.targets_ofImports`), and where the whole file is the only snippet and one
importing snippet is enough, they are the suggestions, but for the file itself
(`Report.targets_perm_score`).
-/

namespace ImportScout

open ImportScout.Path

/-- Whether ranking takes `name` for the name of the file that is kept under `source`. -/
structure Engine.Names (e : Engine) (name source : String) : Prop where
  ne_empty : name ≠ ""
  relative : e.relative name = source

namespace Engine

variable {e : Engine} {file name source code path : String}

/-! ## Names of a file -/

/-- A file that has a path below the root goes by the name that was given for it. -/
theorem names_of_relativeTo? (h : relativeTo? e.workspace.root file = some source)
    (hne : source ≠ "") : e.Names file source where
  ne_empty := by
    rintro rfl
    exact hne (Option.some.inj h).symm
  relative := by rw [relative, h, Option.getD_some]

/-- It goes by its path below the root as well, unless that is absolute once more. -/
theorem names_self (h : relativeTo? e.workspace.root file = some source) (hne : source ≠ "")
    (hrelative : isAbsolute source = false) : e.Names source source where
  ne_empty := hne
  relative := by
    rw [relative, relativeTo?, hrelative, if_neg Bool.false_ne_true, Option.getD_some,
      slashed_of_relativeTo? h]

/-! ## One whole file -/

/-- A whole file is located at its top. -/
theorem importsOf_fullFile (e : Engine) (name code : String) (origin : Origin) :
    (e.importsOf (.fullFile name code origin)).value =
      (e.suggestionsFor code (e.relative name) 0).value :=
  rfl

theorem extractLocal_empty : Import.extractLocal "" = [] := by
  decide +kernel

/-- The files that are seen in a whole file are its project files but for itself. -/
theorem mem_seen_fullFile_iff (hname : e.Names name source) :
    path ∈ e.seen [.fullFile name code .user] ↔
      path ∈ (e.suggestionsFor code source 0).value ∧ path ≠ key source := by
  have hnamed : ((Snippet.fullFile name code .user).fileName != "") = true :=
    bne_iff_ne.mpr hname.ne_empty
  have hpresent : e.present [.fullFile name code .user] = [key source] := by
    rw [present, List.filter_singleton, hnamed, cond_true, List.map_singleton]
    exact congrArg (fun rel => [key rel]) hname.relative
  -- an empty text does not count, but then it has no imports either
  have hcounts : path ∈ (e.suggestionsFor code source 0).value →
      counts (.fullFile name code .user) = true := by
    intro hpath
    have htext : ((Snippet.fullFile name code .user).text != "") = true := by
      rw [bne_iff_ne]
      rintro (rfl : code = "")
      rw [suggestionsFor_value, extractLocal_empty] at hpath
      exact absurd hpath List.not_mem_nil
    rw [counts, hnamed, htext]
    rfl
  rw [mem_seen_iff, hpresent, List.mem_singleton]
  simp only [List.mem_singleton, exists_eq_left, importsOf_fullFile, hname.relative]
  exact and_congr_left fun _ => and_iff_right_of_imp hcounts

/-- Where one importing snippet is enough and there is room for all of them, the suggestions for a
whole file are its project files but for itself. -/
theorem paths_score_fullFile (hname : e.Names name source) (hmin : e.limits.minFrequency ≤ 1)
    (room : (e.suggestionsFor code source 0).value.length ≤ e.limits.maxSuggestions) :
    ((e.score [.fullFile name code .user]).value.map Score.path).Perm
      ((e.suggestionsFor code source 0).value.filter (· ≠ key source)) := by
  have hnodup : (e.suggestionsFor code source 0).value.Nodup := by
    rw [suggestionsFor_value]
    exact nodup_eraseDups _
  have hcontenders : (e.contenders [.fullFile name code .user]).Perm
      ((e.suggestionsFor code source 0).value.filter (· ≠ key source)) := by
    rw [List.perm_ext_iff_of_nodup (e.nodup_contenders _) (hnodup.filter _),
      contenders_eq_seen hmin]
    intro path
    rw [mem_seen_fullFile_iff hname, List.mem_filter, decide_eq_true_eq]
  have hroom : (e.contenders [.fullFile name code .user]).length ≤ e.limits.maxSuggestions := by
    rw [hcontenders.length_eq]
    exact (List.length_filter_le _ _).trans room
  exact ((e.isRanking_score _).perm_contenders hroom).trans hcontenders

end Engine

namespace Report

variable {e : Engine} {file source code : String}

/-- The files that reports tell of, in their order and each once. -/
def targets (reports : List Report) : List String :=
  (reports.filterMap Report.target).eraseDups

theorem ofImports_value (e : Engine) (resolves : Bool) (source : String) (imps : List Import) :
    (ofImports e resolves source imps).value = imps.map fun imp =>
      ⟨imp, Specifier.isProjectLocal imp.specifier, (targetOf e resolves source imp).value⟩ := by
  induction imps with
  | nil => rfl
  | cons imp imps ih =>
    rw [ofImports, Traced.value_bind, Traced.value_bind, ih]
    rfl

/-- Reports that resolve tell of the files that ranking sees in the text. -/
theorem targets_ofImports (e : Engine) (code source : String) :
    targets (ofImports e true source (Import.extract code)).value =
      (e.suggestionsFor code source 0).value := by
  rw [targets, ofImports_value, Engine.suggestionsFor_value, List.filterMap_map,
    Import.extractLocal, List.filterMap_filter]
  refine congrArg _ (List.filterMap_congr fun imp _ => ?_)
  simp only [Function.comp_apply, targetOf, Bool.true_and, Nat.zero_add]
  split_ifs <;> rfl

/-- A file below the root that can be read has a report. The files that the report tells of, in
their order and each once, are those that ranking sees in the text from its top on. Let the file as
a whole be the only snippet, under any name that ranking takes for it: the name that was given, or
its path below the root, which the snippet has that is gathered for it, unless that path is absolute
once more. If one importing snippet is enough and there is room, the suggestions are the files that
the report tells of but for the file itself. -/
theorem targets_perm_score (e : Engine) (file source code : String)
    (hsource : relativeTo? e.workspace.root file = some source) (hne : source ≠ "")
    (hread : e.workspace.read source = .ok code) :
    ∃ reports, (ofFile e true file).value = .ok (source, reports) ∧
      targets reports = (e.suggestionsFor code source 0).value ∧
      (Bundle.ofFiles e.workspace [file]).value = .ok [.fullFile source code .user] ∧
      e.Names file source ∧ (isAbsolute source = false → e.Names source source) ∧
      ∀ name (l : Limits), e.Names name source → l.minFrequency ≤ 1 →
        (targets reports).length ≤ l.maxSuggestions →
          ((Engine.score { e with limits := l } [.fullFile name code .user]).value.map
            Score.path).Perm ((targets reports).filter (· ≠ key source)) := by
  have htargets := targets_ofImports e code source
  refine ⟨(ofImports e true source (Import.extract code)).value, ?_, htargets, ?_,
    Engine.names_of_relativeTo? hsource hne, Engine.names_self hsource hne, ?_⟩
  · rw [ofFile, hsource]
    dsimp only
    rw [Traced.value_bind, Workspace.open?, hread]
    rfl
  · rw [Bundle.ofFiles, hsource]
    dsimp only
    rw [Traced.value_bind, Workspace.open?, hread]
    rfl
  · intro name l hname hmin room
    rw [htargets, ← e.suggestionsFor_limits l] at room ⊢
    exact Engine.paths_score_fullFile (e := { e with limits := l })
      ⟨hname.ne_empty, hname.relative⟩ hmin room

/-- A file that imports another one twice, a package and itself. -/
theorem targets_perm_score_itself :
    let code := "import './b';\nimport '@/c';\nimport './b.ts';\nimport 'd';\nimport './a';\n"
    let s : Store := .ofList "/p" [("src/a.ts", code), ("src/b.ts", ""), ("lib/c.ts", "")]
    let provider : Provider := .asking fun _ offset =>
      .ok (if offset = 22 then ["/p/lib/c.ts"] else [])
    let e : Engine := ⟨s.toWorkspace, .standard provider ⟨[".ts"], []⟩, [".ts"], {}⟩
    ∃ reports, (ofFile e true "/p/./src/a.ts").value = .ok ("src/a.ts", reports) ∧
      targets reports = ["src/b", "lib/c", "src/a"] ∧
      ∀ name ∈ ["/p/./src/a.ts", "src/a.ts"],
        ((Engine.score { e with limits := ⟨3, 7, 1⟩ } [.fullFile name code .user]).value.map
          Score.path).Perm ["src/b", "lib/c"] := by
  intro code s provider e
  have hextract : Import.extract code =
      [⟨"./b", 8⟩, ⟨"@/c", 22⟩, ⟨"./b.ts", 36⟩, ⟨"d", 53⟩, ⟨"./a", 65⟩] :=
    (Import.eq_extract_of_perm (by decide +kernel) (by decide)).symm
  have hseen : (e.suggestionsFor code "src/a.ts" 0).value = ["src/b", "lib/c", "src/a"] := by
    rw [Engine.suggestionsFor, Import.extractLocal, hextract]
    decide +kernel
  obtain ⟨reports, hreports, htargets, -, hgiven, hbelow, hscore⟩ :=
    targets_perm_score e "/p/./src/a.ts" "src/a.ts" code (by decide +kernel) (by decide)
      (by decide +kernel)
  rw [hseen] at htargets
  refine ⟨reports, hreports, htargets, fun name hname => ?_⟩
  have hnames : e.Names name "src/a.ts" := by
    rcases List.mem_pair.mp hname with rfl | rfl
    · exact hgiven
    · exact hbelow (by decide)
  have hperm := hscore name ⟨3, 7, 1⟩ hnames (by decide) (by rw [htargets]; decide)
  have hkey : ["src/b", "lib/c", "src/a"].filter (· ≠ key "src/a.ts") = ["src/b", "lib/c"] := by
    decide +kernel
  rwa [htargets, hkey] at hperm

end Report

end ImportScout
