import ImportScout.Proofs.Rank.Ranking
import ImportScout.Proofs.Resolve.Probe
import ImportScout.Proofs.Workspace.Search

/-! # Suggestions are files

Where imports are only probed, behind every suggestion there is a file that a search of the
workspace gave (`exists_found_of_mem_score`). So the suggestion is the path of a file that is there,
without its extension; the file is no third-party code, and on a disk no exclusion describes it
(`score_manual_finds`).
-/

namespace ImportScout.Engine

open ImportScout.Path

/-- Behind every suggestion by probing there is a file that a search gives. -/
theorem exists_found_of_mem_score {e : Engine} {o : ProbeOptions} (hchain : e.chain = .manual o)
    {snippets : List Snippet} {score : Score} (h : score ∈ (e.score snippets).value) :
    ∃ found, e.workspace.Finds found ∧ score.path = dropExtension (slashed found) ∧
      isVendored (slashed found) = false := by
  have hseen := List.mem_of_mem_filter ((e.isRanking_score snippets).mem_contenders h)
  obtain ⟨⟨s, -, -, hpath⟩, -⟩ := mem_seen_iff.mp hseen
  rw [importsOf_value, suggestionsFor_value, List.mem_eraseDups, List.mem_filterMap] at hpath
  obtain ⟨imp, -, hresolve⟩ := hpath
  rw [hchain, Chain.resolve_value, Option.map_eq_some_iff] at hresolve
  obtain ⟨file, hsettled, hfile⟩ := hresolve
  obtain ⟨found, hfinds, rfl, hnone⟩ := Chain.exists_found_of_settled_manual hsettled
  exact ⟨found, hfinds, hfile.symm, hnone⟩

/-- Where imports are only probed, every suggestion is the path of a file without its extension. The
file is there and is no third-party code; on a disk no exclusion describes it. -/
theorem score_manual_finds (o : ProbeOptions) (extensions : List String) (limits : Limits)
    (snippets : List Snippet) :
    (∀ s : Store, s.Built →
        ∀ suggestion ∈ (score ⟨s.toWorkspace, .manual o, extensions, limits⟩ snippets).value,
          ∃ file, suggestion.path = dropExtension file ∧ (s.get? file).isSome = true ∧
            isVendored file = false) ∧
      ∀ (w : FolderWorkspace) (d : Disk), d.top.IsOrdered → d.top.IsNamed → w.ReachesTexts d →
        ∀ suggestion ∈ (score ⟨w.toWorkspace d, .manual o, extensions, limits⟩ snippets).value,
          ∃ file, suggestion.path = dropExtension file ∧ d.isFile (w.pathTo file) = true ∧
            isVendored file = false ∧ w.isExcluded file = false := by
  constructor
  · intro s hs suggestion hmem
    obtain ⟨found, hfinds, hpath, hnone⟩ := exists_found_of_mem_score rfl hmem
    obtain ⟨pattern, files, hfind, hfound⟩ := hfinds.exists_mem
    rw [Store.find_toWorkspace] at hfind
    obtain ⟨hslashed, hthere, -⟩ := Store.isFound_of_mem_find hs hfind found hfound
    rw [hslashed] at hpath hnone
    exact ⟨found, hpath, hthere, hnone⟩
  · intro w d ordered named texts suggestion hmem
    obtain ⟨found, hfinds, hpath, hnone⟩ := exists_found_of_mem_score rfl hmem
    obtain ⟨pattern, files, hfind, hfound⟩ := hfinds.exists_mem
    rw [FolderWorkspace.find_toWorkspace] at hfind
    obtain ⟨hslashed, hthere, hkept⟩ :=
      FolderWorkspace.isFound_of_mem_find ordered named texts hfind found hfound
    rw [hslashed] at hpath hnone
    exact ⟨found, hpath, hthere, hnone, hkept⟩

/-- Two snippets import one file, which is found in a store and on a disk. -/
theorem score_manual_finds_shared_file :
    let snippets : List Snippet :=
      [.userCode "src/one.ts" "import '../core/a';", .userCode "src/two.ts" "import '../core/a';"]
    let s : Store := .ofList "/p" [("core/a.ts", "")]
    let w : FolderWorkspace := ⟨["p"], [], false⟩
    let d : Disk := ⟨.folder [("p", .folder [("core", .folder [("a.ts", .file .empty)])])], []⟩
    let o : ProbeOptions := ⟨[".ts"], []⟩
    (score ⟨s.toWorkspace, .manual o, [".ts"], {}⟩ snippets).value = [⟨"core/a", 2, 0⟩] ∧
      (score ⟨w.toWorkspace d, .manual o, [".ts"], {}⟩ snippets).value = [⟨"core/a", 2, 0⟩] ∧
      (∃ file, "core/a" = dropExtension file ∧ (s.get? file).isSome = true ∧
        isVendored file = false) ∧
      ∃ file, "core/a" = dropExtension file ∧ d.isFile (w.pathTo file) = true ∧
        isVendored file = false ∧ w.isExcluded file = false := by
  intro snippets s w d o
  have hstore : (score ⟨s.toWorkspace, .manual o, [".ts"], {}⟩ snippets).value =
      [⟨"core/a", 2, 0⟩] := by
    decide +kernel
  have hdisk : (score ⟨w.toWorkspace d, .manual o, [".ts"], {}⟩ snippets).value =
      [⟨"core/a", 2, 0⟩] := by
    decide +kernel
  have hreached : w.reached d = [["p", "core", "a.ts"]] := by
    apply FolderWorkspace.reached_of_files
    simp [Disk.Walker.files, Disk.Walker.entries, FolderWorkspace.walker,
      FolderWorkspace.prunes_ofText, w, d, prunedFolders, Node.at?, Node.entries]
  have texts : w.ReachesTexts d := by
    rw [FolderWorkspace.ReachesTexts, hreached]
    decide +kernel
  have hall := score_manual_finds o [".ts"] {} snippets
  refine ⟨hstore, hdisk, ?_, ?_⟩
  · exact hall.1 s (Store.built_ofList _ _) ⟨"core/a", 2, 0⟩ (hstore ▸ List.mem_cons_self)
  · exact hall.2 w d (by decide +kernel) (by decide +kernel) texts ⟨"core/a", 2, 0⟩
      (hdisk ▸ List.mem_cons_self)

end ImportScout.Engine
