import ImportScout.Proofs.Workspace.Order
import ImportScout.Proofs.Workspace.ThirdParty

/-! # What a search leaves out

A folder of a disk is searched along two routes, and the exclusions and the pruned folders hold on
both: a path that is looked up is tried against them as a text, and a walk does not enter a pruned
folder and drops the files that are excluded. A walk comes by a file on one way only, so that no
path is given twice (`FolderWorkspace.nodup_of_find`).
-/

namespace ImportScout.FolderWorkspace

open ImportScout.Path ImportScout.Disk

variable {w : FolderWorkspace} {d d₀ : Disk} {path pattern : String}
  {exclusions files : List String} {followLinks : Bool} {limit : ℕ}

/-- Each exclusion is read as a glob of the workspace. -/
theorem exists_glob_of_readExclusions {globs : List Glob}
    (h : readExclusions exclusions = .ok globs) :
    ∀ exclusion ∈ exclusions, ∃ glob ∈ globs, Glob.parse exclusionStyle exclusion = .ok glob := by
  induction exclusions generalizing globs with
  | nil => simp
  | cons exclusion exclusions ih =>
    rw [readExclusions] at h
    cases hparse : Glob.parse exclusionStyle exclusion with
    | error fault => simp [hparse] at h
    | ok glob =>
      cases hothers : readExclusions exclusions with
      | error fault => simp [hparse, hothers, Except.map] at h
      | ok others =>
        rw [hparse, hothers] at h
        obtain rfl := Except.ok.inj h
        refine List.forall_mem_cons.mpr ⟨⟨glob, List.mem_cons_self, hparse⟩, fun other hother => ?_⟩
        obtain ⟨glob', hglob', hparse'⟩ := ih hothers other hother
        exact ⟨glob', List.mem_cons_of_mem glob hglob', hparse'⟩

/-- What no exclusion of a workspace describes is described by none of the globs it was given. -/
theorem accepts_eq_false_of_isExcluded {file : String}
    (hw : ofPath d₀ path exclusions followLinks = .ok w) (h : w.isExcluded file = false) :
    ∀ exclusion ∈ exclusions, ∃ glob,
      Glob.parse exclusionStyle exclusion = .ok glob ∧ glob.accepts file = false := by
  intro exclusion hexclusion
  obtain ⟨glob, hglob, hparse⟩ :=
    exists_glob_of_readExclusions (ofPath_eq_ok hw).2.1 exclusion hexclusion
  exact ⟨glob, hparse, by simpa using List.any_eq_false.mp h glob hglob⟩

section Tree

variable (ordered : d.top.IsOrdered) (named : d.top.IsNamed) (texts : w.ReachesTexts d)

include ordered named texts

/-- No path is found twice: at most one is looked up, and those of a walk are in the order of their
segments. -/
theorem nodup_of_find (h : w.find d pattern limit = .ok files) : files.Nodup := by
  rcases (sublist_of_find h).2 with ⟨-, hsublist⟩ | ⟨-, hsublist⟩
  · have hlength := hsublist.length_le.trans (length_findLiteral_le _)
    -- split without the search in sight, which the split would unfold
    clear hsublist
    match files, hlength with
    | [], _ => exact List.nodup_nil
    | [file], _ => exact List.nodup_singleton file
  · have hpairwise := (pairwise_searchable ordered named texts).sublist hsublist
    exact hpairwise.imp fun hlt => ne_of_apply_ne segments hlt.ne

/-- Whatever a search of a workspace finds, by looking the pattern up or by a walk: no glob that the
workspace was given to leave out describes it, no folder on it is pruned, nothing is found twice,
and not more than the limit. -/
theorem find_leaves_out (hw : ofPath d₀ path exclusions followLinks = .ok w) (pattern : String)
    (limit : ℕ) (h : w.find d pattern limit = .ok files) :
    (∀ file ∈ files,
        (∀ exclusion ∈ exclusions, ∃ glob,
          Glob.parse exclusionStyle exclusion = .ok glob ∧ glob.accepts file = false) ∧
        ∀ name ∈ (segments file).dropLast, name ∉ prunedFolders) ∧
      files.Nodup ∧ files.length ≤ limit := by
  refine ⟨fun file hfile => ⟨?_, ?_⟩, nodup_of_find ordered named texts h,
    (sublist_of_find h).1⟩
  · obtain ⟨-, -, hkept⟩ := isFound_of_mem_find ordered named texts h file hfile
    exact accepts_eq_false_of_isExcluded hw hkept
  · obtain ⟨init, last, rfl, hnames, hunpruned, -⟩ :=
      exists_names_of_mem_find ordered named texts.unslashed h hfile
    rw [segments_ofSegments_concat hnames, List.dropLast_concat]
    exact hunpruned

end Tree

/-- A walk beside an excluded folder and a pruned one. -/
theorem find_leaves_out_folders :
    let es : List (Raw × Node) := [("gen", .folder [("b.ts", .file .empty)]),
      ("src", .folder [("a.ts", .file .empty), ("c.ts", .file .empty)]),
      ("target", .folder [("d.ts", .file .empty)])]
    let d : Disk := ⟨.folder [("p", .folder es)], []⟩
    let w : FolderWorkspace := ⟨["p"],
      [⟨.crossed, [.literal 'g', .literal 'e', .literal 'n', .literal '/', .star]⟩], false⟩
    ofPath d "/p" ["gen/*"] false = .ok w ∧ w.find d "**" 2 = .ok ["src/a.ts", "src/c.ts"] ∧
      (∀ file ∈ ["src/a.ts", "src/c.ts"],
          (∀ exclusion ∈ ["gen/*"], ∃ glob,
            Glob.parse exclusionStyle exclusion = .ok glob ∧ glob.accepts file = false) ∧
          ∀ name ∈ (segments file).dropLast, name ∉ prunedFolders) ∧
        ["src/a.ts", "src/c.ts"].Nodup ∧ ["src/a.ts", "src/c.ts"].length ≤ 2 := by
  intro es d w
  have hw : ofPath d "/p" ["gen/*"] false = .ok w := by
    have hplace : d.locate .content "/p" = .ok ["p"] := by decide +kernel
    have hglob : Glob.parse exclusionStyle "gen/*" =
        .ok ⟨.crossed, [.literal 'g', .literal 'e', .literal 'n', .literal '/', .star]⟩ := by
      simp [Glob.parse, Glob.read, Glob.Progress.push, exclusionStyle]
    rw [ofPath, hplace]
    simp only [readExclusions, hglob]
    rfl
  have hfiles : (w.walker d).files ["p"] =
      [.ok ["p", "gen", "b.ts"], .ok ["p", "src", "a.ts"], .ok ["p", "src", "c.ts"]] := by
    simp [Walker.files, Walker.entries, walker, prunes_ofText, w, d, es, prunedFolders, Node.at?,
      Node.entries]
  have texts : w.ReachesTexts d := by
    rw [ReachesTexts, reached, (hfiles : _ = _)]
    decide +kernel
  have hfound : w.find d "**" 2 = .ok ["src/a.ts", "src/c.ts"] := by
    rw [find_wildcard isWildcard_doubleStar, searchable, reached, halt?, (hfiles : _ = _)]
    decide +kernel
  exact ⟨hw, hfound, find_leaves_out (by decide +kernel) (by decide +kernel) texts hw "**" 2
    hfound⟩

end ImportScout.FolderWorkspace
