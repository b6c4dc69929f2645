import ImportScout.Proofs.Disk.Reach
import ImportScout.Proofs.Workspace.Search

/-! # Third-party code in searches

A search of a store never gives third-party code. A search of a folder of a disk keeps out of the
folders that it prunes (`FolderWorkspace.exists_names_of_mem_find`), and of the folders of
third-party code only `node_modules` is one of these: what it gives is third-party code exactly if
it is in one of the others, or is itself a file of that name that a walk has come by
(`isVendored_iff_of_mem_find`).
-/

namespace ImportScout

open ImportScout.Path ImportScout.Disk

variable {pattern : String} {limit : ℕ} {files : List String} {file : String}

namespace FolderWorkspace

variable {w : FolderWorkspace} {d : Disk}

/-- What is looked up has no pruned folder on it and is not named like one. -/
theorem exists_names_of_mem_findLiteral (h : file ∈ w.findLiteral d pattern) :
    ∃ init last, file = ofSegments (init ++ [last]) ∧ (∀ name ∈ init ++ [last], IsName name) ∧
      ∀ name ∈ init ++ [last], name ∉ prunedFolders := by
  obtain ⟨hspelled, hempty, hunpruned, -, -⟩ := mem_findLiteral_iff.mp h
  obtain ⟨init, last, rfl, hnames⟩ := exists_names_of_spelled hspelled hempty
  rw [isPruned, segments_ofSegments_concat hnames] at hunpruned
  refine ⟨init, last, rfl, hnames, fun name hname hpruned => ?_⟩
  exact List.any_eq_false.mp hunpruned name hname (List.contains_iff_mem.mpr hpruned)

section Tree

variable (ordered : d.top.IsOrdered) (named : d.top.IsNamed) (unslashed : w.ReachesUnslashed d)

include ordered named unslashed

/-- What a walk yields has no pruned folder on it. -/
theorem exists_names_of_mem_searchable (h : file ∈ w.searchable d) :
    ∃ init last, file = ofSegments (init ++ [last]) ∧ (∀ name ∈ init ++ [last], IsName name) ∧
      ∀ name ∈ init, name ∉ prunedFolders := by
  obtain ⟨-, place, hreached, rfl⟩ := mem_searchable_iff_exists.mp h
  have hplace := mem_files_of_mem_reached hreached
  obtain ⟨es, hes⟩ : ∃ es, d.top.at? w.root = some (.folder es) := by
    rw [Walker.files] at hplace
    split at hplace
    · exact ⟨_, by assumption⟩
    · exact absurd hplace List.not_mem_nil
  obtain ⟨hshows, hgoes⟩ := (mem_files_iff ordered named hes).mp hplace
  have hrelative := relative_eq (unslashed place hreached)
  obtain ⟨more, -, -, rfl, hne, hmore, -⟩ := hshows
  rw [List.drop_left] at hgoes hrelative
  obtain ⟨init, last, rfl⟩ := (List.eq_nil_or_concat' more).resolve_left hne
  have hprunes := hgoes.2
  rw [List.dropLast_concat] at hprunes
  refine ⟨init.map Raw.shown, last.shown, by rw [hrelative, List.map_append]; rfl, ?_, ?_⟩
  · rw [← List.map_singleton, ← List.map_append, List.forall_mem_map]
    exact fun name hname => (hmore name hname).shown
  · rw [List.forall_mem_map]
    exact fun name hname => shown_not_mem_of_prunes (hprunes name hname)

/-- What a search of a folder gives has no pruned folder on it, and is not named like one unless a
walk has come by it. -/
theorem exists_names_of_mem_find (h : w.find d pattern limit = .ok files) (hfile : file ∈ files) :
    ∃ init last, file = ofSegments (init ++ [last]) ∧ (∀ name ∈ init ++ [last], IsName name) ∧
      (∀ name ∈ init, name ∉ prunedFolders) ∧
        (Glob.isLiteral pattern = true → last ∉ prunedFolders) := by
  rcases mem_findLiteral_or_mem_searchable h hfile with ⟨-, hmem⟩ | ⟨hwild, hmem⟩
  · obtain ⟨init, last, hpath, hnames, hunpruned⟩ := exists_names_of_mem_findLiteral hmem
    rw [List.forall_mem_append, List.forall_mem_singleton] at hunpruned
    exact ⟨init, last, hpath, hnames, hunpruned.1, fun _ => hunpruned.2⟩
  · obtain ⟨init, last, hpath, hnames, hunpruned⟩ :=
      exists_names_of_mem_searchable ordered named unslashed hmem
    exact ⟨init, last, hpath, hnames, hunpruned, fun hliteral => by simp [hwild] at hliteral⟩

end Tree

end FolderWorkspace

/-- A search of a store gives no third-party code. A search of a folder of a disk gives nothing
below a pruned folder; what it gives is third-party code if it has one of the other folders of
third-party code on it, or if a walk has come by a file named `node_modules`. -/
theorem isVendored_iff_of_mem_find (s : Store) {w : FolderWorkspace} {d : Disk}
    (ordered : d.top.IsOrdered) (named : d.top.IsNamed) (unslashed : w.ReachesUnslashed d)
    (pattern : String) (limit : ℕ) :
    (∀ files, s.find pattern limit = .ok files → ∀ file ∈ files, isVendored file = false) ∧
      ∀ files, w.find d pattern limit = .ok files → ∀ file ∈ files,
        (∀ name ∈ (segments file).dropLast, name ∉ prunedFolders) ∧
          (isVendored file = true ↔
            "vendor" ∈ segments file ∨ "third_party" ∈ segments file ∨
              (Glob.isLiteral pattern = false ∧ lastName file = "node_modules")) := by
  constructor
  · exact fun files h file hfile => (Store.mem_find_cases h hfile).1
  · intro files h file hfile
    have hslashed := FolderWorkspace.slashed_of_mem_find h file hfile
    obtain ⟨init, last, rfl, hnames, hunpruned, hlast⟩ :=
      FolderWorkspace.exists_names_of_mem_find ordered named unslashed h hfile
    rw [isVendored_iff (hslashed ▸ backslash_not_mem_slashed _), segments_ofSegments_concat hnames,
      lastName_ofSegments_concat hnames, List.dropLast_concat]
    refine ⟨hunpruned, ?_, ?_⟩
    · rintro ⟨seg, hseg, hvendored⟩
      simp only [vendoredFolders, List.mem_cons, List.not_mem_nil, or_false] at hvendored
      rcases hvendored with rfl | rfl | rfl
      · -- a folder of this name is pruned, so it is the file
        obtain hmem | hmem := List.mem_append.mp hseg
        · exact absurd (by decide) (hunpruned _ hmem)
        · obtain rfl := List.mem_singleton.mp hmem
          refine Or.inr (Or.inr ⟨?_, rfl⟩)
          exact Bool.eq_false_iff.mpr fun hliteral => hlast hliteral (by decide)
      · exact Or.inl hseg
      · exact Or.inr (Or.inl hseg)
    · rintro (hseg | hseg | ⟨-, rfl⟩)
      · exact ⟨_, hseg, by decide⟩
      · exact ⟨_, hseg, by decide⟩
      · exact ⟨_, List.mem_append_right init List.mem_cons_self, by decide⟩

/-- A file of a project's own, in a store and on a disk. -/
theorem isVendored_of_own_file :
    let s : Store := .ofList "/p" [("core/a.ts", ""), ("vendor/b.ts", "")]
    let w : FolderWorkspace := ⟨["p"], [], false⟩
    let d : Disk := ⟨.folder [("p", .folder [("core", .folder [("a.ts", .file .empty)]),
      ("vendor", .folder [("b.ts", .file .empty)])])], []⟩
    s.find "core/a.ts" 1 = .ok ["core/a.ts"] ∧ isVendored "core/a.ts" = false ∧
      w.find d "core/a.ts" 1 = .ok ["core/a.ts"] ∧
      (isVendored "core/a.ts" = true ↔ "vendor" ∈ segments "core/a.ts" ∨
        "third_party" ∈ segments "core/a.ts" ∨
          (Glob.isLiteral "core/a.ts" = false ∧ lastName "core/a.ts" = "node_modules")) := by
  intro s w d
  have hstore : s.find "core/a.ts" 1 = .ok ["core/a.ts"] := by decide +kernel
  have hdisk : w.find d "core/a.ts" 1 = .ok ["core/a.ts"] := by decide +kernel
  have hreached : w.reached d = [["p", "core", "a.ts"], ["p", "vendor", "b.ts"]] := by
    apply FolderWorkspace.reached_of_files
    simp [Walker.files, Walker.entries, FolderWorkspace.walker, FolderWorkspace.prunes_ofText, w, d,
      prunedFolders, Node.at?, Node.entries]
  have unslashed : w.ReachesUnslashed d := by
    rw [FolderWorkspace.ReachesUnslashed, hreached]
    decide +kernel
  have hfound := isVendored_iff_of_mem_find s (by decide +kernel) (by decide +kernel) unslashed
    "core/a.ts" 1
  exact ⟨hstore, hfound.1 _ hstore _ List.mem_cons_self, hdisk,
    (hfound.2 _ hdisk _ List.mem_cons_self).2⟩

/-- A search of a folder gives third-party code that is not below a pruned folder. -/
theorem find_gives_third_party_code :
    let w : FolderWorkspace := ⟨["p"], [], false⟩
    let d : Disk := ⟨.folder [("p", .folder [("vendor", .folder [("lib", .folder
      [("util.js", .file .empty)])])])], []⟩
    w.find d "vendor/lib/util.js" 1 = .ok ["vendor/lib/util.js"] ∧
      isVendored "vendor/lib/util.js" = true := by
  decide +kernel

end ImportScout
