import ImportScout.Proofs.Disk.Reach
import ImportScout.Proofs.Workspace.Search

/-! # Looking up and walking

A folder of a disk is searched in two ways: a path without wildcards is looked up, and any other
pattern is tried on the files of a walk. Looking up finds a plain path exactly if it leads to a file
that is neither excluded nor pruned (`find_plain_eq_iff`). A walk yields the path under the same
exclusions if no folder on the way is pruned and the walk passes by this way
(`mem_searchable_iff`), which it does not if it leaves a link aside or halts before, or it yields
the path for another file whose name reads alike. So the two differ in links, in faults, in files
that are named like a pruned folder, and in names that no plain path spells
(`mem_searchable_iff_find`).
-/

namespace ImportScout

open ImportScout.Path ImportScout.Disk

/-! ## Wildcards -/

/-- Whether a pattern is read as a glob with wildcards, written with slashes and without `./` in
front. -/
structure IsWildcard (pattern : String) (glob : Glob) : Prop where
  wild : Glob.isLiteral pattern = false
  parsed : Glob.parse Glob.searchStyle pattern = .ok glob
  unslashed : '\\' ∉ pattern.toList
  dropHere_eq : dropHere pattern.toList = pattern.toList

theorem isWildcard_doubleStar : IsWildcard "**" ⟨.stops, [.leading]⟩ where
  wild := by decide
  parsed := by
    have hstars : Glob.Progress.doubleStar {} [] = (Glob.Progress.push {} .leading '*', []) := rfl
    simp [Glob.parse, Glob.read, hstars, Glob.Progress.push, Glob.searchStyle]
  unslashed := by decide
  dropHere_eq := by decide

namespace FolderWorkspace

variable {w : FolderWorkspace} {d : Disk} {path : String}

/-- A search with wildcards collects from the files of a walk those that the glob describes. -/
theorem find_wildcard {pattern : String} {glob : Glob} (hpattern : IsWildcard pattern glob)
    (limit : ℕ) :
    w.find d pattern limit =
      collect (w.halt? d) limit ((w.searchable d).filter glob.accepts) := by
  have hspelled : String.ofList (dropHere (slashed pattern).toList) = pattern := by
    rw [slashed_of_not_mem hpattern.unslashed, hpattern.dropHere_eq, String.ofList_toList]
  have hempty : pattern ≠ "" := by
    rintro rfl
    exact absurd hpattern.wild (by decide)
  rw [find, hspelled, hpattern.wild, hpattern.parsed]
  by_cases hlimit : limit = 0
  · subst hlimit
    cases hhalt : w.halt? d <;> simp [collect]
  · cases w.searchable d <;> simp [hlimit, hempty]

/-- What a walk yields is what some search for everything gives. -/
theorem mem_searchable_iff_exists_find :
    path ∈ w.searchable d ↔
      ∃ limit files, w.find d "**" limit = .ok files ∧ path ∈ files := by
  constructor
  · intro h
    refine ⟨(w.searchable d).length, w.searchable d, ?_, h⟩
    have hall : (w.searchable d).filter (Glob.mk .stops [.leading]).accepts = w.searchable d :=
      List.filter_eq_self.mpr fun _ _ => rfl
    rw [find_wildcard isWildcard_doubleStar, hall]
    cases hhalt : w.halt? d <;> simp [collect]
  · rintro ⟨limit, files, hfind, hmem⟩
    have hwild : ¬(Glob.isLiteral "**" = true) := by decide
    exact ((mem_findLiteral_or_mem_searchable hfind hmem).resolve_left fun h => hwild h.1).2

/-! ## Ways -/

/-- The way from the top of the disk to what a path below the root names. -/
def wayTo (w : FolderWorkspace) (path : String) : Place :=
  w.root ++ (segments path).map Raw.ofText

/-- A file on the way to a path is yielded by this path, unless it has a backslash. -/
theorem relative_wayTo (hslash : '\\' ∉ path.toList) : w.relative (w.wayTo path) = path := by
  have hshown : ((segments path).map Raw.ofText).map Raw.shown = segments path := by
    simp [List.map_map, Function.comp_def]
  rw [relative, wayTo, List.drop_left, hshown, ofSegments_segments, slashed_of_not_mem hslash]

/-- Whether a link stands on the way from the root to a path, its end included. -/
def MeetsLink (w : FolderWorkspace) (d : Disk) (path : String) : Prop :=
  ∃ front, front ≠ [] ∧ front <+: segments path ∧
    EndsInLink d.top (w.root ++ front.map Raw.ofText)

/-- Whether a link on the way from the root to a path leads back to where the way has been. -/
def Circles (w : FolderWorkspace) (d : Disk) (path : String) : Prop :=
  ∃ front, front ≠ [] ∧ front <+: segments path ∧
    EndsInLink d.top (w.root ++ front.map Raw.ofText) ∧
      LeadsBack d.top w.root (w.root ++ front.map Raw.ofText)

/-- Whether a walk passes by the way to a path: it leaves no link on the way aside, neither because
links are not followed nor because one leads back, and it does not halt before it comes there. -/
structure Passes (w : FolderWorkspace) (d : Disk) (path : String) : Prop where
  linkless : w.followLinks = false → ¬w.MeetsLink d path
  onward : ¬w.Circles d path
  unhalted : ∀ way, (w.walker d).HaltsAt w.root way → w.wayTo path < way

/-- Whether a path leads to a file that only its own name hides: it is named like a folder that is
pruned, but no folder on the way is, and no exclusion describes it. -/
structure IsHidden (w : FolderWorkspace) (d : Disk) (path : String) : Prop where
  file : d.isFile (w.pathTo path) = true
  kept : w.isExcluded path = false
  unpruned : ∀ name ∈ (segments path).dropLast, name ∉ prunedFolders
  named : lastName path ∈ prunedFolders

/-- Whether a walk yields a path for a file that it reaches on another way: some name on that way is
no text or has a backslash. -/
def YieldsOther (w : FolderWorkspace) (d : Disk) (path : String) : Prop :=
  w.isExcluded path = false ∧
    ∃ place ∈ w.reached d, place ≠ w.wayTo path ∧ w.relative place = path

/-! ## Looking up -/

/-- Looking for a plain path finds it if it leads to a file that is neither excluded nor pruned. -/
theorem find_plain_eq_iff (hpath : IsPlain path) {limit : ℕ} (hlimit : limit ≠ 0) :
    w.find d path limit = .ok [path] ↔
      isPruned path = false ∧ w.isExcluded path = false ∧ d.isFile (w.pathTo path) = true := by
  rw [find_plain hpath hlimit, findLiteral, hpath.spelled]
  dsimp only
  split_ifs with h
  · simpa [hpath.ne_empty, and_assoc] using h
  · simpa [hpath.ne_empty, and_assoc] using h

/-! ## Walking -/

/-- A walk takes all names of a way if it has no link at all where links are not followed, and none
that leads back where they are. -/
theorem forall_takes_iff :
    (∀ front, front ≠ [] → front <+: (segments path).map Raw.ofText →
        (w.walker d).Takes w.root (w.root ++ front)) ↔
      (w.followLinks = false → ¬w.MeetsLink d path) ∧ ¬w.Circles d path := by
  constructor
  · intro h
    have htakes (front : List String) (hne : front ≠ []) (hfront : front <+: segments path) :=
      h (front.map Raw.ofText) (by simpa using hne) (hfront.map _)
    constructor
    · rintro hfollow ⟨front, hne, hfront, hlink⟩
      exact absurd ((htakes front hne hfront hlink).1.symm.trans hfollow) (by decide)
    · rintro ⟨front, hne, hfront, hlink, hback⟩
      exact (htakes front hne hfront hlink).2 hback
  · rintro ⟨hmeets, hcircles⟩ _ hne hprefix hlink
    obtain ⟨front, hfront, rfl⟩ := List.prefix_map_iff.mp hprefix
    have hne : front ≠ [] := by simpa using hne
    constructor
    · by_contra hfollow
      exact hmeets (by simpa [walker] using hfollow) ⟨front, hne, hfront, hlink⟩
    · intro hback
      exact hcircles ⟨front, hne, hfront, hlink, hback⟩

section Walk

variable (ordered : d.top.IsOrdered) (named : d.top.IsNamed)
  (hroot : (d.top.at? w.root).any Node.isFolder = true)

include ordered named hroot

/-- A walk reaches what a path names, once it is worked out, if this is a file, no folder on the way
is pruned and the walk passes by. -/
theorem wayTo_mem_reached_iff (hspelled : collapse? path = some path) (hempty : path ≠ "") :
    w.wayTo path ∈ w.reached d ↔
      d.isFile (w.pathTo path) = true ∧
        (∀ name ∈ (segments path).dropLast, name ∉ prunedFolders) ∧ w.Passes d path := by
  obtain ⟨hne, hnames, hpath⟩ := names_of_spelled hspelled hempty
  obtain ⟨es, hes⟩ := Node.exists_folder_of_isFolder hroot
  have hfile := isFile_pathTo_iff (d := d) (named.at? hes).2 hne hnames
  rw [hpath] at hfile
  have hprunes : (∀ name ∈ ((segments path).map Raw.ofText).dropLast,
      (w.walker d).prunes name = false) ↔
        ∀ name ∈ (segments path).dropLast, name ∉ prunedFolders := by
    simp [← List.map_dropLast, walker, prunes_ofText]
  have hhalts : (∀ f : WalkFault, .error f ∈ (w.walker d).files w.root → w.wayTo path < f.way) ↔
      ∀ way, (w.walker d).HaltsAt w.root way → w.wayTo path < way := by
    constructor
    · intro h way hway
      obtain ⟨f, rfl, hf⟩ := (exists_fault_iff (w := w.walker d) ordered named hes).mpr hway
      exact h f hf
    · intro h f hf
      exact h _ ((exists_fault_iff (w := w.walker d) ordered named hes).mp ⟨f, rfl, hf⟩)
  rw [mem_reached_iff ordered, hhalts, mem_files_iff ordered named hes, wayTo, List.drop_left,
    Walker.GoesOn, hprunes, forall_takes_iff]
  constructor
  · rintro ⟨⟨hshows, ⟨hlinkless, honward⟩, hunpruned⟩, hunhalted⟩
    exact ⟨hfile.mpr hshows, hunpruned, hlinkless, honward, hunhalted⟩
  · rintro ⟨hisFile, hunpruned, hlinkless, honward, hunhalted⟩
    exact ⟨⟨hfile.mp hisFile, ⟨hlinkless, honward⟩, hunpruned⟩, hunhalted⟩

/-- A walk yields a path that is worked out if it reaches what the path names and no exclusion
describes it, or if it yields the path for something else. -/
theorem mem_searchable_iff (hspelled : collapse? path = some path) (hempty : path ≠ "")
    (hslash : '\\' ∉ path.toList) :
    path ∈ w.searchable d ↔
      (w.isExcluded path = false ∧ d.isFile (w.pathTo path) = true ∧
        (∀ name ∈ (segments path).dropLast, name ∉ prunedFolders) ∧ w.Passes d path) ∨
      w.YieldsOther d path := by
  rw [mem_searchable_iff_exists, ← wayTo_mem_reached_iff ordered named hroot hspelled hempty,
    YieldsOther, ← and_or_left]
  refine and_congr_right fun _ => ⟨?_, ?_⟩
  · rintro ⟨place, hplace, hpath⟩
    by_cases hown : place = w.wayTo path
    · exact Or.inl (hown ▸ hplace)
    · exact Or.inr ⟨place, hplace, hown, hpath⟩
  · rintro (hplace | ⟨place, hplace, -, hpath⟩)
    · exact ⟨_, hplace, relative_wayTo hslash⟩
    · exact ⟨place, hplace, hpath⟩

omit hroot in
/-- Where all names on the ways to files are texts without backslashes, no path is yielded for
something else. -/
theorem not_yieldsOther (texts : w.ReachesTexts d) : ¬w.YieldsOther d path := by
  rintro ⟨-, place, hplace, hother, rfl⟩
  exact hother (segments_relative ordered named texts hplace).1

/-- What looking for a plain path and a walk have to do with each other. Where looking for the path
finds it, a walk yields it exactly if it passes by its way, or comes to another file that reads
alike. Where looking for it does not find it, a walk yields it exactly if only the name of the file
is in the way of looking it up and the walk passes by, or for another file that reads alike. There
is none of these if all names are texts without backslashes. What a walk yields is what searching
for everything gives. -/
theorem mem_searchable_iff_find (hpath : IsPlain path) :
    (path ∈ w.searchable d ↔ ∃ limit files, w.find d "**" limit = .ok files ∧ path ∈ files) ∧
      (w.find d path 1 = .ok [path] →
        (path ∈ w.searchable d ↔ w.Passes d path ∨ w.YieldsOther d path)) ∧
      (w.find d path 1 ≠ .ok [path] →
        (path ∈ w.searchable d ↔ (w.IsHidden d path ∧ w.Passes d path) ∨ w.YieldsOther d path)) ∧
      (w.ReachesTexts d → ¬w.YieldsOther d path) := by
  have hpruned : isPruned path = false ↔
      (∀ name ∈ (segments path).dropLast, name ∉ prunedFolders) ∧
        lastName path ∉ prunedFolders := by
    obtain ⟨init, last, hspelled, hnames⟩ := hpath.exists_names
    have hsegs : segments path = init ++ [last] := by
      rw [hspelled, segments_ofSegments_concat hnames]
    have hlast : lastName path = last := by
      rw [hspelled, lastName_ofSegments_concat hnames]
    rw [isPruned, hsegs, hlast, List.dropLast_concat]
    simp
  refine ⟨mem_searchable_iff_exists_find, and_assoc.mp ⟨?_, not_yieldsOther ordered named⟩⟩
  rw [ne_eq, find_plain_eq_iff hpath Nat.one_ne_zero, hpruned,
    mem_searchable_iff ordered named hroot hpath.spelled hpath.ne_empty hpath.unslashed]
  constructor
  · rintro ⟨⟨hunpruned, -⟩, hkept, hfile⟩
    refine or_congr ⟨?_, ?_⟩ Iff.rfl
    · rintro ⟨-, -, -, hpasses⟩
      exact hpasses
    · exact fun hpasses => ⟨hkept, hfile, hunpruned, hpasses⟩
  · intro hmissed
    refine or_congr ⟨?_, ?_⟩ Iff.rfl
    · rintro ⟨hkept, hfile, hunpruned, hpasses⟩
      have hnamed : lastName path ∈ prunedFolders := by
        by_contra hnamed
        exact hmissed ⟨⟨hunpruned, hnamed⟩, hkept, hfile⟩
      exact ⟨⟨hfile, hkept, hunpruned, hnamed⟩, hpasses⟩
    · rintro ⟨⟨hfile, hkept, hunpruned, -⟩, hpasses⟩
      exact ⟨hkept, hfile, hunpruned, hpasses⟩

end Walk

/-- A file behind a link that a walk follows. -/
theorem mem_searchable_by_link :
    let w : FolderWorkspace := ⟨["p"], [], true⟩
    let d : Disk := ⟨.folder [("p", .folder [("core", .folder [("a.ts", .file .empty)]),
      ("lib", .link "core")])], []⟩
    w.find d "lib/a.ts" 1 = .ok ["lib/a.ts"] ∧ w.Passes d "lib/a.ts" ∧
      "lib/a.ts" ∈ w.searchable d := by
  intro w d
  have hlink : locateFrom d.top .content linkLimit [] ["p", "lib"] = .ok ["p", "core"] := by
    decide +kernel
  have hreached : w.reached d = [["p", "core", "a.ts"], ["p", "lib", "a.ts"]] := by
    apply reached_of_files
    simp [Walker.files, Walker.entries, hlink, walker, prunes_ofText, w, d, prunedFolders, Node.at?,
      Node.entries, Node.folderCount, Node.folderCountOf]
  have hmem : "lib/a.ts" ∈ w.searchable d := by
    rw [searchable, hreached]
    decide +kernel
  have hother : ¬w.YieldsOther d "lib/a.ts" := by
    rw [YieldsOther, hreached]
    decide +kernel
  have hfind : w.find d "lib/a.ts" 1 = .ok ["lib/a.ts"] := by decide +kernel
  have hpasses := ((mem_searchable_iff_find (by decide +kernel) (by decide +kernel)
    (by decide +kernel) (by decide +kernel)).2.1 hfind).mp hmem
  exact ⟨hfind, hpasses.resolve_right hother, hmem⟩

/-- Where looking up and walking differ: a link that leads back, a link that is not followed, a walk
that halts at a link that leads nowhere, a file that is named like a pruned folder, a name with a
backslash and a name that is no text. -/
theorem find_and_walk_differ :
    let w (followLinks : Bool) : FolderWorkspace := ⟨["p"], [], followLinks⟩
    let disk (es : List (Raw × Node)) : Disk := ⟨.folder [("p", .folder es)], []⟩
    let back := disk [("a", .folder [("f.ts", .file .empty), ("loop", .link "../a")])]
    let linked := disk [("a.ts", .file .empty), ("l.ts", .link "a.ts")]
    let dangling := disk [("b.ts", .link "gone"), ("z.ts", .file .empty)]
    let named := disk [("target", .file .empty)]
    let spelled := disk [("a\\b.ts", .file .empty)]
    let coded := disk [(⟨[0x61, 0xFF]⟩, .file .empty)]
    ((w true).find back "a/loop/f.ts" 1 = .ok ["a/loop/f.ts"] ∧
        "a/loop/f.ts" ∉ (w true).searchable back) ∧
      ((w false).find linked "l.ts" 1 = .ok ["l.ts"] ∧ "l.ts" ∉ (w false).searchable linked) ∧
      ((w true).find dangling "z.ts" 1 = .ok ["z.ts"] ∧ "z.ts" ∉ (w true).searchable dangling ∧
        (w true).find dangling "**" 1 = .error (.halted (.blocked ["p", "b.ts"] .missing))) ∧
      ((w false).find named "target" 1 = .ok [] ∧ "target" ∈ (w false).searchable named) ∧
      ((w false).find spelled "a/b.ts" 1 = .ok [] ∧ "a/b.ts" ∈ (w false).searchable spelled) ∧
      ((w false).find coded "a\uFFFD" 1 = .ok [] ∧ "a\uFFFD" ∈ (w false).searchable coded) := by
  intro w disk back linked dangling named spelled coded
  have hloop : locateFrom back.top .content linkLimit [] ["p", "a", "loop"] = .ok ["p", "a"] := by
    decide +kernel
  have hgone : locateFrom dangling.top .content linkLimit [] ["p", "b.ts"] = .error .missing := by
    decide +kernel
  have hback : ((w true).walker back).files ["p"] =
      [.ok ["p", "a", "f.ts"], .error (.loop ["p", "a", "loop"] ["p", "a"])] := by
    simp [Walker.files, Walker.entries, walker, prunes_ofText, w, hloop, back, disk, prunedFolders,
      Node.at?, Node.entries]
  have hlinked : ((w false).walker linked).files ["p"] = [.ok ["p", "a.ts"]] := by
    simp [Walker.files, Walker.entries, walker, w, linked, disk, Node.at?, Node.entries]
  have hdangling : ((w true).walker dangling).files ["p"] =
      [.error (.blocked ["p", "b.ts"] .missing), .ok ["p", "z.ts"]] := by
    simp [Walker.files, Walker.entries, walker, w, hgone, dangling, disk, Node.at?, Node.entries]
  have hnamed : ((w false).walker named).files ["p"] = [.ok ["p", "target"]] := by
    simp [Walker.files, Walker.entries, walker, w, named, disk, Node.at?, Node.entries]
  have hspelled : ((w false).walker spelled).files ["p"] = [.ok ["p", "a\\b.ts"]] := by
    simp [Walker.files, Walker.entries, walker, w, spelled, disk, Node.at?, Node.entries]
  have hcoded : ((w false).walker coded).files ["p"] = [.ok ["p", ⟨[0x61, 0xFF]⟩]] := by
    simp [Walker.files, Walker.entries, walker, w, coded, disk, Node.at?, Node.entries]
  have hhalted : (w true).find dangling "**" 1 =
      .error (.halted (.blocked ["p", "b.ts"] .missing)) := by
    rw [find_wildcard isWildcard_doubleStar, searchable, reached, halt?, (hdangling : _ = _)]
    rfl
  refine ⟨⟨?_, ?_⟩, ⟨?_, ?_⟩, ⟨?_, ?_, hhalted⟩, ⟨?_, ?_⟩, ⟨?_, ?_⟩, ?_, ?_⟩
  · decide +kernel
  · rw [searchable, reached, (hback : _ = _)]
    decide +kernel
  · decide +kernel
  · rw [searchable, reached, (hlinked : _ = _)]
    decide +kernel
  · decide +kernel
  · rw [searchable, reached, (hdangling : _ = _)]
    decide +kernel
  · decide +kernel
  · rw [searchable, reached, (hnamed : _ = _)]
    decide +kernel
  · decide +kernel
  · rw [searchable, reached, (hspelled : _ = _)]
    decide +kernel
  · decide +kernel
  · rw [searchable, reached, (hcoded : _ = _)]
    decide +kernel

end FolderWorkspace

end ImportScout
