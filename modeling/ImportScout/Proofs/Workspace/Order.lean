import Mathlib.Data.List.Sort
import Mathlib.Data.Set.List
import ImportScout.Proofs.Disk.Order
import ImportScout.Proofs.Path.Order
import ImportScout.Proofs.Workspace.Lookup

/-! # The order of searches

A search with wildcards gives files in the order in which they are tried: a store tries its files in
the order of their paths as texts (`Store.Built.sorted`), a folder of a disk in the order of a walk,
segment by segment (`FolderWorkspace.Mirrors.walked`). Over the same files both find the
same, but up to a limit they answer alike only as long as no file overtakes another
(`find_eq_find_iff_not_overtakes`).
-/

namespace ImportScout

open ImportScout.Path ImportScout.Disk

/-- Whether a path is worked out, is written with slashes and has no folder on it that a search
leaves out. -/
structure IsSource (path : String) : Prop where
  spelled : collapse? path = some path
  ne_empty : path ≠ ""
  unslashed : '\\' ∉ path.toList
  unvendored : isVendored path = false
  unpruned : FolderWorkspace.isPruned path = false

instance (path : String) : Decidable (IsSource path) :=
  decidable_of_iff (collapse? path = some path ∧ path ≠ "" ∧ '\\' ∉ path.toList ∧
      isVendored path = false ∧ FolderWorkspace.isPruned path = false)
    ⟨fun ⟨hspelled, hempty, hunslashed, hunvendored, hunpruned⟩ =>
        ⟨hspelled, hempty, hunslashed, hunvendored, hunpruned⟩,
      fun ⟨hspelled, hempty, hunslashed, hunvendored, hunpruned⟩ =>
        ⟨hspelled, hempty, hunslashed, hunvendored, hunpruned⟩⟩

variable {pattern : String} {glob : Glob}

/-! ## Stores -/

namespace Store

variable {s : Store}

theorem pairwise_put {path text : String} {files : List (String × String)}
    (h : files.Pairwise fun a b => a.1 < b.1) :
    (put path text files).Pairwise fun a b => a.1 < b.1 := by
  induction files with
  | nil => exact List.pairwise_singleton _ _
  | cons first files ih =>
    obtain ⟨hfirst, hfiles⟩ := List.pairwise_cons.mp h
    rw [put]
    split_ifs with hlt heq
    · refine List.pairwise_cons.mpr ⟨?_, h⟩
      exact List.forall_mem_cons.mpr ⟨hlt, fun entry hentry => hlt.trans (hfirst entry hentry)⟩
    · exact List.pairwise_cons.mpr ⟨fun entry hentry => heq ▸ hfirst entry hentry, hfiles⟩
    · refine List.pairwise_cons.mpr ⟨fun entry hentry => ?_, ih hfiles⟩
      rcases mem_put hentry with rfl | hentry
      · exact (lt_or_gt_of_ne heq).resolve_left hlt
      · exact hfirst entry hentry

/-- Files are kept in the order of their paths. -/
theorem Built.sorted (h : s.Built) : (s.files.map Prod.fst).Pairwise (· < ·) := by
  rw [List.pairwise_map]
  induction h with
  | empty root => exact List.Pairwise.nil
  | insert path text _ ih => exact pairwise_put ih
  | remove path _ ih => exact ih.filter _

/-- Whatever the limit, a search without wildcards takes from the one file that it looks up. -/
theorem find_of_literal (hliteral : Glob.isLiteral pattern = true) (limit : ℕ) :
    s.find pattern limit =
      .ok ((if (s.files.lookup (slashed pattern)).isSome && !isVendored (slashed pattern) then
        [slashed pattern] else []).take limit) := by
  rcases Nat.eq_zero_or_pos limit with rfl | hlimit
  · rw [find, if_pos rfl, List.take_zero]
  · rw [find, if_neg hlimit.ne', if_pos hliteral, List.take_of_length_le]
    split_ifs
    · exact hlimit
    · exact Nat.zero_le _

/-- Whatever the limit, a search with wildcards takes from the same files. -/
theorem find_of_glob (hwild : ¬Glob.isLiteral pattern = true)
    (hparsed : Glob.parse Glob.searchStyle pattern = .ok glob) (limit : ℕ) :
    s.find pattern limit = .ok (scan glob limit (s.files.map Prod.fst)) := by
  rw [find, if_neg hwild, hparsed]
  dsimp only
  split_ifs with hlimit hnone
  · rw [hlimit, scan, List.take_zero]
  · have hempty : (s.files.map Prod.fst).filter (fun path => !isVendored path) = [] :=
      List.filter_eq_nil_iff.mpr fun path hpath => by simp [List.all_eq_true.mp hnone path hpath]
    rw [scan, hempty, List.filter_nil, List.take_nil]
  · rfl

/-- A search with wildcards gives the first files of its own that the glob describes. -/
theorem find_wildcard (hpattern : IsWildcard pattern glob)
    (hfiles : ∀ path ∈ s.files.map Prod.fst, isVendored path = false) (limit : ℕ) :
    s.find pattern limit = .ok (((s.files.map Prod.fst).filter glob.accepts).take limit) := by
  have hkept : (s.files.map Prod.fst).filter (fun path => !isVendored path) =
      s.files.map Prod.fst :=
    List.filter_eq_self.mpr fun path hpath => by simp [hfiles path hpath]
  rw [find_of_glob (by simp [hpattern.wild]) hpattern.parsed, scan, hkept]

end Store

/-! ## Folders of a disk -/

namespace FolderWorkspace

variable {w : FolderWorkspace} {d : Disk} {s : Store}

/-- Whether a folder holds the files of a store, no others and no links, and excludes none. -/
structure Mirrors (w : FolderWorkspace) (d : Disk) (s : Store) : Prop where
  root : (d.top.at? w.root).any Node.isFolder = true
  linkless : Linkless d.top w.root
  exclusions : w.exclusions = []
  there : ∀ path ∈ s.files.map Prod.fst,
    ∃ content, d.top.at? (w.wayTo path) = some (.file content)
  only : ∀ place content, d.top.at? (w.root ++ place) = some (.file content) →
    ∃ path ∈ s.files.map Prod.fst, w.root ++ place = w.wayTo path

section Mirrors

variable (ordered : d.top.IsOrdered) (named : d.top.IsNamed) (mirrors : w.Mirrors d s)

include ordered named mirrors

/-- A walk shows the files of the store by their paths. -/
theorem Mirrors.exists_wayTo_of_mem_files {place : Place}
    (h : .ok place ∈ (w.walker d).files w.root) :
    ∃ path ∈ s.files.map Prod.fst, place = w.wayTo path := by
  obtain ⟨es, hes⟩ := Node.exists_folder_of_isFolder mirrors.root
  obtain ⟨hroot, hshows⟩ := shows_of_mem_files ordered named h
  obtain ⟨more, -, -, rfl, hne, hmore, -⟩ := id hshows
  obtain ⟨content, hfile⟩ := (shows_iff_of_linkless mirrors.linkless hes hne
    (List.forall_mem_append.mpr ⟨hroot, hmore⟩)).mp hshows
  exact mirrors.only more content hfile

omit named in
/-- A walk meets no fault. -/
theorem Mirrors.exists_files_eq :
    ∃ ways : List Place, (w.walker d).files w.root = ways.map .ok := by
  obtain ⟨ways, hways⟩ : (w.walker d).files w.root ∈ Set.range (List.map Except.ok) := by
    rw [Set.range_list_map]
    intro found hfound
    obtain ⟨way, rfl⟩ :=
      Walker.exists_ok_of_mem_files (w := w.walker d) ordered mirrors.linkless hfound
    exact ⟨way, rfl⟩
  exact ⟨ways, hways.symm⟩

variable (hfiles : ∀ path ∈ s.files.map Prod.fst, IsSource path)

include hfiles

theorem Mirrors.reachesTexts : w.ReachesTexts d := by
  intro place hplace name hname
  obtain ⟨path, hpath, rfl⟩ :=
    mirrors.exists_wayTo_of_mem_files ordered named (mem_files_of_mem_reached hplace)
  rw [wayTo, List.drop_left] at hname
  obtain ⟨seg, hseg, rfl⟩ := List.mem_map.mp hname
  rw [Raw.shown_ofText]
  exact ⟨Raw.isText_ofText seg, fun hslash =>
    (hfiles path hpath).unslashed (mem_of_mem_segments hseg _ hslash).1⟩

theorem Mirrors.mem_searchable_iff {path : String} :
    path ∈ w.searchable d ↔ path ∈ s.files.map Prod.fst := by
  rw [mem_searchable_iff_exists]
  constructor
  · rintro ⟨-, place, hplace, rfl⟩
    obtain ⟨path, hpath, rfl⟩ :=
      mirrors.exists_wayTo_of_mem_files ordered named (mem_files_of_mem_reached hplace)
    rwa [relative_wayTo (hfiles path hpath).unslashed]
  · intro hpath
    have hsource := hfiles path hpath
    obtain ⟨es, hes⟩ := Node.exists_folder_of_isFolder mirrors.root
    obtain ⟨hne, hnames, hjoined⟩ := names_of_spelled hsource.spelled hsource.ne_empty
    have hroot := (named.at? hes).2
    have hraw : ∀ name ∈ (segments path).map Raw.ofText, name.IsName := by
      rw [List.forall_mem_map]
      exact fun name hname => Raw.isName_ofText_iff.mpr (hnames name hname)
    have hnolink {more : Place} (hmore : more ≠ []) (h : ∀ name ∈ more, name.IsName) :
        ¬EndsInLink d.top (w.root ++ more) :=
      not_endsInLink_of_linkless mirrors.linkless hes hmore (List.forall_mem_append.mpr ⟨hroot, h⟩)
    have hnone (front : List String) (hne : front ≠ []) (hfront : front <+: segments path) :
        ¬EndsInLink d.top (w.root ++ front.map Raw.ofText) :=
      hnolink (by simpa using hne) fun name hname => hraw name ((hfront.map _).subset hname)
    have hfile : d.isFile (w.pathTo path) = true := by
      rw [← hjoined, isFile_pathTo_iff hroot hne hnames, shows_iff_of_linkless mirrors.linkless hes
        (by simpa using hne) (List.forall_mem_append.mpr ⟨hroot, hraw⟩)]
      exact mirrors.there path hpath
    have hunpruned : ∀ name ∈ segments path, name ∉ prunedFolders := by
      simpa [isPruned] using hsource.unpruned
    refine ⟨by simp [isExcluded, mirrors.exclusions], w.wayTo path, ?_,
      relative_wayTo hsource.unslashed⟩
    rw [wayTo_mem_reached_iff ordered named mirrors.root hsource.spelled hsource.ne_empty]
    refine ⟨hfile, fun name hname => hunpruned name (List.dropLast_subset _ hname), ?_, ?_, ?_⟩
    · rintro - ⟨front, hne, hfront, hlink⟩
      exact hnone front hne hfront hlink
    · rintro ⟨front, hne, hfront, hlink, -⟩
      exact hnone front hne hfront hlink
    · rintro _ ⟨more, name, rfl, hnames, -, -, hlink, -⟩
      rw [List.append_assoc] at hlink
      exact absurd hlink (hnolink (by simp) hnames)

/-- A walk of the folder yields the files of the store, in the order of their segments, and does not
halt. -/
theorem Mirrors.walked : w.halt? d = none ∧
    (w.searchable d).Pairwise (fun p q => segments p < segments q) ∧
      ∀ path, path ∈ w.searchable d ↔ path ∈ s.files.map Prod.fst := by
  obtain ⟨ways, hways⟩ := mirrors.exists_files_eq ordered
  refine ⟨?_, pairwise_searchable ordered named (mirrors.reachesTexts ordered named hfiles),
    fun path => mirrors.mem_searchable_iff ordered named hfiles⟩
  rw [halt?, hways, untilFault_map_ok]

end Mirrors

end FolderWorkspace

/-! ## Stores and folders -/

/-- Over the same files, a store and a folder of a disk answer a search with wildcards alike up to
every limit exactly if no file that is found overtakes another. In any case they find equally many
files, and without a limit the same ones. -/
theorem find_eq_find_iff_not_overtakes {s : Store} {w : FolderWorkspace} {d : Disk}
    (built : s.Built) (ordered : d.top.IsOrdered) (named : d.top.IsNamed) (mirrors : w.Mirrors d s)
    (hfiles : ∀ path ∈ s.files.map Prod.fst, IsSource path) (hpattern : IsWildcard pattern glob) :
    ((∀ limit, s.find pattern limit = w.find d pattern limit) ↔
      ∀ p ∈ s.files.map Prod.fst, ∀ q ∈ s.files.map Prod.fst,
        glob.accepts p = true → glob.accepts q = true → ¬Overtakes p q) ∧
      ∀ limit, ∃ found found',
        s.find pattern limit = .ok found ∧ w.find d pattern limit = .ok found' ∧
          found.length = found'.length ∧ (s.files.length ≤ limit → found.Perm found') := by
  obtain ⟨hhalt, hwalked, hmem⟩ := mirrors.walked ordered named hfiles
  have hstore := Store.find_wildcard hpattern fun path hpath => (hfiles path hpath).unvendored
  have hfolder (limit : ℕ) :
      w.find d pattern limit = .ok (((w.searchable d).filter glob.accepts).take limit) := by
    rw [FolderWorkspace.find_wildcard hpattern, hhalt]
    rfl
  generalize w.searchable d = walked at hwalked hmem hfolder
  have hperm : (s.files.map Prod.fst).Perm walked :=
    (List.perm_ext_iff_of_nodup built.sorted.nodup
      (hwalked.imp fun hlt => ne_of_apply_ne segments hlt.ne)).mpr fun path => (hmem path).symm
  have hfound := hperm.filter glob.accepts
  have hle : (walked.filter glob.accepts).length ≤ s.files.length := by
    rw [← List.length_map Prod.fst, hperm.length_eq]
    exact List.length_filter_le _ _
  constructor
  · have hnone : (∀ p ∈ s.files.map Prod.fst, ∀ q ∈ s.files.map Prod.fst,
        glob.accepts p = true → glob.accepts q = true → ¬Overtakes p q) ↔
        (walked.filter glob.accepts).Pairwise (· < ·) := by
      rw [pairwise_lt_iff_not_overtakes (hwalked.filter _)]
      simp only [List.mem_filter, hmem]
      exact ⟨fun h p hp q hq => h p hp.1 q hq.1 hp.2 hq.2,
        fun h p hp q hq haccepts haccepts' => h p ⟨hp, haccepts⟩ q ⟨hq, haccepts'⟩⟩
    rw [hnone]
    constructor
    · intro hsame
      have heq := hsame s.files.length
      rw [hstore, hfolder, Except.ok.injEq, List.take_of_length_le (hfound.length_eq ▸ hle),
        List.take_of_length_le hle] at heq
      exact heq ▸ built.sorted.filter _
    · intro hsorted limit
      have heq := (built.sorted.filter glob.accepts).eq_of_mem_iff hsorted fun _ => hfound.mem_iff
      rw [hstore, hfolder, heq]
  · intro limit
    refine ⟨_, _, hstore limit, hfolder limit, ?_, fun hlimit => ?_⟩
    · rw [List.length_take, List.length_take, hfound.length_eq]
    · rwa [List.take_of_length_le ((hfound.length_eq ▸ hle).trans hlimit),
        List.take_of_length_le (hle.trans hlimit)]

/-- Two files, neither of which overtakes the other. -/
theorem find_eq_find_side_by_side :
    let s : Store := .ofList "/p" [("a.ts", ""), ("b/c.ts", "")]
    let w : FolderWorkspace := ⟨["p"], [], false⟩
    let d : Disk := ⟨.folder [("p", .folder [("a.ts", .file .empty),
      ("b", .folder [("c.ts", .file .empty)])])], []⟩
    s.find "**" 1 = w.find d "**" 1 ∧ s.find "**" 2 = w.find d "**" 2 := by
  intro s w d
  have hpaths : s.files.map Prod.fst = ["a.ts", "b/c.ts"] := by decide +kernel
  have hnone : ∀ p ∈ s.files.map Prod.fst, ∀ q ∈ s.files.map Prod.fst, ¬Overtakes p q := by
    rw [hpaths]
    exact (pairwise_lt_iff_not_overtakes (by decide +kernel)).mp (by decide +kernel)
  have mirrors : w.Mirrors d s := by
    refine ⟨rfl, ?_, rfl, ?_, ?_⟩
    · intro place target hlink
      have hmem := Node.mem_places hlink
      simp [d, w, Node.places, Node.placesOf] at hmem
    · rw [hpaths]
      exact List.forall_mem_cons.mpr
        ⟨⟨.empty, by rfl⟩, List.forall_mem_singleton.mpr ⟨.empty, by rfl⟩⟩
    · intro place content hfile
      have hmem := Node.mem_places hfile
      rw [hpaths]
      simp [d, w, Node.places, Node.placesOf] at hmem
      rcases hmem with ⟨rfl, -⟩ | ⟨rfl, -⟩
      · decide +kernel
      · decide +kernel
  have hfiles : ∀ path ∈ s.files.map Prod.fst, IsSource path := by decide +kernel
  have hsame := (find_eq_find_iff_not_overtakes (Store.built_ofList _ _) (by decide +kernel)
    (by decide +kernel) mirrors hfiles isWildcard_doubleStar).1.mpr
      fun p hp q hq _ _ => hnone p hp q hq
  exact ⟨hsame 1, hsame 2⟩

/-- The first file of a store and the first file of a walk over the same files. -/
theorem find_first_of_overtaking :
    let s : Store := .ofList "/p" [("a.ts", ""), ("a/b.ts", "")]
    let w : FolderWorkspace := ⟨["p"], [], false⟩
    let d : Disk := ⟨.folder [("p", .folder [("a", .folder [("b.ts", .file .empty)]),
      ("a.ts", .file .empty)])], []⟩
    s.find "**" 1 = .ok ["a.ts"] ∧ w.find d "**" 1 = .ok ["a/b.ts"] := by
  intro s w d
  have hfiles : (w.walker d).files ["p"] = [.ok ["p", "a", "b.ts"], .ok ["p", "a.ts"]] := by
    simp [Walker.files, Walker.entries, FolderWorkspace.walker, FolderWorkspace.prunes_ofText, w, d,
      prunedFolders, Node.at?, Node.entries]
  rw [Store.find_wildcard isWildcard_doubleStar (by decide +kernel),
    FolderWorkspace.find_wildcard isWildcard_doubleStar, FolderWorkspace.searchable,
    FolderWorkspace.reached, FolderWorkspace.halt?, (hfiles : _ = _)]
  decide +kernel

end ImportScout
