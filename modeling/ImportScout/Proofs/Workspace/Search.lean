import ImportScout.Workspace.Folder
import ImportScout.Workspace.Store
import ImportScout.Proofs.Disk.Order
import ImportScout.Proofs.Path.Absolute
import ImportScout.Proofs.Path.Location

/-! # What searches find

A search of a workspace finds files that are there. In a store that was filled file by file these
are files of the store outside of third-party code (`Store.isFound_of_mem_find`); in a folder of a
disk they are files below the folder that no exclusion describes, whether they are looked up or
walked to, as long as the names on the ways to them are texts without backslashes
(`FolderWorkspace.isFound_of_mem_find`). A walk yields what it reaches before its first fault
(`FolderWorkspace.mem_reached_iff`).
-/

namespace ImportScout

open ImportScout.Path

/-! ## Stores -/

namespace Store

/-- The stores that are filled and emptied file by file. -/
inductive Built : Store → Prop
  | empty (root : String) : Built ⟨root, []⟩
  | insert {s : Store} (path text : String) : Built s → Built (s.insert path text)
  | remove {s : Store} (path : String) : Built s → Built (s.remove path).2

theorem built_ofList (root : String) (files : List (String × String)) :
    Built (ofList root files) := by
  rw [ofList]
  induction files using List.reverseRecOn with
  | nil => exact Built.empty root
  | append_singleton files file ih =>
    rw [List.foldl_append]
    exact ih.insert file.1 file.2

theorem mem_put {path text : String} {files : List (String × String)} {entry : String × String}
    (h : entry ∈ put path text files) : entry = (path, text) ∨ entry ∈ files := by
  induction files with
  | nil => exact Or.inl (List.mem_singleton.mp h)
  | cons first files ih =>
    rw [put] at h
    split at h
    · exact List.mem_cons.mp h
    · split at h
      · exact (List.mem_cons.mp h).imp_right (List.mem_cons_of_mem _)
      · rcases List.mem_cons.mp h with rfl | h
        · exact Or.inr List.mem_cons_self
        · exact (ih h).imp_right (List.mem_cons_of_mem _)

theorem lookup_put_self (path text : String) (files : List (String × String)) :
    (put path text files).lookup path = some text := by
  induction files with
  | nil => simp [put]
  | cons first files ih =>
    rw [put]
    split_ifs with hlt heq
    · exact List.lookup_cons_self
    · exact List.lookup_cons_self
    · rw [List.lookup_cons, beq_false_of_ne heq, ih]

/-- A file that is put under another path does not change what is found under this one. -/
theorem lookup_put_of_ne {path other text : String} (hne : path ≠ other)
    (files : List (String × String)) : (put other text files).lookup path = files.lookup path := by
  induction files with
  | nil => simp [put, List.lookup_cons, beq_false_of_ne hne]
  | cons first files ih =>
    obtain ⟨key, content⟩ := first
    rw [put]
    split_ifs with hlt heq
    · rw [List.lookup_cons, beq_false_of_ne hne]
    · rw [← heq, List.lookup_cons, List.lookup_cons, beq_false_of_ne hne]
    · rw [List.lookup_cons, List.lookup_cons, ih]

/-- Files are kept under paths with slashes. -/
theorem Built.slashed_eq {s : Store} (h : s.Built) :
    ∀ entry ∈ s.files, slashed entry.1 = entry.1 := by
  induction h with
  | empty root => simp
  | insert path text _ ih =>
    intro entry hentry
    rcases mem_put hentry with rfl | hentry
    · exact slashed_slashed path
    · exact ih entry hentry
  | remove path _ ih => exact fun entry hentry => ih entry (List.mem_of_mem_filter hentry)

@[simp] theorem find_toWorkspace (s : Store) : s.toWorkspace.find = s.find := rfl

/-- The paths of a store are written with slashes. -/
theorem mem_paths_iff {s : Store} (hs : s.Built) {path : String} :
    path ∈ s.files.map Prod.fst ↔ slashed path = path ∧ (s.get? path).isSome = true := by
  constructor
  · intro hpath
    obtain ⟨entry, hentry, rfl⟩ := List.mem_map.mp hpath
    have hslashed := hs.slashed_eq entry hentry
    refine ⟨hslashed, ?_⟩
    rw [get?, hslashed]
    exact mem_keys_iff.mp hpath
  · rintro ⟨hslashed, hsome⟩
    rw [get?, hslashed] at hsome
    exact mem_keys_iff.mpr hsome

/-- What is found is no third-party code, and is what was looked up or the path of a file. -/
theorem mem_find_cases {s : Store} {pattern : String} {limit : ℕ} {files : List String}
    (h : s.find pattern limit = .ok files) {file : String} (hfile : file ∈ files) :
    isVendored file = false ∧
      ((file = slashed pattern ∧ (s.files.lookup file).isSome = true) ∨
        file ∈ s.files.map Prod.fst) := by
  unfold find at h
  dsimp only at h
  split_ifs at h with hlimit hliteral hkey hvendored
  · obtain rfl := Except.ok.inj h
    exact absurd hfile List.not_mem_nil
  · obtain rfl := Except.ok.inj h
    rw [Bool.and_eq_true, Bool.not_eq_true'] at hkey
    obtain rfl := List.mem_singleton.mp hfile
    exact ⟨hkey.2, Or.inl ⟨rfl, hkey.1⟩⟩
  · obtain rfl := Except.ok.inj h
    exact absurd hfile List.not_mem_nil
  · obtain rfl := Except.ok.inj h
    exact absurd hfile List.not_mem_nil
  · split at h
    · exact absurd h (by simp)
    · obtain rfl := Except.ok.inj h
      obtain ⟨hmem, hown⟩ :=
        List.mem_filter.mp (List.mem_of_mem_filter (List.mem_of_mem_take hfile))
      exact ⟨by simpa using hown, Or.inr hmem⟩

/-- What is found is written with slashes, is in the store and is no third-party code. -/
theorem isFound_of_mem_find {s : Store} (hs : s.Built) {pattern : String} {limit : ℕ}
    {files : List String} (h : s.find pattern limit = .ok files) :
    ∀ file ∈ files, slashed file = file ∧ (s.get? file).isSome = true ∧
      isVendored file = false := by
  intro file hfile
  obtain ⟨hown, ⟨rfl, hsome⟩ | hmem⟩ := mem_find_cases h hfile
  · exact ⟨slashed_slashed _, by rwa [get?, slashed_slashed], hown⟩
  · obtain ⟨hslashed, hsome⟩ := (mem_paths_iff hs).mp hmem
    exact ⟨hslashed, hsome, hown⟩

end Store

/-! ## Folders of a disk -/

namespace FolderWorkspace

variable {w : FolderWorkspace} {d : Disk}

@[simp] theorem find_toWorkspace (w : FolderWorkspace) (d : Disk) :
    (w.toWorkspace d).find = w.find d := rfl

/-- What is looked up is found, as it is worked out, if it is a file that is neither pruned nor
excluded. -/
theorem mem_findLiteral_iff {path file : String} :
    file ∈ w.findLiteral d path ↔ collapse? path = some file ∧ file ≠ "" ∧
      isPruned file = false ∧ w.isExcluded file = false ∧
        d.isFile (w.pathTo file) = true := by
  rw [findLiteral]
  cases hspelled : collapse? path with
  | none => simp
  | some spelled =>
    dsimp only
    split_ifs with hthere
    · simp only [Bool.and_eq_true, bne_iff_ne, Bool.not_eq_true'] at hthere
      rw [List.mem_singleton, Option.some.injEq, eq_comm]
      refine ⟨?_, And.left⟩
      rintro rfl
      exact ⟨rfl, hthere.1.1.1, hthere.1.1.2, hthere.1.2, hthere.2⟩
    · refine ⟨fun h => absurd h List.not_mem_nil, ?_⟩
      rintro ⟨heq, hempty, hunpruned, hkept, hfile⟩
      obtain rfl := Option.some.inj heq
      exact absurd (by simp [hempty, hunpruned, hkept, hfile]) hthere

/-- A path is looked up as it is worked out. -/
theorem findLiteral_congr {path path' : String} (h : collapse? path = collapse? path') :
    w.findLiteral d path = w.findLiteral d path' := by
  rw [findLiteral, findLiteral, h]

theorem length_findLiteral_le (path : String) : (w.findLiteral d path).length ≤ 1 := by
  rw [findLiteral]
  split
  · exact Nat.zero_le 1
  · split_ifs <;> simp

/-- A pattern without wildcards is looked up, written with slashes. -/
theorem find_of_literal {pattern : String} (hliteral : Glob.isLiteral pattern = true)
    {limit : ℕ} (hlimit : limit ≠ 0) :
    w.find d pattern limit = .ok (w.findLiteral d (slashed pattern)) := by
  have hdropped : collapse? (String.ofList (dropHere (slashed pattern).toList)) =
      collapse? (slashed pattern) := by
    rw [collapse?_dropHere, String.ofList_toList]
  have hwild : Glob.isLiteral (String.ofList (dropHere (slashed pattern).toList)) = true := by
    rw [isLiteral_dropHere, String.ofList_toList, isLiteral_slashed, hliteral]
  rw [find, ← findLiteral_congr hdropped]
  by_cases hempty : String.ofList (dropHere (slashed pattern).toList) = ""
  · -- the empty path is the root, which is no file
    have hroot : w.findLiteral d "" = [] := rfl
    simp [hempty, hroot]
  · simp [hlimit, hempty, hwild]

/-- A plain path is looked up. -/
theorem find_plain {path : String} (hpath : IsPlain path) {limit : ℕ} (hlimit : limit ≠ 0) :
    w.find d path limit = .ok (w.findLiteral d path) := by
  rw [find_of_literal hpath.literal hlimit, slashed_of_not_mem hpath.unslashed]

/-- What a workspace is made of: the place of a folder that is there, and the exclusions. -/
theorem ofPath_eq_ok {path : String} {exclusions : List String} {followLinks : Bool}
    (h : ofPath d path exclusions followLinks = .ok w) :
    (d.top.at? w.root).any Node.isFolder = true ∧
      readExclusions exclusions = .ok w.exclusions ∧ w.followLinks = followLinks := by
  rw [ofPath] at h
  split at h
  · exact absurd h (by simp)
  · split_ifs at h with hfolder
    cases hglobs : readExclusions exclusions with
    | error fault =>
      rw [hglobs] at h
      exact absurd h (by simp [Except.map])
    | ok globs =>
      rw [hglobs] at h
      obtain rfl := Except.ok.inj h
      exact ⟨hfolder, rfl, rfl⟩

/-! ### Folders that are not entered -/

theorem prunes_ofText (s : String) : prunes (Raw.ofText s) = prunedFolders.contains s := by
  simp only [prunes, Raw.ofText_beq_ofText, List.contains_eq_any_beq]

/-- A folder that is entered is not shown like one that is pruned. -/
theorem shown_not_mem_of_prunes {name : Raw} (h : prunes name = false) :
    name.shown ∉ prunedFolders := by
  intro hmem
  have htexts : ∀ folder ∈ prunedFolders, Text.replacement ∉ folder.toList := by decide
  rw [← Raw.isText_of_not_mem (htexts _ hmem), prunes_ofText] at h
  exact absurd (List.contains_iff_mem.mpr hmem) (h ▸ Bool.false_ne_true)

/-! ### Up to the first fault -/

theorem untilFault_map_ok {ε α : Type} (found : List α) :
    untilFault (found.map (.ok : α → Except ε α)) = (found, none) := by
  induction found with
  | nil => rfl
  | cons a found ih => rw [List.map_cons, untilFault, ih]

/-- What comes before the first fault stands in front. -/
theorem prefix_untilFault {ε α : Type} (found : List (Except ε α)) :
    (untilFault found).1.map .ok <+: found := by
  fun_induction untilFault found with
  | case1 => exact List.prefix_rfl
  | case2 f rest => exact List.nil_prefix
  | case3 a rest ih =>
    rw [List.map_cons, List.prefix_cons_inj]
    exact ih

/-- Where a list is in order, what comes before the first fault comes before all of them. -/
theorem mem_untilFault_iff {ε α : Type} {found : List (Except ε α)}
    {before : Except ε α → Except ε α → Prop} (asymm : ∀ {x y}, before x y → ¬before y x)
    (sorted : found.Pairwise before) {a : α} :
    a ∈ (untilFault found).1 ↔
      .ok a ∈ found ∧ ∀ f, .error f ∈ found → before (.ok a) (.error f) := by
  induction found with
  | nil => simp [untilFault]
  | cons first rest ih =>
    obtain ⟨hfirst, hrest⟩ := List.pairwise_cons.mp sorted
    cases first with
    | error f =>
      refine ⟨fun h => absurd h List.not_mem_nil, fun ⟨hmem, hbefore⟩ => ?_⟩
      have hlater := hfirst _ ((List.mem_cons.mp hmem).resolve_left (by simp))
      exact absurd hlater (asymm (hbefore f List.mem_cons_self))
    | ok b =>
      rw [untilFault, List.mem_cons, ih hrest]
      constructor
      · rintro (rfl | ⟨hmem, hbefore⟩)
        · exact ⟨List.mem_cons_self, fun f hf => hfirst _ (by simpa using hf)⟩
        · exact ⟨List.mem_cons_of_mem _ hmem, fun f hf => hbefore f (by simpa using hf)⟩
      · rintro ⟨hmem, hbefore⟩
        rcases List.mem_cons.mp hmem with heq | hmem
        · exact Or.inl (Except.ok.inj heq)
        · exact Or.inr ⟨hmem, fun f hf => hbefore f (List.mem_cons_of_mem _ hf)⟩

/-- The files of a walk are reached if the walk does not halt before. -/
theorem mem_reached_iff (ordered : d.top.IsOrdered) {place : Place} :
    place ∈ w.reached d ↔ .ok place ∈ (w.walker d).files w.root ∧
      ∀ f, .error f ∈ (w.walker d).files w.root → place < f.way :=
  mem_untilFault_iff List.lt_asymm (Disk.Walker.pairwise_files (w := w.walker d) ordered)

theorem mem_files_of_mem_reached {place : Place} (h : place ∈ w.reached d) :
    .ok place ∈ (w.walker d).files w.root :=
  (prefix_untilFault _).subset (List.mem_map_of_mem h)

theorem pairwise_reached (ordered : d.top.IsOrdered) : (w.reached d).Pairwise (· < ·) := by
  have hfiles : ((w.walker d).files w.root).Pairwise fun a b => Disk.wayOf a < Disk.wayOf b :=
    Disk.Walker.pairwise_files ordered
  have hreached := hfiles.sublist (prefix_untilFault _).sublist
  rwa [List.pairwise_map] at hreached

/-- A search considers the files that a walk reaches and no exclusion describes. -/
theorem mem_searchable_iff_exists {file : String} :
    file ∈ w.searchable d ↔ w.isExcluded file = false ∧ ∃ place ∈ w.reached d,
      w.relative place = file := by
  rw [searchable, List.mem_filter, List.mem_map, Bool.not_eq_true', and_comm]

/-- Whether all files that a search reaches have names without backslashes. -/
def ReachesUnslashed (w : FolderWorkspace) (d : Disk) : Prop :=
  ∀ place ∈ w.reached d, ∀ name ∈ place.drop w.root.length, '\\' ∉ name.shown.toList

/-- Whether all files that a search reaches have names that are texts without backslashes. -/
def ReachesTexts (w : FolderWorkspace) (d : Disk) : Prop :=
  ∀ place ∈ w.reached d, ∀ name ∈ place.drop w.root.length,
    name.IsText ∧ '\\' ∉ name.shown.toList

theorem ReachesTexts.unslashed (h : w.ReachesTexts d) : w.ReachesUnslashed d :=
  fun place hplace name hname => (h place hplace name hname).2

theorem reached_of_files {ways : List Place} (h : (w.walker d).files w.root = ways.map .ok) :
    w.reached d = ways := by
  rw [reached, h, untilFault_map_ok]

/-! ### Paths and places -/

/-- A path of names below the root is followed from the top of the disk. -/
theorem locate_pathTo (hroot : ∀ name ∈ w.root, name.IsName) {names : List String}
    (hne : names ≠ []) (hnames : ∀ name ∈ names, IsName name) :
    d.locate .content (w.pathTo (ofSegments names)) =
      Disk.locateFrom d.top .content Disk.linkLimit [] (w.root ++ names.map Raw.ofText) := by
  -- the path is absolute, and the segment in front of its first slash is empty
  have habs : (w.pathTo (ofSegments names)).isAbsolute = true :=
    Raw.isAbsolute_onto_ofPlace _ _
  have hpath : w.pathTo (ofSegments names) ≠ "" := by
    intro hempty
    rw [hempty] at habs
    exact absurd habs (by decide)
  have hsegs : (w.pathTo (ofSegments names)).segments =
      Raw.ofText "" :: (w.root ++ names.map Raw.ofText) := by
    rw [pathTo, Raw.segments_onto_ofPlace hroot, Raw.segments_ofText,
      segments_ofSegments hne fun name hname => (hnames name hname).slash_not_mem]
    rw [Raw.isAbsolute_ofText, isAbsolute_ofSegments hnames]
  rw [Disk.locate, if_neg hpath, Disk.start, if_pos habs, hsegs, Disk.locateFrom_idle (by decide)]

/-- A path of names below the root leads to a file if the way by these names does. -/
theorem isFile_pathTo_iff (hroot : ∀ name ∈ w.root, name.IsName) {names : List String}
    (hne : names ≠ []) (hnames : ∀ name ∈ names, IsName name) :
    d.isFile (w.pathTo (ofSegments names)) = true ↔
      Disk.Shows d.top w.root (w.root ++ names.map Raw.ofText) := by
  rw [Disk.isFile, Disk.node?, locate_pathTo hroot hne hnames]
  constructor
  · intro hfile
    cases hfound : Disk.locateFrom d.top .content Disk.linkLimit []
        (w.root ++ names.map Raw.ofText) with
    | error why => simp [hfound] at hfile
    | ok found =>
      rcases hnode : d.top.at? found with _ | ⟨content⟩ | ⟨target⟩ | ⟨es⟩
      · simp [hfound, hnode] at hfile
      · refine ⟨_, found, content, rfl, by simpa using hne, ?_, hfound, hnode⟩
        rw [List.forall_mem_map]
        exact fun name hname => Raw.isName_ofText_iff.mpr (hnames name hname)
      · simp [hfound, hnode, Node.isFile] at hfile
      · simp [hfound, hnode, Node.isFile] at hfile
  · rintro ⟨more', found, content, heq, -, -, hfound, hfile⟩
    rw [hfound]
    simp [hfile, Node.isFile]

/-- The path of what a walk shows, where no name on the way has a backslash. -/
theorem relative_eq {place : Place}
    (hunslashed : ∀ name ∈ place.drop w.root.length, '\\' ∉ name.shown.toList) :
    w.relative place = ofSegments ((place.drop w.root.length).map Raw.shown) := by
  rw [relative,
    slashed_of_not_mem (not_mem_ofSegments (by decide) (List.forall_mem_map.mpr hunslashed))]

/-- What is collected from a walk stands in it in the same order, and is not more than the limit. -/
theorem sublist_of_collect {halt : Option Disk.WalkFault} {limit : ℕ} {found files : List String}
    (h : collect halt limit found = .ok files) :
    files.Sublist found ∧ files.length ≤ limit := by
  unfold collect at h
  split at h
  · split_ifs at h
    obtain rfl := Except.ok.inj h
    exact ⟨List.take_sublist _ _, List.length_take_le _ _⟩
  · obtain rfl := Except.ok.inj h
    exact ⟨List.take_sublist _ _, List.length_take_le _ _⟩

/-- A search looks the pattern up if it describes itself only, and else collects from the files that
it considers. -/
theorem sublist_of_find {pattern : String} {limit : ℕ} {files : List String}
    (h : w.find d pattern limit = .ok files) :
    files.length ≤ limit ∧
      ((Glob.isLiteral pattern = true ∧ files.Sublist (w.findLiteral d (slashed pattern))) ∨
        (Glob.isLiteral pattern = false ∧ files.Sublist (w.searchable d))) := by
  by_cases hlimit : limit = 0
  · obtain rfl : files = [] := by simpa [find, hlimit] using h.symm
    cases hliteral : Glob.isLiteral pattern <;> simp
  cases hliteral : Glob.isLiteral pattern with
  | true =>
    rw [find_of_literal hliteral hlimit] at h
    obtain rfl := Except.ok.inj h
    have hone : (w.findLiteral d (slashed pattern)).length ≤ 1 := length_findLiteral_le _
    exact ⟨by omega, Or.inl ⟨rfl, List.Sublist.refl _⟩⟩
  | false =>
    have hwild : Glob.isLiteral (String.ofList (dropHere (slashed pattern).toList)) = false := by
      rw [isLiteral_dropHere, String.ofList_toList, isLiteral_slashed, hliteral]
    unfold find at h
    dsimp only at h
    rw [hwild, if_neg Bool.false_ne_true] at h
    have hcollected : files.length ≤ limit ∧ files.Sublist (w.searchable d) := by
      split_ifs at h
      · obtain rfl := Except.ok.inj h
        simp
      · split at h
        · obtain ⟨hnone, hlength⟩ := sublist_of_collect h
          exact ⟨hlength, hnone.trans (List.nil_sublist _)⟩
        · exact absurd h (by simp)
        · exact (sublist_of_collect h).symm.imp_right fun hsublist =>
            hsublist.trans List.filter_sublist
    exact hcollected.imp_right fun hsublist => Or.inr ⟨rfl, hsublist⟩

/-- What is found is found by looking up the pattern if it describes itself only, and else is one of
the files that a search considers. -/
theorem mem_findLiteral_or_mem_searchable {pattern : String} {limit : ℕ} {files : List String}
    (h : w.find d pattern limit = .ok files) {file : String} (hfile : file ∈ files) :
    (Glob.isLiteral pattern = true ∧ file ∈ w.findLiteral d (slashed pattern)) ∨
      (Glob.isLiteral pattern = false ∧ file ∈ w.searchable d) :=
  (sublist_of_find h).2.imp (And.imp_right fun hsublist => hsublist.subset hfile)
    (And.imp_right fun hsublist => hsublist.subset hfile)

/-- Whether a search may give `file`: it is written with slashes and is there as a file, and no
exclusion describes it. -/
def IsFound (w : FolderWorkspace) (d : Disk) (file : String) : Prop :=
  slashed file = file ∧ d.isFile (w.pathTo file) = true ∧ w.isExcluded file = false

theorem isFound_of_mem_findLiteral {path : String} (hpath : '\\' ∉ path.toList) {file : String}
    (h : file ∈ w.findLiteral d path) : w.IsFound d file := by
  obtain ⟨hspelled, -, -, hkept, hfile⟩ := mem_findLiteral_iff.mp h
  exact ⟨slashed_of_not_mem (not_mem_of_collapse? (by decide) hspelled hpath), hfile, hkept⟩

/-- Whatever is found is written with slashes. -/
theorem slashed_of_mem_find {pattern : String} {limit : ℕ} {files : List String}
    (h : w.find d pattern limit = .ok files) : ∀ file ∈ files, slashed file = file := by
  intro file hfile
  rcases mem_findLiteral_or_mem_searchable h hfile with ⟨-, hliteral⟩ | ⟨-, hsearchable⟩
  · exact (isFound_of_mem_findLiteral (backslash_not_mem_slashed pattern) hliteral).1
  · obtain ⟨-, place, -, rfl⟩ := mem_searchable_iff_exists.mp hsearchable
    exact slashed_slashed _

section Tree

variable (ordered : d.top.IsOrdered) (named : d.top.IsNamed) (texts : w.ReachesTexts d)

include ordered named texts

/-- The path of a file that a search reaches has the names of the way to it from the root. -/
theorem segments_relative {place : Place} (h : place ∈ w.reached d) :
    place = w.root ++ (segments (w.relative place)).map Raw.ofText ∧
      segments (w.relative place) ≠ [] ∧ (∀ name ∈ segments (w.relative place), IsName name) ∧
        ofSegments (segments (w.relative place)) = w.relative place := by
  obtain ⟨-, more, -, -, rfl, hne, hmore, -⟩ :=
    Disk.shows_of_mem_files ordered named (mem_files_of_mem_reached h)
  have hmoreTexts := texts _ h
  rw [List.drop_left] at hmoreTexts
  have hnames : ∀ name ∈ more.map Raw.shown, IsName name := by
    rw [List.forall_mem_map]
    exact fun name hname => (hmore name hname).shown
  have hsegs : segments (w.relative (w.root ++ more)) = more.map Raw.shown := by
    rw [relative_eq (texts.unslashed _ h), List.drop_left,
      segments_ofSegments (by simpa using hne) fun name hname => (hnames name hname).slash_not_mem]
  refine ⟨?_, segments_ne_nil _, hsegs ▸ hnames, ofSegments_segments _⟩
  rw [hsegs, Raw.map_ofText_shown fun name hname => (hmoreTexts name hname).1]

/-- A search considers files in the order of their segments. -/
theorem pairwise_searchable :
    (w.searchable d).Pairwise fun p q => segments p < segments q := by
  rw [searchable]
  refine List.Pairwise.filter _ (List.pairwise_map.mpr ?_)
  refine (pairwise_reached ordered).imp_of_mem fun {place place'} hplace hplace' hbefore => ?_
  rw [(segments_relative ordered named texts hplace).1,
    (segments_relative ordered named texts hplace').1] at hbefore
  exact Raw.map_ofText_lt_iff.mp (Disk.lt_of_append_lt hbefore)

theorem isFound_of_mem_searchable {file : String} (h : file ∈ w.searchable d) :
    w.IsFound d file := by
  obtain ⟨hexcluded, place, hplace, rfl⟩ := mem_searchable_iff_exists.mp h
  obtain ⟨hroot, hshows⟩ :=
    Disk.shows_of_mem_files ordered named (mem_files_of_mem_reached hplace)
  obtain ⟨hway, hne, hnames, hjoined⟩ := segments_relative ordered named texts hplace
  refine ⟨slashed_slashed _, ?_, hexcluded⟩
  rw [← hjoined, isFile_pathTo_iff hroot hne hnames, ← hway]
  exact hshows

/-- What is found is written with slashes and is there as a file, and no exclusion describes it. -/
theorem isFound_of_mem_find {pattern : String} {limit : ℕ} {files : List String}
    (h : w.find d pattern limit = .ok files) : ∀ file ∈ files, w.IsFound d file := by
  intro file hfile
  rcases mem_findLiteral_or_mem_searchable h hfile with ⟨-, hliteral⟩ | ⟨-, hsearchable⟩
  · exact isFound_of_mem_findLiteral (backslash_not_mem_slashed pattern) hliteral
  · exact isFound_of_mem_searchable ordered named texts hsearchable

end Tree

end FolderWorkspace

end ImportScout
