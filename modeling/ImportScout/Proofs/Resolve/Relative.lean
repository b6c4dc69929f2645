import ImportScout.Workspace.Store
import ImportScout.Proofs.Path.Walk
import ImportScout.Proofs.Resolve.Probe

/-! # Where relative imports lead

A relative specifier is read from the folder of its file as this folder is spelled. That is the
place that it names (`Path.landing`) as long as the folders that it leaves are spelled by their
names: a `.` or a `..` that is taken back in place of a folder leads astray, and so does an absolute
file, which is read as if it were below the root (`Strategy.byConvention_eq_atPlace_iff`).
-/

namespace ImportScout

namespace Path

/-! ## Places and what is read -/

/-- The place that the specifier `spec` of the file `source` names: the way from the root to the
folder of the file and on along the specifier, worked out as a whole. -/
def landing (root source spec : String) : List String :=
  location (folder (onto root source) ++ "/" ++ spec)

/-- The path below the root that a relative specifier is taken for. -/
def read? (source spec : String) : Option String :=
  ((join? (folder source) spec).bind collapse?).filter (· ≠ "")

/-- What is left of a place below the root, if it is below the root. -/
def remainder? (root : String) (place : List String) : Option String :=
  if location root <+: place then
    (collapse? (ofSegments (place.drop (location root).length))).filter (· ≠ "")
  else none

/-- The folders of a file, innermost first, as they are spelled. -/
def foldersOf (source : String) : List String :=
  ((segments (folder source)).filter (· ≠ "")).reverse

/-! ## The way to a place -/

theorem foldl_place_filter (stack segs : List String) :
    (segs.filter (· ≠ "")).foldl place stack = segs.foldl place stack := by
  induction segs generalizing stack with
  | nil => rfl
  | cons seg segs ih =>
    by_cases hempty : seg = ""
    · subst hempty
      exact ih stack
    · rw [List.filter_cons_of_pos (by simpa using hempty)]
      exact ih (place stack seg)

theorem foldl_place_folder (path : String) (stack : List String) :
    (segments (folder path)).foldl place stack = (segments path).dropLast.foldl place stack := by
  obtain ⟨cs, rfl⟩ : ∃ cs, path = String.ofList cs := ⟨path.toList, by simp⟩
  rcases last_occurrence '/' cs with h | ⟨dir, name, rfl, h⟩
  · rw [folder_of_slash_not_mem h, segments_of_slash_not_mem h]
    rfl
  · rw [folder_append h, segments_append, segments_of_slash_not_mem h, List.dropLast_concat]

/-- What follows the root starts from the place of the root. -/
theorem foldl_place_onto {root source : String} (h : isAbsolute source = false) :
    (segments (onto root source)).dropLast.foldl place [] =
      (segments source).dropLast.foldl place (location root).reverse := by
  rw [location, List.reverse_reverse, onto, if_neg (by simp [h])]
  split
  · rename_i hroot
    have hempty : root = "" := by simpa using hroot
    subst hempty
    simp
    rfl
  · rename_i back hroot
    have hlist : root.toList = back.reverse ++ ['/'] := by
      rw [← List.reverse_reverse root.toList, hroot, List.reverse_cons]
    have hsegs := segments_append back.reverse []
    rw [← hlist, String.ofList_toList] at hsegs
    rw [hsegs, hlist, List.append_assoc, List.singleton_append, segments_append,
      String.ofList_toList, List.dropLast_append_of_ne_nil (segments_ne_nil source),
      List.foldl_append, List.foldl_append]
    rfl
  · rw [segments_append, String.ofList_toList, String.ofList_toList,
      List.dropLast_append_of_ne_nil (segments_ne_nil source), List.foldl_append]

/-- A place is reached from the root, or from the top if the file is absolute, by the folders of the
file and then by the specifier. -/
theorem reverse_landing (root source spec : String) :
    (landing root source spec).reverse =
      (segments spec).foldl place ((foldersOf source).reverse.foldl place
        (if isAbsolute source = true then [] else (location root).reverse)) := by
  rw [landing, location, List.reverse_reverse, segments_slash_append, List.foldl_append,
    foldersOf, List.reverse_reverse, foldl_place_filter, foldl_place_folder, foldl_place_folder]
  split_ifs with h
  · rw [onto, if_pos h]
  · rw [foldl_place_onto (by simpa using h)]

/-! ## What is read -/

theorem mem_segments_of_mem_foldersOf {source seg : String} (h : seg ∈ foldersOf source) :
    seg ∈ segments (folder source) :=
  List.mem_of_mem_filter (List.mem_reverse.mp h)

/-- Whether a specifier is read as a path by leaving the innermost folders of a file. What the
others lead to is `below`, and the specifier goes on from there through `ahead`; both are given
innermost first. -/
structure IsRead (source spec path : String) (ahead below : List String) : Prop where
  ahead_names : ∀ name ∈ ahead, IsName name
  below_names : ∀ name ∈ below, IsName name
  retreat_le : retreat (segments spec) ≤ (foldersOf source).length
  depth_eq : depth (segments spec) = ahead.length - retreat (segments spec)
  walk_eq : ∀ stack, retreat (segments spec) ≤ stack.length →
    walk stack (segments spec) = some (ahead ++ stack.drop (retreat (segments spec)))
  walk_kept : walk [] ((foldersOf source).drop (retreat (segments spec))).reverse = some below
  path_eq : path = ofSegments (ahead ++ below).reverse
  ne_empty : path ≠ ""

variable {root source spec path : String} {ahead below : List String}

theorem exists_isRead_of_read? (h : read? source spec = some path) :
    ∃ ahead below, IsRead source spec path ahead below := by
  rw [read?, Option.filter_eq_some_iff, Option.bind_eq_some_iff] at h
  obtain ⟨⟨joined, hjoin, hcollapse⟩, hne⟩ := h
  obtain ⟨ahead, hahead, hdepth, hwalk⟩ := exists_walk_eq (segments spec)
  have hnames : ∀ name ∈ ahead, IsName name := by
    intro name hname
    obtain ⟨hmem, hidle, hup⟩ := hahead name hname
    exact isName_of_mem_segments hmem hidle hup
  rw [join?, Option.map_eq_some_iff] at hjoin
  obtain ⟨stack, hstack, rfl⟩ := hjoin
  change walk (foldersOf source) (segments spec) = some stack at hstack
  rw [hwalk] at hstack
  split_ifs at hstack with hle
  obtain rfl := Option.some.inj hstack
  set kept := (foldersOf source).drop (retreat (segments spec)) with hkept
  have hkeptSlash : ∀ seg ∈ kept.reverse, '/' ∉ seg.toList := by
    intro seg hseg
    rw [List.mem_reverse, hkept] at hseg
    exact slash_not_mem_of_mem_segments
      (mem_segments_of_mem_foldersOf (List.mem_of_mem_drop hseg))
  have hslash : ∀ seg ∈ (ahead ++ kept).reverse, '/' ∉ seg.toList := by
    rw [List.reverse_append, List.forall_mem_append]
    exact ⟨hkeptSlash, fun name hname => (hnames name (List.mem_reverse.mp hname)).slash_not_mem⟩
  by_cases hnil : (ahead ++ kept).reverse = []
  · -- then the root itself is read
    rw [hnil] at hcollapse
    obtain rfl := Option.some.inj hcollapse
    exact absurd hne (by decide)
  rw [collapse?_eq, segments_ofSegments hnil hslash, Option.map_eq_some_iff] at hcollapse
  obtain ⟨stop, hstop, rfl⟩ := hcollapse
  rw [List.reverse_append, walk_append, Option.bind_eq_some_iff] at hstop
  obtain ⟨below, hbelow, hahead'⟩ := hstop
  rw [walk_of_names (by simpa using hnames), List.reverse_reverse, Option.some.injEq] at hahead'
  exact ⟨ahead, below, {
    ahead_names := hnames
    below_names := fun name hname => (isName_of_mem_walk hkeptSlash hbelow name hname).1
    retreat_le := hle
    depth_eq := hdepth
    walk_eq := fun stack hlen => by rw [hwalk, if_pos hlen]
    walk_kept := hbelow
    path_eq := by rw [hahead']
    ne_empty := by simpa using hne }⟩

/-- If all folders that are left are names, the specifier is read as the place that it names. -/
theorem remainder?_landing_of_names (hread : read? source spec = some path)
    (hstart : isAbsolute source = false ∨ location root = [])
    (hleft : ∀ seg ∈ (foldersOf source).take (retreat (segments spec)), IsName seg) :
    remainder? root (landing root source spec) = some path := by
  obtain ⟨ahead, below, hread⟩ := exists_isRead_of_read? hread
  have hle := hread.retreat_le
  have hahead := hread.ahead_names
  have hbelow := hread.below_names
  set left := (foldersOf source).take (retreat (segments spec)) with hdef
  have hlength : left.length = retreat (segments spec) := by
    rw [hdef, List.length_take]
    omega
  have hup {names : List String} (hnames : ∀ name ∈ names, IsName name) : ".." ∉ names :=
    fun hmem => (hnames _ hmem).ne_up rfl
  have hbase : (if isAbsolute source = true then [] else (location root).reverse) =
      [] ++ (location root).reverse := by
    rcases hstart with habs | hroot
    · rw [if_neg (by simp [habs]), List.nil_append]
    · simp [hroot]
  -- from the root the way goes along the folders that are kept, those that are left, and back
  have hplace :
      (landing root source spec).reverse = (ahead ++ below) ++ (location root).reverse := by
    rw [reverse_landing, hbase,
      ← List.take_append_drop (retreat (segments spec)) (foldersOf source),
      List.reverse_append, List.foldl_append,
      foldl_place_append List.not_mem_nil hread.walk_kept,
      foldl_place_append (hup hbelow) (walk_of_names (by simpa using hleft)),
      List.reverse_reverse]
    refine foldl_place_append (hup (List.forall_mem_append.mpr ⟨hleft, hbelow⟩)) ?_ _
    rw [hread.walk_eq _ (by rw [List.length_append]; omega), List.drop_left' hlength]
  have hlanding : landing root source spec = location root ++ (ahead ++ below).reverse := by
    rw [← List.reverse_reverse (landing root source spec), hplace, List.reverse_append,
      List.reverse_reverse]
  have hnames : ∀ name ∈ (ahead ++ below).reverse, IsName name := fun name hname =>
    List.forall_mem_append.mpr ⟨hahead, hbelow⟩ name (List.mem_reverse.mp hname)
  rw [remainder?, hlanding, if_pos (List.prefix_append _ _), List.drop_left,
    collapse?_ofSegments hnames, ← hread.path_eq]
  simpa using hread.ne_empty

/-- A place is as deep as the root, the folders and the specifier together. -/
theorem depth_landing (root source spec : String) :
    depth (landing root source spec) =
      (if isAbsolute source = true then 0 else depth (location root)) +
        depth (foldersOf source) + depth (segments spec) := by
  have hstart : ∀ name ∈ (if isAbsolute source = true then [] else (location root).reverse),
      isIdle name = false := by
    split_ifs
    · simp
    · exact fun name hname => (mem_location (List.mem_reverse.mp hname)).2
  rw [← depth_reverse, reverse_landing, depth_foldl_place, depth_foldl_place hstart, depth_reverse]
  · split_ifs
    · rfl
    · rw [depth_reverse]
  · intro name hname
    rcases mem_foldl_place hname with hname | hname
    · exact hstart name hname
    · exact hname.2

/-- What is read is as deep as if the folders that are left had been names. -/
theorem IsRead.depth_segments (h : IsRead source spec path ahead below) :
    depth (segments path) = depth ((foldersOf source).drop (retreat (segments spec))) +
      retreat (segments spec) + depth (segments spec) := by
  have hslash : ∀ seg ∈ (ahead ++ below).reverse, '/' ∉ seg.toList := by
    rw [List.reverse_append, List.forall_mem_append]
    exact ⟨fun name hname => (h.below_names name (List.mem_reverse.mp hname)).slash_not_mem,
      fun name hname => (h.ahead_names name (List.mem_reverse.mp hname)).slash_not_mem⟩
  have hentered : depth ahead = ahead.length := depth_eq_length_iff.mpr fun name hname =>
    ⟨(h.ahead_names name hname).isIdle_eq, (h.ahead_names name hname).ne_up⟩
  have hkept : depth below = depth ((foldersOf source).drop (retreat (segments spec))) := by
    rw [← foldl_place_of_walk List.not_mem_nil h.walk_kept, depth_foldl_place (by simp), depth_nil,
      Int.zero_add, depth_reverse]
  rw [h.path_eq, depth_segments_ofSegments hslash, depth_reverse, depth_append, hentered, hkept,
    h.depth_eq]
  omega

/-- A specifier is read as the place that it names only if all folders that are left are names. -/
theorem names_of_remainder?_landing
    (hroot : isAbsolute source = true → ".." ∉ location root)
    (hread : read? source spec = some path)
    (h : remainder? root (landing root source spec) = some path) :
    (isAbsolute source = false ∨ location root = []) ∧
      ∀ seg ∈ (foldersOf source).take (retreat (segments spec)), IsName seg := by
  rw [remainder?] at h
  split_ifs at h with hinside
  obtain ⟨rest, hrest⟩ := hinside
  rw [← hrest, List.drop_left, Option.filter_eq_some_iff] at h
  have hslash : ∀ seg ∈ rest, '/' ∉ seg.toList := by
    intro seg hseg
    have hplace : seg ∈ landing root source spec := hrest ▸ List.mem_append_right _ hseg
    exact slash_not_mem_of_mem_segments (mem_location hplace).1
  have hdepth : depth rest = depth (segments path) := by
    rw [depth_segments_of_collapse? h.1, depth_segments_ofSegments hslash]
  obtain ⟨ahead, below, hread⟩ := exists_isRead_of_read? hread
  have hle := hread.retreat_le
  set left := (foldersOf source).take (retreat (segments spec)) with hleft
  set kept := (foldersOf source).drop (retreat (segments spec)) with hkept
  have hfolders : depth (foldersOf source) = depth left + depth kept := by
    rw [← depth_append, List.take_append_drop]
  have hlength : left.length = retreat (segments spec) := by
    rw [hleft, List.length_take]
    omega
  have hbound := depth_le_length left
  have hroots (habs : isAbsolute source = true) :
      depth (location root) = (location root).length :=
    depth_eq_length_iff.mpr fun seg hseg =>
      ⟨(mem_location hseg).2, fun heq => hroot habs (heq ▸ hseg)⟩
  have hplace := depth_landing root source spec
  rw [← hrest, depth_append, hdepth, hread.depth_segments, ← hkept, hfolders] at hplace
  -- the folders that are left lead down by as many steps as they are
  have hnames : depth left = left.length := by
    split_ifs at hplace with habs
    · have hdeep := hroots habs
      omega
    · omega
  refine ⟨?_, fun seg hseg => ?_⟩
  · by_cases habs : isAbsolute source = true
    · have hdeep := hroots habs
      rw [if_pos habs] at hplace
      exact Or.inr (List.length_eq_zero_iff.mp (by omega))
    · exact Or.inl (by simpa using habs)
  · obtain ⟨hidle, hup⟩ := depth_eq_length_iff.mp hnames seg hseg
    have hmem := mem_segments_of_mem_foldersOf (List.mem_of_mem_take hseg)
    exact isName_of_mem_segments hmem hidle hup

end Path

open ImportScout.Path

namespace Probe

variable {w : Workspace} {extensions : List String}

/-- What probing finds at a place of the disk: nothing outside the root, and below it what it finds
for the rest of the way. -/
def atPlace (w : Workspace) (extensions place : List String) :
    Traced (Except Fault (Option String)) :=
  if location w.root <+: place then
    fileFor w extensions (ofSegments (place.drop (location w.root).length))
  else pure (.ok none)

theorem atPlace_eq_forPath (place : List String) :
    atPlace w extensions place = forPath w extensions (remainder? w.root place) := by
  unfold atPlace remainder?
  split_ifs
  · exact fileFor_eq_forPath _
  · rfl

end Probe

namespace Strategy

variable {o : ProbeOptions} {req : Request}

theorem byConvention_eq_forPath (w : Workspace)
    (hdot : (slashed req.specifier).toList.head? = some '.') :
    byConvention o w req =
      Probe.forPath w o.extensions (read? req.source (slashed req.specifier)) := by
  unfold byConvention read?
  rw [if_pos (by simp [hdot])]
  cases join? (folder req.source) (slashed req.specifier) with
  | none => rfl
  | some joined => exact Probe.fileFor_eq_forPath joined

/-- A relative specifier is looked for at the place that it names, in every workspace with this
root, exactly if it leads nowhere both as it is read and by its place, or the file is relative (or
the root is the top) and every folder that the specifier leaves is spelled by its name. -/
theorem byConvention_eq_atPlace_iff (root : String) (o : ProbeOptions) (req : Request)
    (hroot : isAbsolute req.source = true → ".." ∉ location root)
    (hdot : (slashed req.specifier).toList.head? = some '.') :
    let spec := slashed req.specifier
    let place := landing root req.source spec
    (∀ w : Workspace, w.root = root →
        byConvention o w req = Probe.atPlace w o.extensions place) ↔
      (read? req.source spec = none ∧ remainder? root place = none) ∨
        (read? req.source spec ≠ none ∧
          (isAbsolute req.source = false ∨ location root = []) ∧
          ∀ seg ∈ (foldersOf req.source).take (retreat (segments spec)), IsName seg) := by
  intro spec place
  have hpaths : (∀ w : Workspace, w.root = root →
      byConvention o w req = Probe.atPlace w o.extensions place) ↔
        read? req.source spec = remainder? root place := by
    rw [← Probe.forall_forPath_eq_iff root o.extensions]
    refine forall_congr' fun w => forall_congr' fun hw => ?_
    rw [byConvention_eq_forPath w hdot, Probe.atPlace_eq_forPath, hw]
  rw [hpaths]
  cases hread : read? req.source spec with
  | none =>
    simp only [ne_eq, not_true_eq_false, false_and, true_and, or_false]
    exact eq_comm
  | some path =>
    simp only [reduceCtorEq, false_and, ne_eq, not_false_eq_true, true_and, false_or]
    rw [eq_comm]
    exact ⟨names_of_remainder?_landing hroot hread,
      fun ⟨hstart, hleft⟩ => remainder?_landing_of_names hread hstart hleft⟩

/-- A file that is spelled with `./` in front, and a specifier that leaves a folder with a name. -/
theorem byConvention_eq_atPlace_of_named_folder :
    let req : Request := ⟨"../lib/x", 0, "./src/app.ts"⟩
    (slashed req.specifier).toList.head? = some '.' ∧
      landing "/p" req.source (slashed req.specifier) = ["p", "lib", "x"] ∧
      ∀ w : Workspace, w.root = "/p" →
        byConvention .standard w req =
          Probe.atPlace w ProbeOptions.standard.extensions ["p", "lib", "x"] := by
  intro req
  have hdot : (slashed req.specifier).toList.head? = some '.' := by decide +kernel
  have hplace : landing "/p" req.source (slashed req.specifier) = ["p", "lib", "x"] := by
    decide +kernel
  refine ⟨hdot, hplace, ?_⟩
  rw [← hplace]
  refine (byConvention_eq_atPlace_iff "/p" .standard req (by decide +kernel) hdot).mpr (Or.inr ?_)
  decide +kernel

/-- A `.` and a `..` of the file are taken back in place of a folder, and an absolute file is read
below the root. -/
theorem byConvention_leads_astray :
    let o : ProbeOptions := .standard
    let s : Store := .ofList "/p" [("x.ts", ""), ("src/x.ts", ""), ("etc/x.ts", "")]
    let asRead (spec source : String) := (byConvention o s.toWorkspace ⟨spec, 0, source⟩).value
    let byPlace (spec source : String) :=
      (Probe.atPlace s.toWorkspace o.extensions (landing s.root source spec)).value
    (asRead "../x" "./a.ts" = .ok (some "x.ts") ∧ byPlace "../x" "./a.ts" = .ok none) ∧
      (asRead "../x" "src/./a.ts" = .ok (some "src/x.ts") ∧
        byPlace "../x" "src/./a.ts" = .ok (some "x.ts")) ∧
      (asRead "../x" "src/../a.ts" = .ok (some "src/x.ts") ∧
        byPlace "../x" "src/../a.ts" = .ok none) ∧
      (asRead "./x" "/etc/a.ts" = .ok (some "etc/x.ts") ∧
        byPlace "./x" "/etc/a.ts" = .ok none) := by
  decide +kernel

end Strategy

end ImportScout
