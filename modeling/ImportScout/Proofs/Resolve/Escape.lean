import ImportScout.Workspace.Store
import ImportScout.Proofs.Path.Walk
import ImportScout.Proofs.Resolve.Probe

/-! # Imports that climb above the root

A path that climbs is not even searched for. So an import with an alias or a slash in front that
climbs from every folder that it is read from finds nothing (`Strategy.byConvention_of_escapes`). A
bare import is read once more with its dots as slashes, and in this reading it has no `..` left: it
finds what the names in it lead to (`Strategy.resolve_eq_none_iff_of_escapes`).
-/

namespace ImportScout

open ImportScout.Path ImportScout.Text

namespace Specifier

/-- Whether a specifier starts neither with a dot nor with a slash nor with an alias. -/
def IsBare (spec : String) : Prop :=
  spec.toList.head? ≠ some '.' ∧ spec.toList.head? ≠ some '/' ∧ dropAlias? spec = none

instance (spec : String) : Decidable (IsBare spec) :=
  inferInstanceAs (Decidable (_ ∧ _ ∧ _))

/-- The ways that a specifier leads from the root, segment by segment: on from each of the alias
roots if it starts with an alias, and from the root itself if not. -/
def ways (aliasRoots : List String) (spec : String) : List (List String) :=
  match dropAlias? spec with
  | some path => aliasRoots.map fun root => segments root ++ segments path
  | none => [segments spec]

/-- Whether a specifier climbs above the root from everywhere that it is read from. -/
def Escapes (aliasRoots : List String) (spec : String) : Prop :=
  ∀ way ∈ ways aliasRoots spec, Climbs way

instance (aliasRoots : List String) (spec : String) : Decidable (Escapes aliasRoots spec) :=
  inferInstanceAs (Decidable (∀ way ∈ _, Climbs way))

/-- The names between the slashes and the dots of a specifier. -/
def moduleNames (spec : String) : List String :=
  ((splitWhere (fun c => c = '/' || c = '.') spec.toList).map String.ofList).filter (· ≠ "")

end Specifier

open ImportScout.Specifier

/-! ## Alias roots -/

theorem Probe.fileFor_of_climbs {path : String} (h : Climbs (segments path)) (w : Workspace)
    (extensions : List String) : fileFor w extensions path = pure (.ok none) := by
  rw [fileFor, (collapse?_eq_none_iff path).mpr h]

namespace Strategy

/-- Slashes at the end of a path only add empty segments. -/
theorem filter_segments_dropSlashes (path : String) :
    (segments (dropSlashes path)).filter (fun seg => !isIdle seg) =
      (segments path).filter fun seg => !isIdle seg := by
  obtain ⟨cs, rfl⟩ : ∃ cs, path = String.ofList cs := ⟨path.toList, by simp⟩
  induction cs using List.reverseRecOn with
  | nil => rfl
  | append_singleton cs c ih =>
    by_cases hc : c = '/'
    · have hdrop : dropSlashes (String.ofList (cs ++ ['/'])) = dropSlashes (String.ofList cs) := by
        simp [dropSlashes]
      have hend : (segments (String.ofList [])).filter (fun seg => !isIdle seg) = [] := by decide
      rw [hc, hdrop, ih, segments_append, List.filter_append, hend, List.append_nil]
    · simp [dropSlashes, hc]

theorem climbs_segments_below_root_iff (root path : String) :
    Climbs (segments (if root = "" then path else dropSlashes root ++ "/" ++ path)) ↔
      Climbs (segments root ++ segments path) := by
  split_ifs with hroot
  · have hnone : segments "" = [""] := by decide
    rw [hroot, hnone, climbs_iff_walk, climbs_iff_walk, List.singleton_append, walk_idle_cons rfl]
  · rw [segments_slash_append, ← climbs_filter, List.filter_append, filter_segments_dropSlashes,
      ← List.filter_append, climbs_filter]

theorem inRoots_of_climbs {roots : List String} {path : String}
    (h : ∀ root ∈ roots, Climbs (segments root ++ segments path)) (w : Workspace)
    (extensions : List String) : inRoots w extensions path roots = pure (.ok none) := by
  induction roots with
  | nil => rfl
  | cons root roots ih =>
    rw [List.forall_mem_cons] at h
    have hfile := Probe.fileFor_of_climbs ((climbs_segments_below_root_iff root path).mpr h.1) w
      extensions
    rw [inRoots, hfile]
    exact ih h.2

/-! ## Dots as slashes -/

variable {spec : String}

theorem segments_dotted (spec : String) :
    segments (dotted spec) =
      (splitWhere (fun c => c = '/' || c = '.') spec.toList).map String.ofList := by
  have hpieces (cs : List Char) : (cs.map fun c => if c = '.' then '/' else c).splitOn '/' =
      cs.splitOnP fun c => c = '/' || c = '.' := by
    induction cs with
    | nil => rfl
    | cons c cs ih =>
      rw [List.map_cons, List.splitOn_cons_eq_if_modifyHead, List.splitOnP_cons_eq_if_modifyHead,
        ih]
      by_cases hc : c = '.' <;> simp [hc]
  rw [segments, dotted, String.toList_ofList, hpieces, splitWhere]

theorem dot_not_mem_dotted (spec : String) : '.' ∉ (dotted spec).toList := by
  simp only [dotted, String.toList_ofList, List.mem_map, not_exists, not_and]
  intro c _ h
  split at h
  · exact absurd h (by decide)
  · rename_i hc
    exact hc h

theorem isName_of_mem_moduleNames : ∀ name ∈ moduleNames spec, IsName name := by
  intro name hname
  rw [moduleNames, ← segments_dotted, List.mem_filter] at hname
  have hchars := mem_of_mem_segments hname.1
  have hdot : '.' ∉ name.toList := fun hmem => dot_not_mem_dotted spec (hchars _ hmem).1
  refine ⟨by simpa using hname.2, ?_, ?_, fun hslash => (hchars _ hslash).2 rfl⟩
  · rintro rfl
    exact hdot (by decide)
  · rintro rfl
    exact hdot (by decide)

/-- With its dots as slashes, a specifier never climbs. -/
theorem collapse?_dotted (spec : String) :
    collapse? (dotted spec) = some (ofSegments (moduleNames spec)) := by
  have hnames : (segments (dotted spec)).filter (fun seg => !isIdle seg) = moduleNames spec := by
    rw [moduleNames, ← segments_dotted]
    refine List.filter_congr fun seg hseg => ?_
    have hhere : seg ≠ "." := by
      rintro rfl
      exact dot_not_mem_dotted spec (mem_of_mem_segments hseg '.' (by decide)).1
    by_cases hempty : seg = "" <;> simp [isIdle, hempty, hhere]
  rw [collapse?_eq, ← walk_filter, hnames, walk_of_names isName_of_mem_moduleNames,
    Option.map_some, List.append_nil, List.reverse_reverse]

theorem moduleNames_ne_nil {c : Char} {cs : List Char} (hspec : spec.toList = c :: cs)
    (hdot : c ≠ '.') (hslash : c ≠ '/') : moduleNames spec ≠ [] := by
  obtain ⟨first, rest, hcs⟩ :=
    List.exists_cons_of_ne_nil (List.splitOnP_ne_nil (fun c => c = '/' || c = '.') cs)
  have hmem : String.ofList (c :: first) ∈ moduleNames spec := by
    rw [moduleNames, splitWhere, hspec, List.splitOnP_cons_eq_if_modifyHead, hcs]
    simp [hdot, hslash]
  exact List.ne_nil_of_mem hmem

/-! ## Imports that escape -/

variable {o : ProbeOptions} {req : Request}

theorem bare_of_climbs (h : Climbs (segments spec)) (w : Workspace) (extensions : List String) :
    bare w extensions spec = Probe.fileFor w extensions (dotted spec) := by
  rw [bare, (collapse?_eq_none_iff spec).mpr h]
  dsimp only
  rw [ite_self]
  generalize dotted spec = path
  rfl

/-- What an import that escapes is looked for as: nothing, unless it is bare, and then the names in
it. -/
theorem byConvention_of_escapes (hdot : (slashed req.specifier).toList.head? ≠ some '.')
    (hescapes : Escapes o.aliasRoots (slashed req.specifier)) (w : Workspace) :
    byConvention o w req = Probe.forPath w o.extensions
      (if IsBare (slashed req.specifier) then
        some (ofSegments (moduleNames (slashed req.specifier)))
      else none) := by
  generalize hspec : slashed req.specifier = spec at hdot hescapes
  rw [Escapes, ways] at hescapes
  rw [byConvention, hspec, if_neg (by simpa using hdot)]
  cases halias : dropAlias? spec with
  | some path =>
    rw [halias, List.forall_mem_map] at hescapes
    rw [if_neg (by simp [IsBare, halias])]
    exact inRoots_of_climbs hescapes w o.extensions
  | none =>
    rw [halias, List.forall_mem_singleton] at hescapes
    cases hrooted : dropStart? ['/'] spec.toList with
    | some path =>
      rw [dropStart?_eq_some_iff] at hrooted
      rw [if_neg (by simp [IsBare, hrooted])]
      refine Probe.fileFor_of_climbs ?_ w o.extensions
      have hsegs := segments_slash_cons path
      rw [← List.singleton_append, ← hrooted, String.ofList_toList] at hsegs
      rwa [climbs_iff_walk, hsegs, walk_idle_cons rfl, ← climbs_iff_walk] at hescapes
    | none =>
      have hslash : spec.toList.head? ≠ some '/' := by
        intro hhead
        obtain ⟨rest, hrest⟩ := List.head?_eq_some_iff.mp hhead
        rw [dropStart?_eq_some_iff.mpr hrest] at hrooted
        exact absurd hrooted (by simp)
      have hne : spec.toList ≠ [] := by
        intro hempty
        obtain rfl := String.toList_eq_nil_iff.mp hempty
        exact absurd hescapes (by decide)
      obtain ⟨c, cs, hcs⟩ := List.exists_cons_of_ne_nil hne
      have hnames : moduleNames spec ≠ [] :=
        moduleNames_ne_nil hcs (by simpa [hcs] using hdot) (by simpa [hcs] using hslash)
      rw [if_pos ⟨hdot, hslash, halias⟩]
      change bare w o.extensions spec = _
      rw [bare_of_climbs hescapes, Probe.fileFor_eq_forPath, collapse?_dotted, Option.filter_some]
      simp [ofSegments_ne_empty hnames isName_of_mem_moduleNames]

/-- An import that climbs above the root from everywhere that it is read from finds nothing in any
workspace exactly if it is not bare, and then there is no search. A bare one finds what the names
between its slashes and dots lead to from the root. -/
theorem resolve_eq_none_iff_of_escapes (root : String) (o : ProbeOptions) (req : Request)
    (hdot : (slashed req.specifier).toList.head? ≠ some '.')
    (hescapes : Escapes o.aliasRoots (slashed req.specifier)) :
    let spec := slashed req.specifier
    ((∀ w : Workspace, w.root = root → ((Strategy.manual o).resolve w req).value = none) ↔
        ¬IsBare spec) ∧
      (¬IsBare spec → ∀ w : Workspace, (Strategy.manual o).resolve w req = pure none) ∧
        (IsBare spec → ∀ w : Workspace, byConvention o w req =
          Probe.firstHit w (Probe.candidates (ofSegments (moduleNames spec)) o.extensions)) := by
  intro spec
  have hread := byConvention_of_escapes hdot hescapes
  have hnothing (hbare : ¬IsBare spec) (w : Workspace) :
      (Strategy.manual o).resolve w req = pure none := by
    rw [resolve, hread, if_neg hbare]
    rfl
  refine ⟨⟨fun hnone hbare => ?_, fun hbare w _ => ?_⟩, hnothing, fun hbare w => ?_⟩
  · -- some workspace has a file under these names
    have hfound := hnone (.echo root) rfl
    rw [← Option.not_isSome_iff_eq_none] at hfound
    refine hfound ?_
    rw [resolve, Traced.value_bind, hread, if_pos hbare, Probe.forPath_echo]
    rfl
  · rw [hnothing hbare, Traced.value_pure]
  · rw [hread, if_pos hbare]
    rfl

/-- An alias with a way that leads out of each of the alias roots. -/
theorem resolve_eq_none_of_escaping_alias :
    let req : Request := ⟨"@/../../secret", 0, "src/a.ts"⟩
    (slashed req.specifier).toList.head? ≠ some '.' ∧
      Escapes ProbeOptions.standard.aliasRoots (slashed req.specifier) ∧
        ∀ w : Workspace, (Strategy.manual .standard).resolve w req = pure none := by
  intro req
  have hdot : (slashed req.specifier).toList.head? ≠ some '.' := by decide +kernel
  have hescapes : Escapes ProbeOptions.standard.aliasRoots (slashed req.specifier) := by
    decide +kernel
  obtain ⟨-, hnothing, -⟩ := resolve_eq_none_iff_of_escapes "/p" .standard req hdot hescapes
  exact ⟨hdot, hescapes, hnothing (by decide +kernel)⟩

/-- A bare import that climbs finds a file with its last name. -/
theorem resolve_escaping_bare_finds :
    let s : Store := .ofList "/p" [("lib/secret.ts", "")]
    let req : Request := ⟨"lib/../../secret", 0, "src/a.ts"⟩
    (slashed req.specifier).toList.head? ≠ some '.' ∧
      Escapes ProbeOptions.standard.aliasRoots (slashed req.specifier) ∧
        ((Strategy.manual .standard).resolve s.toWorkspace req).value = some "lib/secret.ts" := by
  decide +kernel

end Strategy

end ImportScout
