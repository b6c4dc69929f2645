import ImportScout.Proofs.Resolve.Containment

/-! # What probing finds

Probing answers with what the first search gives that gives anything, provided that no search before
it fails (`firstHit_eq_some_iff`). So by whatever convention a specifier is read, the file that it
is taken for is an answer of a search (`Strategy.finds_of_byConvention`), and a chain that only
probes settles on such a file (`Chain.exists_found_of_settled_manual`).
-/

namespace ImportScout

/-- Whether the first file that some search of the workspace gives is `file`. -/
def Workspace.Finds (w : Workspace) (file : String) : Prop :=
  ∃ pattern, (w.probe pattern).value = .ok (some file)

/-- What a search finds is among the files that it gives. -/
theorem Workspace.Finds.exists_mem {w : Workspace} {file : String} (h : w.Finds file) :
    ∃ pattern files, w.find pattern 1 = .ok files ∧ file ∈ files := by
  obtain ⟨pattern, h⟩ := h
  rw [probe] at h
  cases hfind : w.find pattern 1 with
  | error fault =>
    rw [hfind] at h
    exact absurd h (by simp [Except.map])
  | ok files =>
    rw [hfind] at h
    exact ⟨pattern, files, hfind, List.mem_of_mem_head? (Except.ok.inj h)⟩

/-- The workspace that answers every search with the pattern itself. -/
def Workspace.echo (root : String) : Workspace where
  root := root
  find pattern _ := .ok [pattern]
  read path := .error (.notFound path)

namespace Probe

variable {w : Workspace} {extensions : List String} {file path : String}

/-- What probing finds for a path that is worked out, if there is one. -/
def forPath (w : Workspace) (extensions : List String) :
    (path : Option String) → Traced (Except Fault (Option String))
  | none => pure (.ok none)
  | some path => firstHit w (candidates path extensions)

theorem fileFor_eq_forPath (path : String) :
    fileFor w extensions path = forPath w extensions ((Path.collapse? path).filter (· ≠ "")) := by
  rw [fileFor]
  cases Path.collapse? path with
  | none => rfl
  | some spelled =>
    rw [Option.filter_some]
    by_cases hempty : spelled = ""
    · simp [hempty, forPath]
    · simp [hempty, forPath]

theorem forPath_echo (root : String) (path : Option String) :
    (forPath (.echo root) extensions path).value = .ok path := by
  cases path <;> rfl

/-- For different paths probing finds different files in some workspace. -/
theorem forall_forPath_eq_iff (root : String) (extensions : List String)
    (path path' : Option String) :
    (∀ w : Workspace, w.root = root → forPath w extensions path = forPath w extensions path') ↔
      path = path' := by
  constructor
  · intro h
    have hsame := congrArg Traced.value (h (.echo root) rfl)
    rw [forPath_echo, forPath_echo] at hsame
    exact Except.ok.inj hsame
  · rintro rfl w -
    rfl

/-- What a search tells: nothing if it gives no file, and else the file or its fault. -/
def told (result : Except Fault (Option String)) : Option (Except Fault (Option String)) :=
  match result with
  | .ok none => none
  | result => some result

theorem told_eq_none_iff {result : Except Fault (Option String)} :
    told result = none ↔ result = .ok none := by
  rcases result with fault | found | found <;> simp [told]

theorem told_eq_some_iff {result : Except Fault (Option String)} :
    told result = some (.ok (some file)) ↔ result = .ok (some file) := by
  rcases result with fault | found | found <;> simp [told]

theorem firstHit_value (patterns : List String) :
    (firstHit w patterns).value =
      (patterns.findSome? fun pattern => told (w.probe pattern).value).getD (.ok none) := by
  induction patterns with
  | nil => rfl
  | cons pattern patterns ih =>
    rw [firstHit, Traced.value_bind, List.findSome?_cons]
    rcases (w.probe pattern).value with fault | found | found
    · rfl
    · exact ih
    · rfl

/-- Probing gives a file exactly if some search gives it and all searches before give nothing. -/
theorem firstHit_eq_some_iff {patterns : List String} :
    (firstHit w patterns).value = .ok (some file) ↔
      ∃ before pattern after, patterns = before ++ pattern :: after ∧
        (w.probe pattern).value = .ok (some file) ∧
          ∀ other ∈ before, (w.probe other).value = .ok none := by
  have hdefault (found : Option (Except Fault (Option String))) :
      found.getD (.ok none) = .ok (some file) ↔ found = some (.ok (some file)) := by
    cases found <;> simp
  rw [firstHit_value, hdefault, List.findSome?_eq_some_iff]
  simp only [told_eq_some_iff, told_eq_none_iff]

/-- Searches that give nothing are made one after the other. -/
theorem firstHit_append {before : List String}
    (h : ∀ other ∈ before, (w.probe other).value = .ok none) (patterns : List String) :
    firstHit w (before ++ patterns) =
      ⟨(firstHit w patterns).value, before.map .find ++ (firstHit w patterns).calls⟩ := by
  induction before with
  | nil => rfl
  | cons other before ih =>
    rw [List.forall_mem_cons] at h
    rw [List.cons_append, firstHit]
    change Traced.andThen _ _ = _
    rw [Traced.andThen, h.1]
    dsimp only
    rw [ih h.2]
    rfl

/-- If no search gives anything, all of them are made. -/
theorem firstHit_of_miss {patterns : List String}
    (h : ∀ pattern ∈ patterns, (w.probe pattern).value = .ok none) :
    firstHit w patterns = ⟨.ok none, patterns.map .find⟩ := by
  have happend := firstHit_append h []
  rw [List.append_nil] at happend
  rw [happend, firstHit, Traced.value_pure, Traced.calls_pure, List.append_nil]

/-- The search that gives a file is the last one. -/
theorem firstHit_of_hit {before : List String} {pattern : String}
    (hmiss : ∀ other ∈ before, (w.probe other).value = .ok none)
    (hhit : (w.probe pattern).value = .ok (some file)) (after : List String) :
    firstHit w (before ++ pattern :: after) =
      ⟨.ok (some file), (before ++ [pattern]).map .find⟩ := by
  have hvalue : firstHit w (pattern :: after) = ⟨.ok (some file), [.find pattern]⟩ := by
    rw [firstHit]
    change Traced.andThen _ _ = _
    rw [Traced.andThen, hhit]
    rfl
  rw [firstHit_append hmiss, hvalue, List.map_append]
  rfl

theorem finds_of_firstHit {patterns : List String}
    (h : (firstHit w patterns).value = .ok (some file)) : w.Finds file := by
  obtain ⟨-, pattern, -, -, hpattern, -⟩ := firstHit_eq_some_iff.mp h
  exact ⟨pattern, hpattern⟩

theorem finds_of_fileFor (h : (fileFor w extensions path).value = .ok (some file)) :
    w.Finds file := by
  rw [fileFor] at h
  split at h
  · exact absurd h (by simp)
  · split at h
    · exact absurd h (by simp)
    · exact finds_of_firstHit h

end Probe

namespace Strategy

variable {w : Workspace} {extensions : List String} {file path : String}

theorem finds_of_inRoots {roots : List String}
    (h : (inRoots w extensions path roots).value = .ok (some file)) : w.Finds file := by
  induction roots with
  | nil => exact absurd h (by simp [inRoots])
  | cons root roots ih =>
    rw [inRoots, Traced.value_bind] at h
    split at h
    · exact absurd h (by simp)
    · rename_i found hfound
      obtain rfl := Option.some.inj (Except.ok.inj h)
      exact Probe.finds_of_fileFor hfound
    · exact ih h

theorem finds_of_bare {spec : String} (h : (bare w extensions spec).value = .ok (some file)) :
    w.Finds file := by
  rw [bare] at h
  split at h
  · split at h
    · rename_i path _
      rw [Traced.value_bind] at h
      cases hprobe : (w.probe path).value with
      | error fault =>
        rw [hprobe] at h
        exact absurd h (by simp)
      | ok found =>
        rw [hprobe] at h
        cases found with
        | none => exact Probe.finds_of_fileFor h
        | some found =>
          obtain rfl : found = file := by simpa using h
          exact ⟨path, hprobe⟩
    · rw [Traced.value_bind, Traced.value_pure] at h
      exact Probe.finds_of_fileFor h
  · rw [Traced.value_bind, Traced.value_pure] at h
    exact Probe.finds_of_fileFor h

/-- The file that a specifier is taken for is one that a search gives. -/
theorem finds_of_byConvention {o : ProbeOptions} {req : Request}
    (h : (byConvention o w req).value = .ok (some file)) : w.Finds file := by
  rw [byConvention] at h
  split at h
  · split at h
    · exact absurd h (by simp)
    · exact Probe.finds_of_fileFor h
  · split at h
    · exact finds_of_inRoots h
    · exact Probe.finds_of_fileFor h
    · exact finds_of_bare h

theorem resolve_manual_value {o : ProbeOptions} {req : Request} :
    ((Strategy.manual o).resolve w req).value = some file ↔
      (byConvention o w req).value = .ok (some file) := by
  rw [resolve, Traced.value_bind]
  rcases (byConvention o w req).value with fault | found
  · simp
  · simp

end Strategy

/-- A chain that only probes settles on a file that a search gives. -/
theorem Chain.exists_found_of_settled_manual {o : ProbeOptions} {w : Workspace} {req : Request}
    {file : String} (h : settled w req (manual o) = some file) :
    ∃ found, w.Finds found ∧ Path.slashed found = file ∧ Path.isVendored file = false := by
  obtain ⟨s, hs, hfound⟩ := List.exists_of_findSome?_eq_some h
  obtain rfl := List.mem_singleton.mp hs
  obtain ⟨hmap, hnone⟩ := Option.filter_eq_some_iff.mp hfound
  obtain ⟨found, hresolve, rfl⟩ := Option.map_eq_some_iff.mp hmap
  exact ⟨found, Strategy.finds_of_byConvention (Strategy.resolve_manual_value.mp hresolve), rfl,
    by simpa using hnone⟩

end ImportScout
