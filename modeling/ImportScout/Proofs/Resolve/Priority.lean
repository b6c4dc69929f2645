import Mathlib.Order.Bounds.Basic
import ImportScout.Proofs.Path.Walk
import ImportScout.Proofs.Resolve.RoundTrip
import ImportScout.Proofs.Workspace.Order

/-! # Which file of a store is probed

Probing a store tries a few patterns one after the other. As long as the path has no character that
a glob reads in its own way, the first of them that is a file of the store's own wins, and no search
is made after that (`Probe.fileFor_store`). A path that has one is read as a glob like any other
pattern: what wins is the least of the files that the first pattern with any describes
(`Probe.fileFor_store_eq_some_iff`).
-/

namespace ImportScout

open ImportScout.Path

/-- What a pattern tells of a path: whether it describes the path, unless the pattern is no glob. A
pattern without wildcards describes itself, written with slashes, and nothing else. -/
def Glob.verdict (pattern path : String) : Except Glob.Fault Bool :=
  if isLiteral pattern then .ok (path == slashed pattern)
  else (parse searchStyle pattern).map (·.accepts path)

namespace Store

variable {s : Store} {pattern path file : String}

/-- The paths of the store that are no third-party code. -/
def own (s : Store) : List String :=
  (s.files.map Prod.fst).filter fun path => !isVendored path

theorem mem_own_iff :
    path ∈ s.own ↔ (s.files.lookup path).isSome = true ∧ isVendored path = false := by
  rw [own, List.mem_filter, mem_keys_iff, Bool.not_eq_true']

/-! ## One search -/

/-- The own paths come in order. -/
theorem Built.sorted_own (hs : s.Built) : s.own.Pairwise (· < ·) :=
  hs.sorted.filter _

theorem head?_eq_some_iff_isLeast {paths : List String} (h : paths.Pairwise (· < ·)) :
    paths.head? = some file ↔ IsLeast {path | path ∈ paths} file := by
  cases paths with
  | nil => simp [IsLeast]
  | cons first paths =>
    obtain ⟨hfirst, -⟩ := List.pairwise_cons.mp h
    have hleast : IsLeast {path | path ∈ first :: paths} first := by
      refine ⟨List.mem_cons_self, fun path hpath => ?_⟩
      rcases List.mem_cons.mp hpath with rfl | hpath
      · exact le_refl _
      · exact (hfirst path hpath).le
    rw [List.head?_cons, Option.some.injEq]
    exact ⟨fun heq => heq ▸ hleast, hleast.unique⟩

theorem find?_beq (paths : List String) (path : String) :
    paths.find? (· == path) = if path ∈ paths then some path else none := by
  induction paths with
  | nil => rfl
  | cons first paths ih =>
    by_cases hfirst : first = path
    · subst hfirst
      simp
    · rw [List.find?_cons_of_neg (by simpa using hfirst), ih]
      simp [Ne.symm hfirst]

/-- A pattern is a glob for all paths or for none. -/
theorem verdict_cases (pattern : String) :
    (∃ accepts : String → Bool, ∀ path, Glob.verdict pattern path = .ok (accepts path)) ∨
      ∃ fault, ∀ path, Glob.verdict pattern path = .error fault := by
  unfold Glob.verdict
  split_ifs
  · exact Or.inl ⟨_, fun _ => rfl⟩
  · cases Glob.parse Glob.searchStyle pattern with
    | error fault => exact Or.inr ⟨fault, fun _ => rfl⟩
    | ok glob => exact Or.inl ⟨glob.accepts, fun _ => rfl⟩

/-- Looking a path up gives it if it is an own file. -/
theorem probe_of_literal (hliteral : Glob.isLiteral pattern = true) :
    (s.toWorkspace.probe pattern).value =
      .ok (if slashed pattern ∈ s.own then some (slashed pattern) else none) := by
  have hkey : slashed pattern ∈ s.own ↔ ((s.files.lookup (slashed pattern)).isSome &&
      !isVendored (slashed pattern)) = true := by
    rw [mem_own_iff, Bool.and_eq_true, Bool.not_eq_true']
  rw [Workspace.probe, find_toWorkspace, find, if_neg Nat.one_ne_zero, if_pos hliteral]
  simp only [hkey]
  split_ifs <;> rfl

theorem probe_of_wild (hliteral : Glob.isLiteral pattern = false) :
    (s.toWorkspace.probe pattern).value =
      if s.own = [] then .ok none
      else
        match Glob.parse Glob.searchStyle pattern with
        | .error fault => .error (.badGlob fault)
        | .ok glob => .ok (s.own.find? glob.accepts) := by
  have hnone : (s.files.map Prod.fst).all isVendored = true ↔ s.own = [] := by
    simp [own, List.filter_eq_nil_iff]
  rw [Workspace.probe, find_toWorkspace, find, if_neg Nat.one_ne_zero, hliteral,
    if_neg Bool.false_ne_true]
  simp only [hnone]
  split_ifs
  · rfl
  · cases Glob.parse Glob.searchStyle pattern with
    | error fault => rfl
    | ok glob =>
      simp only [Except.map, scan]
      rw [List.head?_take, if_neg Nat.one_ne_zero, List.head?_filter, own]

/-- Searching for a glob gives the first own file that it describes. -/
theorem probe_of_accepts {accepts : String → Bool}
    (h : ∀ path, Glob.verdict pattern path = .ok (accepts path)) :
    (s.toWorkspace.probe pattern).value = .ok (s.own.find? accepts) := by
  by_cases hliteral : Glob.isLiteral pattern = true
  · obtain rfl : (· == slashed pattern) = accepts := by
      funext path
      simpa [Glob.verdict, hliteral] using h path
    rw [probe_of_literal hliteral, find?_beq]
  · rw [Bool.not_eq_true] at hliteral
    rw [probe_of_wild hliteral]
    cases hparse : Glob.parse Glob.searchStyle pattern with
    | error fault =>
      exact absurd (h "") (by simp [Glob.verdict, hliteral, hparse, Except.map])
    | ok glob =>
      obtain rfl : glob.accepts = accepts := by
        funext path
        simpa [Glob.verdict, hliteral, hparse, Except.map] using h path
      split_ifs with hnone
      · rw [hnone, List.find?_nil]
      · rfl

/-- Searching for what is no glob fails, unless there is no own file to try it on. -/
theorem probe_of_fault {fault : Glob.Fault} (h : ∀ path, Glob.verdict pattern path = .error fault) :
    (s.toWorkspace.probe pattern).value =
      if s.own = [] then .ok none else .error (.badGlob fault) := by
  by_cases hliteral : Glob.isLiteral pattern = true
  · exact absurd (h "") (by simp [Glob.verdict, hliteral])
  · rw [Bool.not_eq_true] at hliteral
    rw [probe_of_wild hliteral]
    cases hparse : Glob.parse Glob.searchStyle pattern with
    | error fault' =>
      obtain rfl : fault' = fault := by
        simpa [Glob.verdict, hliteral, hparse, Except.map] using h ""
      rfl
    | ok glob => exact absurd (h "") (by simp [Glob.verdict, hliteral, hparse, Except.map])

/-- A search gives nothing if the pattern describes no own file. -/
theorem probe_eq_none_iff :
    (s.toWorkspace.probe pattern).value = .ok none ↔
      ∀ path ∈ s.own, Glob.verdict pattern path = .ok false := by
  rcases verdict_cases pattern with ⟨accepts, haccepts⟩ | ⟨fault, hfault⟩
  · rw [probe_of_accepts haccepts, Except.ok.injEq, List.find?_eq_none]
    simp [haccepts]
  · rw [probe_of_fault hfault]
    simp [hfault, List.eq_nil_iff_forall_not_mem]

/-- A search gives the least of the own files that the pattern describes. -/
theorem probe_eq_some_iff (hs : s.Built) :
    (s.toWorkspace.probe pattern).value = .ok (some file) ↔
      IsLeast {path | path ∈ s.own ∧ Glob.verdict pattern path = .ok true} file := by
  rcases verdict_cases pattern with ⟨accepts, haccepts⟩ | ⟨fault, hfault⟩
  · rw [probe_of_accepts haccepts, Except.ok.injEq, ← List.head?_filter,
      head?_eq_some_iff_isLeast (hs.sorted_own.filter accepts)]
    simp [haccepts]
  · rw [probe_of_fault hfault]
    split_ifs <;> simp [hfault, IsLeast]

end Store

namespace Probe

variable {s : Store} {extensions : List String} {path : String}

/-- A path that climbs or that names the root itself is not searched for, and any other one by its
location. -/
theorem fileFor_eq (w : Workspace) (extensions : List String) (path : String) :
    fileFor w extensions path =
      if Climbs (segments path) ∨ location path = [] then pure (.ok none)
      else firstHit w (candidates (ofSegments (location path)) extensions) := by
  by_cases hclimbs : Climbs (segments path)
  · rw [fileFor, (collapse?_eq_none_iff path).mpr hclimbs, if_pos (Or.inl hclimbs)]
  · rw [fileFor, collapse?_of_not_climbs hclimbs]
    dsimp only
    by_cases hroot : location path = []
    · rw [if_pos (Or.inr hroot), hroot]
      rfl
    · rw [if_neg (not_or.mpr ⟨hclimbs, hroot⟩),
        if_neg (ofSegments_ne_empty hroot (isName_of_mem_location hclimbs))]

/-- Where patterns are looked up in a list of files, either none of them is there and all are
searched for, or the first that is there is the last that is searched for. -/
theorem firstHit_of_lookup {w : Workspace} {files patterns : List String}
    (h : ∀ pattern ∈ patterns,
      (w.probe pattern).value = .ok (if pattern ∈ files then some pattern else none)) :
    ((∀ pattern ∈ patterns, pattern ∉ files) ∧
        firstHit w patterns = ⟨.ok none, patterns.map .find⟩) ∨
      ∃ before file after, patterns = before ++ file :: after ∧
        (∀ other ∈ before, other ∉ files) ∧ file ∈ files ∧
          firstHit w patterns = ⟨.ok (some file), (before ++ [file]).map .find⟩ := by
  have hmiss {pattern : String} (hpattern : pattern ∈ patterns) (hnone : pattern ∉ files) :
      (w.probe pattern).value = .ok none := by
    rw [h pattern hpattern, if_neg hnone]
  cases hfind : patterns.find? (· ∈ files) with
  | none =>
    have hnone : ∀ pattern ∈ patterns, pattern ∉ files := by simpa using hfind
    exact Or.inl ⟨hnone, firstHit_of_miss fun pattern hpattern =>
      hmiss hpattern (hnone pattern hpattern)⟩
  | some file =>
    obtain ⟨hfile, before, after, rfl, hbefore⟩ := List.find?_eq_some_iff_append.mp hfind
    have hfile : file ∈ files := by simpa using hfile
    have hbefore : ∀ other ∈ before, other ∉ files := by simpa using hbefore
    refine Or.inr ⟨before, file, after, rfl, hbefore, hfile, firstHit_of_hit ?_ ?_ after⟩
    · exact fun other hother => hmiss (List.mem_append_left _ hother) (hbefore other hother)
    · rw [h file (List.mem_append_right _ List.mem_cons_self), if_pos hfile]

/-- Which file of a store a path refers to, if neither the path nor the extensions have a character
that a glob reads in its own way: the first own one among the path itself, the path with each of the
extensions, the index files of the folder and its package file. The searches are made in this order
up to the one that gives it. -/
theorem fileFor_store (s : Store) (extensions : List String) (path : String)
    (hliteral : Glob.isLiteral path = true) (hunslashed : '\\' ∉ path.toList)
    (hext : ∀ ext ∈ extensions, IsPlainExtension ext) :
    let stem := ofSegments (location path)
    let tried := stem :: (extensions.map (stem ++ ·) ++ extensions.map (stem ++ "/index" ++ ·) ++
      [stem ++ "/__init__.py"])
    let nowhere := Climbs (segments path) ∨ location path = []
    let result := fileFor s.toWorkspace extensions path
    (result.value = .ok none ↔ nowhere ∨ ∀ pattern ∈ tried, pattern ∉ s.own) ∧
      (nowhere → result.calls = []) ∧
      (¬nowhere → (∀ pattern ∈ tried, pattern ∉ s.own) → result.calls = tried.map .find) ∧
      (¬nowhere → (∃ pattern ∈ tried, pattern ∈ s.own) →
        ∃ before file after, tried = before ++ file :: after ∧
          (∀ other ∈ before, other ∉ s.own) ∧ file ∈ s.own ∧
            result.value = .ok (some file) ∧ result.calls = (before ++ [file]).map .find) := by
  intro stem tried nowhere result
  have hresult : result = if nowhere then pure (.ok none) else firstHit s.toWorkspace tried :=
    fileFor_eq s.toWorkspace extensions path
  by_cases hnowhere : nowhere
  · rw [if_pos hnowhere] at hresult
    simp [hresult, hnowhere]
  rw [if_neg hnowhere] at hresult
  obtain ⟨hclimbs, hroot⟩ := not_or.mp hnowhere
  have hplain : ∀ pattern ∈ tried, IsPlain pattern :=
    isPlain_of_mem_candidates (isPlain_of_collapse? (collapse?_of_not_climbs hclimbs)
      (ofSegments_ne_empty hroot (isName_of_mem_location hclimbs)) hunslashed hliteral) hext
  have hprobe : ∀ pattern ∈ tried, (s.toWorkspace.probe pattern).value =
      .ok (if pattern ∈ s.own then some pattern else none) := by
    intro pattern hpattern
    have hlooked := Store.probe_of_literal (s := s) (hplain pattern hpattern).literal
    rwa [slashed_of_not_mem (hplain pattern hpattern).unslashed] at hlooked
  rcases firstHit_of_lookup hprobe with
    ⟨hnone, heq⟩ | ⟨before, file, after, hsplit, hbefore, hfile, heq⟩
  · rw [hresult, heq]
    refine ⟨iff_of_true rfl (Or.inr hnone), fun h => absurd h hnowhere, fun _ _ => rfl, ?_⟩
    rintro - ⟨pattern, hpattern, hown⟩
    exact absurd hown (hnone pattern hpattern)
  · have hsome : ¬∀ pattern ∈ tried, pattern ∉ s.own := fun hnone =>
      hnone file (hsplit ▸ List.mem_append_right _ List.mem_cons_self) hfile
    rw [hresult, heq]
    refine ⟨iff_of_false (by simp) (not_or.mpr ⟨hnowhere, hsome⟩), fun h => absurd h hnowhere,
      fun _ hnone => absurd hnone hsome, fun _ _ => ?_⟩
    exact ⟨before, file, after, hsplit, hbefore, hfile, rfl, rfl⟩

/-- An index file is found by its folder, and a file of third-party code is not found. -/
theorem fileFor_store_index_file :
    let s : Store := .ofList "/p" [("lib/util/index.ts", ""), ("vendor/util.ts", "")]
    let result (path : String) := fileFor s.toWorkspace [".ts"] path
    (result "./src/..//lib/util").value = .ok (some "lib/util/index.ts") ∧
      (result "./vendor/util").value = .ok none ∧
        (result "./vendor/util").calls = ["vendor/util", "vendor/util.ts", "vendor/util/index.ts",
          "vendor/util/__init__.py"].map .find := by
  intro s result
  have hext : ∀ ext ∈ [".ts"], IsPlainExtension ext := by decide +kernel
  have hown : s.own = ["lib/util/index.ts"] := by decide +kernel
  obtain ⟨-, -, -, hfound⟩ := fileFor_store s [".ts"] "./src/..//lib/util" (by decide +kernel)
    (by decide +kernel) hext
  obtain ⟨hnone, -, hcalls, -⟩ := fileFor_store s [".ts"] "./vendor/util" (by decide +kernel)
    (by decide +kernel) hext
  obtain ⟨before, file, after, -, -, hfile, hvalue, -⟩ := hfound (by decide +kernel)
    (by decide +kernel)
  rw [hown, List.mem_singleton] at hfile
  subst hfile
  exact ⟨hvalue, hnone.mpr (Or.inr (by decide +kernel)),
    hcalls (by decide +kernel) (by decide +kernel)⟩

/-! ## Paths with wildcards -/

/-- The candidates have the characters of the path, of the extensions and of the names that are
tried in a folder. -/
theorem forall_mem_candidates {p : Char → Prop} (hnames : ∀ c ∈ "/index/__init__.py".toList, p c)
    (hpath : ∀ c ∈ path.toList, p c) (hext : ∀ ext ∈ extensions, ∀ c ∈ ext.toList, p c) :
    ∀ candidate ∈ candidates path extensions, ∀ c ∈ candidate.toList, p c := by
  have hsplit : "/index/__init__.py".toList = "/index".toList ++ "/__init__.py".toList := by
    decide +kernel
  rw [hsplit, List.forall_mem_append] at hnames
  intro candidate hcandidate
  simp only [candidates, List.mem_cons, List.mem_append, List.mem_map, List.not_mem_nil, or_false]
    at hcandidate
  rcases hcandidate with rfl | (⟨ext, hmem, rfl⟩ | ⟨ext, hmem, rfl⟩) | rfl
  · exact hpath
  · rw [String.toList_append, List.forall_mem_append]
    exact ⟨hpath, hext ext hmem⟩
  · rw [String.toList_append, String.toList_append, List.forall_mem_append, List.forall_mem_append]
    exact ⟨⟨hpath, hnames.1⟩, hext ext hmem⟩
  · rw [String.toList_append, List.forall_mem_append]
    exact ⟨hpath, hnames.2⟩

theorem isLiteral_of_mem_candidates (hliteral : Glob.isLiteral path = true)
    (hext : ∀ ext ∈ extensions, IsPlainExtension ext) :
    ∀ candidate ∈ candidates path extensions, Glob.isLiteral candidate = true := by
  have hexts : ∀ ext ∈ extensions, Glob.isLiteral ext = true := fun ext hmem =>
    (hext ext hmem).literal
  simp only [Glob.isLiteral, Bool.not_eq_true', List.any_eq_false] at hliteral hexts ⊢
  exact forall_mem_candidates (by simp) hliteral hexts

theorem slashed_of_mem_candidates (hunslashed : '\\' ∉ path.toList)
    (hext : ∀ ext ∈ extensions, IsPlainExtension ext) :
    ∀ candidate ∈ candidates path extensions, slashed candidate = candidate := by
  have hne {text : String} (h : '\\' ∉ text.toList) : ∀ c ∈ text.toList, c ≠ '\\' :=
    fun c hc heq => h (heq ▸ hc)
  intro candidate hcandidate
  refine slashed_of_not_mem fun hmem => ?_
  exact forall_mem_candidates (by simp) (hne hunslashed)
    (fun ext hext' => hne (hext ext hext').unslashed) candidate hcandidate _ hmem rfl

/-- Which file of a store a path refers to: the least of the own files that the first pattern
describes, if any does and no pattern before it fails. If the path has no character that a glob
reads in its own way, this is one of the files that are tried, and the path itself if it is one of
the own files. -/
theorem fileFor_store_eq_some_iff {s : Store} (hs : s.Built) (extensions : List String)
    (path : String) (hext : ∀ ext ∈ extensions, IsPlainExtension ext) :
    let stem := ofSegments (location path)
    let tried := stem :: (extensions.map (stem ++ ·) ++ extensions.map (stem ++ "/index" ++ ·) ++
      [stem ++ "/__init__.py"])
    let nowhere := Climbs (segments path) ∨ location path = []
    let result := (fileFor s.toWorkspace extensions path).value
    (∀ file, result = .ok (some file) ↔ ¬nowhere ∧
        ∃ before pattern after, tried = before ++ pattern :: after ∧
          IsLeast {own | own ∈ s.own ∧ Glob.verdict pattern own = .ok true} file ∧
            ∀ other ∈ before, ∀ own ∈ s.own, Glob.verdict other own = .ok false) ∧
      (Glob.isLiteral stem = true →
        (∀ file, result = .ok (some file) → file ∈ tried.map slashed) ∧
          (¬nowhere → slashed stem ∈ s.own → result = .ok (some (slashed stem)))) ∧
        ('\\' ∉ path.toList → tried.map slashed = tried) := by
  intro stem tried nowhere result
  have hresult : result = if nowhere then .ok none else (firstHit s.toWorkspace tried).value := by
    have hvalue := congrArg Traced.value (fileFor_eq s.toWorkspace extensions path)
    rw [apply_ite Traced.value] at hvalue
    exact hvalue
  have hdescribed (file : String) : result = .ok (some file) ↔ ¬nowhere ∧
      ∃ before pattern after, tried = before ++ pattern :: after ∧
        IsLeast {own | own ∈ s.own ∧ Glob.verdict pattern own = .ok true} file ∧
          ∀ other ∈ before, ∀ own ∈ s.own, Glob.verdict other own = .ok false := by
    rw [hresult]
    split_ifs with hnowhere
    · simp [hnowhere]
    · rw [firstHit_eq_some_iff, and_iff_right hnowhere]
      simp only [Store.probe_eq_some_iff hs, Store.probe_eq_none_iff]
  refine ⟨hdescribed, fun hliteral => ⟨fun file hfile => ?_, fun hnowhere hown => ?_⟩,
    fun hunslashed => ?_⟩
  · obtain ⟨-, before, pattern, after, hsplit, ⟨⟨-, hverdict⟩, -⟩, -⟩ := (hdescribed file).mp hfile
    have hpattern : pattern ∈ tried := hsplit ▸ List.mem_append_right _ List.mem_cons_self
    rw [Glob.verdict, if_pos (isLiteral_of_mem_candidates hliteral hext pattern hpattern),
      Except.ok.injEq, beq_iff_eq] at hverdict
    exact List.mem_map.mpr ⟨pattern, hpattern, hverdict.symm⟩
  · have hstem := Store.probe_of_literal (s := s) hliteral
    rw [if_pos hown] at hstem
    rw [hresult, if_neg hnowhere]
    exact firstHit_eq_some_iff.mpr ⟨[], stem, _, rfl, hstem, by simp⟩
  · have hstem : '\\' ∉ stem.toList := not_mem_ofSegments (by decide) fun name hname hmem =>
      hunslashed (mem_of_mem_segments (mem_location hname).1 _ hmem).1
    exact (List.map_congr_left (slashed_of_mem_candidates hstem hext)).trans (List.map_id _)

/-- A star describes the files of a folder, and a path without wildcards is its own file. -/
theorem fileFor_store_star :
    let s : Store := .ofList "/p" [("src/a.ts", ""), ("src/b.ts", "")]
    let result (path : String) := (fileFor s.toWorkspace [".ts"] path).value
    result "src/*" = .ok (some "src/a.ts") ∧ result "./src//b.ts" = .ok (some "src/b.ts") := by
  intro s result
  have hs : s.Built := Store.built_ofList _ _
  have hext : ∀ ext ∈ [".ts"], IsPlainExtension ext := by decide +kernel
  have hown : s.own = ["src/a.ts", "src/b.ts"] := by decide +kernel
  obtain ⟨hstar, -⟩ := fileFor_store_eq_some_iff hs [".ts"] "src/*" hext
  obtain ⟨-, hplain, -⟩ := fileFor_store_eq_some_iff hs [".ts"] "./src//b.ts" hext
  constructor
  · refine (hstar "src/a.ts").mpr ⟨by decide +kernel, [], "src/*", _, rfl, ⟨?_, ?_⟩, by simp⟩
    · exact ⟨by decide +kernel, by decide +kernel⟩
    · rintro path ⟨hpath, -⟩
      rw [hown] at hpath
      revert path
      decide +kernel
  · exact (hplain (by decide +kernel)).2 (by decide +kernel) (by decide +kernel)

/-- A path with brackets is read as a glob, even if there is a file of this name. -/
theorem fileFor_store_brackets :
    let s : Store := .ofList "/p" [("app/[id].tsx", ""), ("app/i.tsx", "")]
    collapse? "app/[id].tsx" = some "app/[id].tsx" ∧ "app/[id].tsx" ∈ s.own ∧
      (fileFor s.toWorkspace ProbeOptions.defaultExtensions "app/[id].tsx").value =
        .ok (some "app/i.tsx") := by
  decide +kernel

end Probe

end ImportScout
