import ImportScout.Bundle.Basic
import ImportScout.Proofs.Resolve.Probe
import ImportScout.Proofs.Workspace.Order

/-! # What ranking depends on

Where no provider is asked, ranking and loading see a workspace through its searches only, and read
no file but those that a search finds and the snippets' own; of the latter only an offset is taken,
which probing leaves aside. So workspaces that answer every search alike, and give the same text for
what is found, give the same ranking, and the same calls are made for it
(`Workspace.Agrees.score_eq`, `Workspace.Agrees.load_eq`). Stores agree in this way if they differ
in third-party code only (`Store.agrees_of_get?_eq`).
-/

namespace ImportScout

open ImportScout.Path

theorem Traced.bind_congr {α β : Type} {x x' : Traced α} {f f' : α → Traced β}
    (hcalls : x.calls = x'.calls) (hrest : f x.value = f' x'.value) : (x >>= f) = (x' >>= f') := by
  change Traced.andThen x f = Traced.andThen x' f'
  rw [Traced.andThen, Traced.andThen, hcalls, hrest]

/-- For its offset a snippet's own file is read or not, whatever its text turns out to be. -/
theorem Engine.calls_offsetOf_eq (e e' : Engine) (s : Snippet) (source : String) :
    (e.offsetOf s source).calls = (e'.offsetOf s source).calls := by
  rw [offsetOf, offsetOf]
  split
  · rfl
  · split
    · rfl
    · -- the text that is read makes no further calls
      rw [Traced.calls_bind, Traced.calls_bind]
      split <;> split <;> rfl

/-- Whether two workspaces have the same root and answer every search alike. -/
structure Workspace.SearchesAlike (w w' : Workspace) : Prop where
  root : w.root = w'.root
  find : w.find = w'.find

namespace Workspace.SearchesAlike

variable {w w' : Workspace} (h : w.SearchesAlike w') (o : ProbeOptions) (extensions : List String)
  (limits : Limits)

include h

/-! ## Resolving -/

theorem probe_eq (pattern : String) : w.probe pattern = w'.probe pattern := by
  rw [probe, probe, h.find]

theorem firstHit_eq (patterns : List String) :
    Probe.firstHit w patterns = Probe.firstHit w' patterns := by
  induction patterns with
  | nil => rfl
  | cons pattern patterns ih => rw [Probe.firstHit, Probe.firstHit, h.probe_eq, ih]

theorem fileFor_eq (path : String) :
    Probe.fileFor w extensions path = Probe.fileFor w' extensions path := by
  simp only [Probe.fileFor, h.firstHit_eq]

theorem inRoots_eq (path : String) (roots : List String) :
    Strategy.inRoots w extensions path roots = Strategy.inRoots w' extensions path roots := by
  induction roots with
  | nil => rfl
  | cons root roots ih => rw [Strategy.inRoots, Strategy.inRoots, h.fileFor_eq, ih]

theorem bare_eq (spec : String) :
    Strategy.bare w extensions spec = Strategy.bare w' extensions spec := by
  simp only [Strategy.bare, h.probe_eq, h.fileFor_eq]

/-- Probing leaves the place of the import aside. -/
theorem resolve_manual_eq (specifier source : String) (offset offset' : ℕ) :
    Chain.resolve w ⟨specifier, offset, source⟩ (.manual o) =
      Chain.resolve w' ⟨specifier, offset', source⟩ (.manual o) := by
  simp only [Chain.manual, Chain.resolve, Strategy.resolve, Strategy.byConvention, h.fileFor_eq,
    h.inRoots_eq, h.bare_eq]

/-! ## Counting -/

theorem resolveAll_eq (source : String) (base base' : ℕ) (imps : List Import)
    (found : List String) :
    Engine.resolveAll ⟨w, .manual o, extensions, limits⟩ source base imps found =
      Engine.resolveAll ⟨w', .manual o, extensions, limits⟩ source base' imps found := by
  induction imps generalizing found with
  | nil => rfl
  | cons imp imps ih =>
    rw [Engine.resolveAll, Engine.resolveAll,
      h.resolve_manual_eq o imp.specifier source (base + imp.offset) (base' + imp.offset)]
    simp only [ih]

theorem importsOf_eq (s : Snippet) :
    Engine.importsOf ⟨w, .manual o, extensions, limits⟩ s =
      Engine.importsOf ⟨w', .manual o, extensions, limits⟩ s := by
  have hrelative : Engine.relative ⟨w, .manual o, extensions, limits⟩ s.fileName =
      Engine.relative ⟨w', .manual o, extensions, limits⟩ s.fileName := by
    rw [Engine.relative, Engine.relative, h.root]
  rw [Engine.importsOf, Engine.importsOf, hrelative]
  exact Traced.bind_congr (Engine.calls_offsetOf_eq _ _ s _)
    (h.resolveAll_eq o extensions limits _ _ _ _ _)

theorem tallyFrom_eq (known : List String) (snippets : List Snippet) (tally : List (String × ℕ)) :
    Engine.tallyFrom ⟨w, .manual o, extensions, limits⟩ known snippets tally =
      Engine.tallyFrom ⟨w', .manual o, extensions, limits⟩ known snippets tally := by
  induction snippets generalizing tally with
  | nil => rfl
  | cons s snippets ih =>
    rw [Engine.tallyFrom, Engine.tallyFrom, h.importsOf_eq]
    simp only [ih]

/-- Counting reads no file but for offsets, so searches alone decide it. -/
theorem frequencies_eq (snippets : List Snippet) :
    Engine.frequencies ⟨w, .manual o, extensions, limits⟩ snippets =
      Engine.frequencies ⟨w', .manual o, extensions, limits⟩ snippets := by
  have hpresent : Engine.present ⟨w, .manual o, extensions, limits⟩ snippets =
      Engine.present ⟨w', .manual o, extensions, limits⟩ snippets := by
    simp only [Engine.present, Engine.relative, h.root]
  rw [Engine.frequencies, Engine.frequencies, hpresent, h.tallyFrom_eq]

end Workspace.SearchesAlike

/-- Whether two workspaces have the same root, answer every search alike, and give the same text for
every file that a search finds. -/
structure Workspace.Agrees (w w' : Workspace) : Prop where
  root : w.root = w'.root
  find : w.find = w'.find
  read : ∀ file, w.Finds file → w.read file = w'.read file

namespace Workspace.Agrees

variable {w w' : Workspace} (h : w.Agrees w') (o : ProbeOptions) (extensions : List String)
  (limits : Limits)

include h

theorem searchesAlike : w.SearchesAlike w' :=
  ⟨h.root, h.find⟩

/-! ## Reading what is found -/

theorem bind_fileFor_eq {α : Type} {f f' : Except Fault (Option String) → Traced α} (path : String)
    (hread : ∀ found, (∀ file, found = .ok (some file) → w.open? file = w'.open? file) →
      f found = f' found) :
    (Probe.fileFor w extensions path >>= f) = (Probe.fileFor w' extensions path >>= f') := by
  rw [← h.searchesAlike.fileFor_eq]
  refine Traced.bind_congr rfl (hread _ fun file hfile => ?_)
  rw [open?, open?, h.read file (Probe.finds_of_fileFor hfile)]

theorem hubScore_eq (path : String) : hubScore w extensions path = hubScore w' extensions path := by
  refine h.bind_fileFor_eq extensions path fun found hopen => ?_
  rcases found with fault | _ | file
  · rfl
  · rfl
  · exact Traced.bind_congr (by rw [hopen file rfl]) (by rw [hopen file rfl])

theorem loadOne_eq (path : String) :
    Bundle.loadOne w extensions path = Bundle.loadOne w' extensions path := by
  refine h.bind_fileFor_eq extensions path fun found hopen => ?_
  rcases found with fault | _ | file
  · rfl
  · rfl
  · exact Traced.bind_congr (by rw [hopen file rfl]) (by rw [hopen file rfl])

theorem load_eq (paths : List String) :
    Bundle.load w extensions paths = Bundle.load w' extensions paths := by
  induction paths with
  | nil => rfl
  | cons path paths ih => rw [Bundle.load, Bundle.load, h.loadOne_eq, ih]

/-! ## Ranking -/

theorem hubScores_eq (paths : List String) :
    Engine.hubScores ⟨w, .manual o, extensions, limits⟩ paths =
      Engine.hubScores ⟨w', .manual o, extensions, limits⟩ paths := by
  induction paths with
  | nil => rfl
  | cons path paths ih => rw [Engine.hubScores, Engine.hubScores, h.hubScore_eq, ih]

theorem score_eq (snippets : List Snippet) :
    Engine.score ⟨w, .manual o, extensions, limits⟩ snippets =
      Engine.score ⟨w', .manual o, extensions, limits⟩ snippets := by
  simp only [Engine.score, h.searchesAlike.frequencies_eq, h.hubScores_eq]

end Workspace.Agrees

/-! ## Stores -/

namespace Store

variable {s s' : Store}

theorem get?_insert_of_vendored {path other : String} (text : String)
    (hpath : isVendored path = false) (hother : isVendored other = true) :
    (s.insert other text).get? path = s.get? path := by
  refine lookup_put_of_ne (fun heq => ?_) s.files
  rw [← isVendored_slashed, heq, isVendored_slashed, hother] at hpath
  exact absurd hpath (by simp)

section Unvendored

variable (built : s.Built) (built' : s'.Built)
  (hfiles : ∀ path, isVendored path = false → s.get? path = s'.get? path)

include built built' hfiles

/-- The same files of their own have the same order. -/
theorem filter_unvendored_eq :
    (s.files.map Prod.fst).filter (fun path => !isVendored path) =
      (s'.files.map Prod.fst).filter (fun path => !isVendored path) := by
  refine (built.sorted.filter _).eq_of_mem_iff (built'.sorted.filter _) fun path => ?_
  rw [List.mem_filter, List.mem_filter, mem_paths_iff built, mem_paths_iff built',
    Bool.not_eq_true']
  exact and_congr_left fun hown => by rw [hfiles path hown]

/-- Searches do not see third-party code. -/
theorem find_eq_of_get?_eq : s.find = s'.find := by
  have hfilter : (s.files.map (·.1)).filter (fun path => !isVendored path) =
      (s'.files.map (·.1)).filter (fun path => !isVendored path) :=
    filter_unvendored_eq built built' hfiles
  have hall : (s.files.map (·.1)).all isVendored = (s'.files.map (·.1)).all isVendored := by
    have hiff (paths : List String) :
        paths.all isVendored = true ↔ paths.filter (fun path => !isVendored path) = [] := by
      simp [List.filter_eq_nil_iff]
    rw [Bool.eq_iff_iff, hiff, hiff, hfilter]
  funext pattern limit
  have hkey : ((s.files.lookup (slashed pattern)).isSome && !isVendored (slashed pattern)) =
      ((s'.files.lookup (slashed pattern)).isSome && !isVendored (slashed pattern)) := by
    cases hown : isVendored (slashed pattern) with
    | true => simp
    | false =>
      have hget := hfiles (slashed pattern) hown
      rw [get?, get?, slashed_slashed] at hget
      rw [hget]
  simp only [find, scan, hkey, hall, hfilter]

/-- Stores with the same root agree if they differ in third-party code only. -/
theorem agrees_of_get?_eq (hroot : s.root = s'.root) : s.toWorkspace.Agrees s'.toWorkspace where
  root := hroot
  find := find_eq_of_get?_eq built built' hfiles
  read file hfinds := by
    obtain ⟨pattern, files, hfind, hmem⟩ := hfinds.exists_mem
    rw [find_toWorkspace] at hfind
    dsimp only [toWorkspace]
    rw [hfiles file (mem_find_cases hfind hmem).1]

end Unvendored

/-- If stores with the same root differ in third-party code only, ranking by probing and loading
what it suggests give the same results in both, and the same calls are made for them. -/
theorem score_and_load_eq_of_get?_eq {s s' : Store} (built : s.Built) (built' : s'.Built)
    (hroot : s.root = s'.root)
    (hfiles : ∀ path, isVendored path = false → s.get? path = s'.get? path) (o : ProbeOptions)
    (extensions extensions' : List String) (limits : Limits) (snippets : List Snippet) :
    let e : Engine := ⟨s.toWorkspace, .manual o, extensions, limits⟩
    let e' : Engine := ⟨s'.toWorkspace, .manual o, extensions, limits⟩
    e.score snippets = e'.score snippets ∧
      Bundle.load s.toWorkspace extensions' ((e.score snippets).value.map Score.path) =
        Bundle.load s'.toWorkspace extensions' ((e'.score snippets).value.map Score.path) := by
  intro e e'
  have hagrees := agrees_of_get?_eq built built' hfiles hroot
  have hscore : e.score snippets = e'.score snippets :=
    hagrees.score_eq o extensions limits snippets
  exact ⟨hscore, by rw [hscore, hagrees.load_eq]⟩

/-- Two stores that hold different third-party code, one of them that of a snippet. -/
theorem score_and_load_beside_third_party_code :
    let shared : Store := .ofList "/p" [("core/a.ts", "import './b';")]
    let s := shared.insert "vendor/one.ts" "// one\nimport '../core/a';"
    let s' := shared.insert "third_party/a.ts" ""
    let snippets : List Snippet :=
      [{ Snippet.userCode "vendor/one.ts" "import '../core/a';" with startLine := some 2 },
        .userCode "src/two.ts" "import '../core/a';"]
    let e : Engine := ⟨s.toWorkspace, .manual ⟨[".ts"], []⟩, [".ts"], {}⟩
    let e' : Engine := ⟨s'.toWorkspace, .manual ⟨[".ts"], []⟩, [".ts"], {}⟩
    (e.score snippets).value = [⟨"core/a", 2, 1⟩] ∧ e.score snippets = e'.score snippets ∧
      Bundle.load s.toWorkspace [".ts"] ((e.score snippets).value.map Score.path) =
        Bundle.load s'.toWorkspace [".ts"] ((e'.score snippets).value.map Score.path) := by
  intro shared s s' snippets e e'
  have built : s.Built := (built_ofList _ _).insert _ _
  have built' : s'.Built := (built_ofList _ _).insert _ _
  have hfiles : ∀ path, isVendored path = false → s.get? path = s'.get? path := by
    intro path hpath
    rw [get?_insert_of_vendored _ hpath (by decide +kernel),
      get?_insert_of_vendored _ hpath (by decide +kernel)]
  exact ⟨by decide +kernel, score_and_load_eq_of_get?_eq built built' rfl hfiles ⟨[".ts"], []⟩
    [".ts"] [".ts"] {} snippets⟩

end Store

end ImportScout
