import ImportScout.Workspace.Store
import ImportScout.Proofs.Path.Canonical
import ImportScout.Proofs.Resolve.Containment

/-! # Falling back along a chain

A strategy that fails, finds nothing or finds third-party code is a miss, and the next one is tried.
So misses may stand anywhere in a chain without changing its answer, and a chain has no answer
exactly if it consists of misses (`Chain.resolve_of_misses`). An answer is a file without its
extension, and the extension is taken from the last segment alone: the folders of an answer are
those of the file (`Path.dropLast_segments_dropExtension`), and none of them holds third-party code.
-/

namespace ImportScout

open ImportScout.Path

/-! ## Misses -/

namespace Strategy

/-- What a strategy comes to: the file that it finds, if any, or the wording of its failure. -/
def outcome (s : Strategy) (w : Workspace) (req : Request) : Except String (Option String) :=
  match s with
  | .definition p =>
    (p.definitions (onto w.root req.source) req.offset).value.map fun targets =>
      targets.head?.bind (relativeTo? w.root)
  | .manual o => (byConvention o w req).value.mapError Fault.message

/-- Whether a strategy fails, finds nothing or finds a file with a folder of third-party code on
it. -/
def Misses (w : Workspace) (req : Request) (s : Strategy) : Prop :=
  (∃ message, s.outcome w req = .error message) ∨ s.outcome w req = .ok none ∨
    ∃ file, s.outcome w req = .ok (some file) ∧ isVendored file = true

variable {w : Workspace} {req : Request} {s : Strategy} {file : String}

/-- A strategy resolves an import to the file that it finds; a failure finds none. -/
theorem resolve_eq_some_iff :
    (s.resolve w req).value = some file ↔ s.outcome w req = .ok (some file) := by
  cases s with
  | definition p =>
    rw [resolve, byDefinition, outcome, Traced.value_bind]
    rcases (p.definitions (onto w.root req.source) req.offset).value with message | _ | ⟨target, _⟩
    · simp [Except.map]
    · simp [Except.map]
    · simp [Except.map]
  | manual o =>
    rw [resolve, outcome, Traced.value_bind]
    cases (byConvention o w req).value <;> simp [Except.mapError]

theorem misses_iff :
    s.Misses w req ↔ ∀ file, s.outcome w req = .ok (some file) → isVendored file = true := by
  rw [Misses]
  rcases s.outcome w req with message | _ | file <;> simp

end Strategy

namespace Chain

/-- Whether `longer` is `chain` with strategies of some kind put in, wherever it may be. -/
inductive PaddedBy (kind : Strategy → Prop) : (chain longer : Chain) → Prop
  | nil : PaddedBy kind [] []
  | keep {chain longer : Chain} (s : Strategy) (padded : PaddedBy kind chain longer) :
      PaddedBy kind (s :: chain) (s :: longer)
  | insert {chain longer : Chain} (s : Strategy) (hs : kind s)
      (padded : PaddedBy kind chain longer) : PaddedBy kind chain (s :: longer)

variable {w : Workspace} {req : Request} {chain longer : Chain} {s : Strategy} {file : String}

/-- What a strategy has to offer to a chain is a file that it finds outside of third-party code. -/
theorem filter_resolve_eq_some_iff :
    ((s.resolve w req).value.map slashed).filter (fun file => !isVendored file) = some file ↔
      ∃ found, s.outcome w req = .ok (some found) ∧ isVendored found = false ∧
        file = slashed found := by
  simp only [← Strategy.resolve_eq_some_iff, Option.filter_eq_some_iff, Option.map_eq_some_iff,
    Bool.not_eq_true']
  constructor
  · rintro ⟨⟨found, hfound, rfl⟩, hown⟩
    exact ⟨found, hfound, isVendored_slashed found ▸ hown, rfl⟩
  · rintro ⟨found, hfound, hown, rfl⟩
    exact ⟨⟨found, hfound, rfl⟩, (isVendored_slashed found).trans hown⟩

/-- Just the misses have nothing to offer. -/
theorem filter_resolve_eq_none_iff :
    ((s.resolve w req).value.map slashed).filter (fun file => !isVendored file) = none ↔
      s.Misses w req := by
  rw [Option.eq_none_iff_forall_ne_some, Strategy.misses_iff]
  simp only [ne_eq, filter_resolve_eq_some_iff, not_exists, not_and]
  constructor
  · intro h found hfound
    by_contra hown
    exact h _ found hfound (by simpa using hown) rfl
  · intro h file found hfound hown
    rw [h found hfound] at hown
    exact absurd hown (by decide)

/-- A chain settles on the same file with misses put in. -/
theorem settled_of_paddedBy (h : PaddedBy (Strategy.Misses w req) chain longer) :
    settled w req longer = settled w req chain := by
  induction h with
  | nil => rfl
  | keep s _ ih =>
    rw [settled, settled, List.findSome?_cons, List.findSome?_cons]
    split
    · rfl
    · exact ih
  | insert s hs _ ih =>
    rw [settled, List.findSome?_cons, filter_resolve_eq_none_iff.mpr hs]
    exact ih

theorem settled_eq_none_iff : settled w req chain = none ↔ ∀ s ∈ chain, s.Misses w req := by
  rw [settled, List.findSome?_eq_none_iff]
  exact forall₂_congr fun _ _ => filter_resolve_eq_none_iff

/-- Misses that are put into a chain, wherever it may be, leave its answer as it is, and a chain has
no answer exactly if it consists of misses. An answer is written with slashes; it is a file that one
of the strategies finds, without the extension, and the folders on it are those of the file, none of
them a folder of third-party code. -/
theorem resolve_of_misses (w : Workspace) (req : Request) (chain : Chain) :
    (∀ longer, PaddedBy (Strategy.Misses w req) chain longer →
        (resolve w req longer).value = (resolve w req chain).value) ∧
      ((resolve w req chain).value = none ↔ ∀ s ∈ chain, s.Misses w req) ∧
      ∀ path, (resolve w req chain).value = some path →
        '\\' ∉ path.toList ∧ (∀ name ∈ (segments path).dropLast, name ∉ vendoredFolders) ∧
          ∃ s ∈ chain, ∃ file, s.outcome w req = .ok (some file) ∧
            path = dropExtension (slashed file) ∧
              (segments path).dropLast = (segments (slashed file)).dropLast := by
  refine ⟨fun longer hlonger => ?_, ?_, fun path hpath => ?_⟩
  · rw [resolve_value, resolve_value, settled_of_paddedBy hlonger]
  · rw [resolve_value, Option.map_eq_none_iff, settled_eq_none_iff]
  · rw [resolve_value, Option.map_eq_some_iff] at hpath
    obtain ⟨_, hsettled, rfl⟩ := hpath
    obtain ⟨s, hs, hfile⟩ := List.exists_of_findSome?_eq_some hsettled
    obtain ⟨file, hfound, hown, rfl⟩ := filter_resolve_eq_some_iff.mp hfile
    have hslashed := backslash_not_mem_slashed file
    have hfolders := dropLast_segments_dropExtension (slashed file)
    refine ⟨fun hmem => hslashed ((prefix_dropExtension _).subset hmem), ?_, s, hs, file, hfound,
      rfl, hfolders⟩
    intro name hname hvendored
    rw [hfolders] at hname
    have hother : isVendored (slashed file) = true :=
      (isVendored_iff hslashed).mpr ⟨name, List.dropLast_subset _ hname, hvendored⟩
    rw [isVendored_slashed, hown] at hother
    exact absurd hother (by decide)

/-- A provider that fails, one that answers with third-party code, and between them a file in a
folder with a dot in its name. -/
theorem resolve_between_misses :
    let w := (Store.ofList "/p" [("src/v1.2/a.d.ts", "")]).toWorkspace
    let req : Request := ⟨"./a.d", 0, "src/v1.2/b.ts"⟩
    let failing : Strategy := .definition (.asking fun _ _ => .error "no language server")
    let vendored : Strategy := .definition (.asking fun _ _ => .ok ["/p/vendor/a.ts"])
    let chain : Chain := [.manual .standard]
    failing.Misses w req ∧ vendored.Misses w req ∧
      (resolve w req [failing, .manual .standard, vendored]).value = (resolve w req chain).value ∧
      (resolve w req chain).value = some "src/v1.2/a.d" ∧
      '\\' ∉ "src/v1.2/a.d".toList ∧
      ∀ name ∈ (segments "src/v1.2/a.d").dropLast, name ∉ vendoredFolders := by
  intro w req failing vendored chain
  have hfailing : failing.Misses w req := Or.inl ⟨_, rfl⟩
  have hvendored : vendored.Misses w req := by
    refine Or.inr (Or.inr ⟨"vendor/a.ts", ?_, by decide +kernel⟩)
    decide +kernel
  have hanswer : (resolve w req chain).value = some "src/v1.2/a.d" := by decide +kernel
  obtain ⟨hpadded, -, hfound⟩ := resolve_of_misses w req chain
  obtain ⟨hslash, hfolders, -⟩ := hfound _ hanswer
  exact ⟨hfailing, hvendored,
    hpadded _ (.insert failing hfailing (.keep _ (.insert vendored hvendored .nil))), hanswer,
    hslash, hfolders⟩

end Chain

end ImportScout
