import ImportScout.Resolve.Chain
import ImportScout.Proofs.Path.Climb

/-! # Where resolution leads

A chain of strategies settles on the first file that is found outside of third-party code, and
answers with its path without the extension (`resolve_value`). Nothing on that way asks whether the
file is below the root. The answer stays inside if and only if the file is sheltered, and a
definition counts as a miss only if its names do not begin with the names of the root
(`Strategy.byDefinition_eq_none_iff`).
-/

namespace ImportScout

/-! ## Definitions outside the root -/

namespace Path

/-- Whether a path is absolute and, name by name, does not begin like the root. -/
def Foreign (root path : String) : Prop :=
  isAbsolute path = true ∧ root ≠ "" ∧ ¬(isAbsolute root = true ∧ names root <+: names path)

theorem below?_eq_none_iff (root path : String) :
    below? root path = none ↔
      root ≠ "" ∧ ¬(isAbsolute root = true ∧ names root <+: names path) := by
  rw [below?]
  by_cases hroot : root = ""
  · simp [hroot]
  · rw [if_neg hroot, ← List.isPrefixOf_iff_prefix, ← Bool.and_eq_true]
    by_cases hbelow : (isAbsolute root && (names root).isPrefixOf (names path)) = true
    · simp [hbelow]
    · simp [hbelow, hroot]

/-- Just the foreign paths have no spelling relative to the root. -/
theorem relativeTo?_eq_none_iff (root path : String) :
    relativeTo? root path = none ↔ Foreign root path := by
  rw [relativeTo?, Foreign]
  by_cases habs : isAbsolute path = true
  · rw [if_pos habs, Option.map_eq_none_iff, below?_eq_none_iff]
    exact (and_iff_right habs).symm
  · simp [habs]

end Path

/-- A definition is a miss if none is known or the first one is foreign. -/
theorem Strategy.byDefinition_eq_none_iff (p : Provider) (w : Workspace) (req : Request) :
    (byDefinition p w req).value = none ↔
      ∀ target others, (p.definitions (Path.onto w.root req.source) req.offset).value =
        .ok (target :: others) → Path.Foreign w.root target := by
  rw [byDefinition, Traced.value_bind]
  cases (p.definitions (Path.onto w.root req.source) req.offset).value with
  | error message => simp
  | ok targets =>
    cases targets with
    | nil => simp
    | cons target others =>
      rw [Traced.value_pure, Path.relativeTo?_eq_none_iff]
      constructor
      · rintro hforeign target' others' heq
        cases heq
        exact hforeign
      · intro h
        exact h target others rfl

namespace Chain

/-! ## The file behind an answer -/

/-- The file that a chain settles on: the first one that a strategy finds outside of third-party
code. -/
def settled (w : Workspace) (req : Request) (chain : Chain) : Option String :=
  chain.findSome? fun s =>
    ((s.resolve w req).value.map Path.slashed).filter fun file => !Path.isVendored file

theorem accept_eq (found : Option String) :
    accept found = ((found.map Path.slashed).filter fun file => !Path.isVendored file).map
      Path.dropExtension := by
  cases found with
  | none => rfl
  | some file =>
    rw [accept, Option.map_some, Option.filter_some]
    by_cases h : Path.isVendored (Path.slashed file) <;> simp [h]

/-- A chain answers with the file it settles on, without the extension. -/
theorem resolve_value (w : Workspace) (req : Request) (chain : Chain) :
    (resolve w req chain).value = (settled w req chain).map Path.dropExtension := by
  induction chain with
  | nil => rfl
  | cons s chain ih =>
    rw [resolve, Traced.value_bind, accept_eq, settled, List.findSome?_cons]
    cases ((s.resolve w req).value.map Path.slashed).filter
        fun file => !Path.isVendored file with
    | none => exact ih
    | some file => rfl

/-! ## Answers inside the workspace -/

/-- An answer stays inside exactly if the file behind it is sheltered, whichever strategy found it.
A definition counts as a miss exactly if it is foreign by its names; one that climbs out of the root
after them, or is relative, is passed on. -/
theorem inside_resolve_iff (w : Workspace) (req : Request) (chain : Chain) :
    ((∀ path, (resolve w req chain).value = some path → Path.Inside path) ↔
        ∀ file, settled w req chain = some file → Path.Sheltered file) ∧
      ∀ p, (Strategy.byDefinition p w req).value = none ↔
        ∀ target others, (p.definitions (Path.onto w.root req.source) req.offset).value =
          .ok (target :: others) → Path.Foreign w.root target := by
  refine ⟨?_, fun p => Strategy.byDefinition_eq_none_iff p w req⟩
  rw [resolve_value]
  cases settled w req chain with
  | none => simp
  | some file =>
    constructor
    · intro h file' heq
      cases heq
      exact (Path.inside_dropExtension_iff file).mp (h _ rfl)
    · intro h path heq
      cases heq
      exact (Path.inside_dropExtension_iff file).mpr (h file rfl)

/-- A provider that points from the root `/p` to a neighbour of it, once by an absolute path and
once by a relative one, is believed both times. -/
theorem resolve_climbs :
    let answering (target : String) : Chain :=
      [.definition (.asking fun _ _ => .ok [target])]
    let w : Workspace := ⟨"/p", fun _ _ => .ok [], fun path => .error (.notFound path)⟩
    let req : Request := ⟨"./x", 0, "src/a.ts"⟩
    (resolve w req (answering "/p/../secret.ts")).value = some "../secret" ∧
      (resolve w req (answering "../secret.ts")).value = some "../secret" ∧
      ¬Path.Inside "../secret" := by
  refine ⟨by decide +kernel, by decide +kernel, ?_⟩
  rintro ⟨-, hclimbs⟩
  refine hclimbs ⟨[".."], ?_, by decide⟩
  exact ⟨["secret"], by decide +kernel⟩

end Chain

end ImportScout
