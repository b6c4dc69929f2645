import ImportScout.Resolve.Chain

/-! # What probing asks for

By convention a specifier is resolved by searches alone. Whatever the searches answer, no text is
read and no definition is asked for (`Strategy.onlySearches_byConvention`).
-/

namespace ImportScout

namespace Traced

variable {α β : Type}

/-- Whether nothing but searches was made for a value. -/
def OnlySearches (x : Traced α) : Prop :=
  ∀ call ∈ x.calls, ∃ pattern, call = .find pattern

theorem onlySearches_pure (a : α) : (pure a : Traced α).OnlySearches :=
  fun _ hcall => absurd hcall List.not_mem_nil

theorem OnlySearches.bind {x : Traced α} {f : α → Traced β} (hx : x.OnlySearches)
    (hf : (f x.value).OnlySearches) : (x >>= f).OnlySearches := by
  intro call hcall
  rw [calls_bind, List.mem_append] at hcall
  rcases hcall with hcall | hcall
  · exact hx call hcall
  · exact hf call hcall

end Traced

open Traced

variable (w : Workspace) (extensions : List String)

theorem Workspace.onlySearches_probe (pattern : String) : (w.probe pattern).OnlySearches :=
  fun _ hcall => ⟨pattern, List.mem_singleton.mp hcall⟩

theorem Probe.onlySearches_firstHit (patterns : List String) :
    (firstHit w patterns).OnlySearches := by
  induction patterns with
  | nil => exact onlySearches_pure _
  | cons pattern patterns ih =>
    rw [firstHit]
    refine (w.onlySearches_probe pattern).bind ?_
    split
    · exact onlySearches_pure _
    · exact onlySearches_pure _
    · exact ih

theorem Probe.onlySearches_fileFor (path : String) :
    (fileFor w extensions path).OnlySearches := by
  rw [fileFor]
  split
  · exact onlySearches_pure _
  · split
    · exact onlySearches_pure _
    · exact onlySearches_firstHit w _

theorem Strategy.onlySearches_inRoots (path : String) (roots : List String) :
    (inRoots w extensions path roots).OnlySearches := by
  induction roots with
  | nil => exact onlySearches_pure _
  | cons root roots ih =>
    rw [inRoots]
    refine (Probe.onlySearches_fileFor w extensions _).bind ?_
    split
    · exact onlySearches_pure _
    · exact onlySearches_pure _
    · exact ih

theorem Strategy.onlySearches_bare (spec : String) : (bare w extensions spec).OnlySearches := by
  rw [bare]
  split
  · split
    · refine (w.onlySearches_probe _).bind ?_
      dsimp only
      split
      · exact onlySearches_pure _
      · exact onlySearches_pure _
      · exact Probe.onlySearches_fileFor w extensions _
    · exact (onlySearches_pure _).bind (Probe.onlySearches_fileFor w extensions _)
  · exact (onlySearches_pure _).bind (Probe.onlySearches_fileFor w extensions _)

theorem Strategy.onlySearches_byConvention (o : ProbeOptions) (req : Request) :
    (byConvention o w req).OnlySearches := by
  rw [byConvention]
  split
  · split
    · exact onlySearches_pure _
    · exact Probe.onlySearches_fileFor w _ _
  · split
    · exact onlySearches_inRoots w _ _ _
    · exact Probe.onlySearches_fileFor w _ _
    · exact onlySearches_bare w _ _

end ImportScout
