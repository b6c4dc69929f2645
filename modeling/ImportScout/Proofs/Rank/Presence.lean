import ImportScout.Proofs.Path.Location
import ImportScout.Proofs.Rank.Ranking

/-! # Files that are in the list already

A file that the user has in the list is not worth suggesting. Ranking leaves files out by their
spelling: an imported file is skipped if it is written like the shortened name of a file in the
list. This keeps the places of listed files out of the suggestions, for all limits, if and only if
every import of a listed place is spelled like a listed name. It is enough where all spellings are
worked out, and not where an import keeps a `./` in front.
-/

namespace ImportScout.Engine

open ImportScout.Path

/-- Whether a file of the list is at a place below the root, extensions left out. -/
def Listed (e : Engine) (snippets : List Snippet) (place : List String) : Prop :=
  ∃ s ∈ snippets, s.fileName ≠ "" ∧ ∃ rel, relativeTo? e.workspace.root s.fileName = some rel ∧
    location (dropExtension rel) = place

/-- No suggestion is at the place of a file of the list. -/
def AvoidsListed (e : Engine) (snippets : List Snippet) : Prop :=
  (∀ score ∈ (e.score snippets).value, ¬e.Listed snippets (location score.path)) ∧
    ∀ path ∈ (e.rank snippets).value, ¬e.Listed snippets (location path)

variable {e : Engine} {snippets : List Snippet}

/-- A listed place is the location of a name by which files are left out. -/
theorem Listed.exists_present {place : List String} (h : e.Listed snippets place) :
    ∃ name ∈ e.present snippets, location name = place := by
  obtain ⟨s, hs, hname, rel, hrel, rfl⟩ := h
  refine ⟨key rel, ?_, location_key hrel⟩
  have hrelative : e.relative s.fileName = rel := by rw [relative, hrel, Option.getD_some]
  rw [present, List.mem_map]
  exact ⟨s, List.mem_filter.mpr ⟨hs, bne_iff_ne.mpr hname⟩, by rw [hrelative]⟩

/-- Whatever is seen is suggested under limits that are wide enough. -/
theorem mem_rank_of_mem_seen {path : String} (h : path ∈ e.seen snippets) :
    ∃ l, path ∈ (Engine.rank { e with limits := l } snippets).value := by
  -- nothing is dropped for its frequency, and there is room for everything
  let wide : Engine := { e with limits := ⟨(e.seen snippets).length, 0, 0⟩ }
  have hall : wide.contenders snippets = e.seen snippets :=
    (contenders_eq_seen (Nat.zero_le 1)).trans (e.seen_limits _ snippets)
  have hperm := (wide.isRanking_score snippets).perm_contenders (Nat.le_of_eq (by rw [hall]))
  refine ⟨wide.limits, ?_⟩
  rw [rank_value]
  exact hperm.mem_iff.mpr (by rwa [hall])

/-- Places of listed files stay out of the suggestions if they stay out of what is seen. -/
theorem avoidsListed_of_seen (h : ∀ path ∈ e.seen snippets, ¬e.Listed snippets (location path)) :
    e.AvoidsListed snippets := by
  have hscore : ∀ score ∈ (e.score snippets).value, ¬e.Listed snippets (location score.path) := by
    intro score hscore
    have hmem := (e.isRanking_score snippets).mem_contenders hscore
    exact h _ (List.mem_of_mem_filter hmem)
  refine ⟨hscore, ?_⟩
  intro path hpath
  rw [rank_value] at hpath
  obtain ⟨score, hmem, rfl⟩ := List.mem_map.mp hpath
  exact hscore score hmem

/-- Under all limits no suggestion is at a listed place, exactly if each import that leads to such a
place is spelled like a name of the list. In particular this holds where the imported files and the
names of the list are spelled as they are worked out. -/
theorem avoidsListed_iff (e : Engine) (snippets : List Snippet) :
    ((∀ l, AvoidsListed { e with limits := l } snippets) ↔
        ∀ s ∈ snippets, counts s = true → ∀ path ∈ (e.importsOf s).value,
          e.Listed snippets (location path) → path ∈ e.present snippets) ∧
      ((∀ s ∈ snippets, counts s = true → ∀ path ∈ (e.importsOf s).value,
          collapse? path = some path) →
        (∀ name ∈ e.present snippets, collapse? name = some name) →
          ∀ l, AvoidsListed { e with limits := l } snippets) := by
  have exact_iff : (∀ l, AvoidsListed { e with limits := l } snippets) ↔
      ∀ s ∈ snippets, counts s = true → ∀ path ∈ (e.importsOf s).value,
        e.Listed snippets (location path) → path ∈ e.present snippets := by
    constructor
    · intro h s hs hcount path hpath hlisted
      by_contra hout
      have hseen : path ∈ e.seen snippets := mem_seen_iff.mpr ⟨⟨s, hs, hcount, hpath⟩, hout⟩
      obtain ⟨l, hrank⟩ := mem_rank_of_mem_seen hseen
      exact (h l).2 path hrank hlisted
    · intro h l
      refine avoidsListed_of_seen fun path hseen hlisted => ?_
      rw [seen_limits] at hseen
      obtain ⟨⟨s, hs, hcount, hpath⟩, hout⟩ := mem_seen_iff.mp hseen
      exact hout (h s hs hcount path hpath hlisted)
  refine ⟨exact_iff, ?_⟩
  intro himports hnames
  rw [exact_iff]
  intro s hs hcount path hpath hlisted
  obtain ⟨name, hname, hplace⟩ := hlisted.exists_present
  -- both are spelled by the place that they share
  have hspelled := eq_ofSegments_location (himports s hs hcount path hpath)
  rw [← hplace, ← eq_ofSegments_location (hnames name hname)] at hspelled
  rwa [hspelled]

/-- A provider answers with `./core/a.ts`, and that file is suggested although it is in the list. -/
theorem rank_repeats_listed :
    let e : Engine :=
      { workspace := ⟨"/p", fun _ _ => .ok [], fun path => .error (.notFound path)⟩
        chain := [.definition (.asking fun _ _ => .ok ["./core/a.ts"])]
        extensions := ProbeOptions.defaultExtensions
        limits := {} }
    let snippets : List Snippet :=
      [.userCode "core/a.ts" "export {};",
        .userCode "src/one.ts" "import '../core/a';",
        .userCode "src/two.ts" "import '../core/a';"]
    (e.rank snippets).value = ["./core/a"] ∧ e.Listed snippets (location "./core/a") := by
  refine ⟨by decide +kernel, ?_⟩
  exact ⟨_, List.mem_cons_self, by decide, "core/a.ts", by decide +kernel, by decide +kernel⟩

end ImportScout.Engine
