import Mathlib.Data.List.Forall2
import ImportScout.Proofs.Path.Absolute
import ImportScout.Rank.Score
import ImportScout.Workspace.Store

/-! # Ranking and the spelling of files

Ranking sees the file of a snippet relative to the root only: it is what is compared with the files
that are imported, what imports are read from, what is opened for an offset and what a provider is
asked about. Snippets that are seen alike in this way (`Engine.SeesAlike`) rank alike, and the same
calls are made for them. So a file may be named by its path relative to the root or by an absolute
path, however the root is spelled in it (`Engine.score_of_respelled`).
-/

namespace ImportScout

open ImportScout.Path

/-- Whether a snippet is the other one, but that its file, named by a path that is worked out, may
be named by an absolute path below the root instead. -/
inductive Snippet.Respells (root : String) (s : Snippet) : Snippet → Prop
  | same : Respells root s s
  | absolute {base : String} (spelled : collapse? s.fileName = some s.fileName)
      (ne_empty : s.fileName ≠ "") (base_absolute : isAbsolute base = true)
      (base_names : names base = names root) :
      Respells root s { s with fileName := onto base s.fileName }

namespace Engine

/-- Whether two snippets differ at most in how their file is named and in what ranking does not look
at, and their file is the same to it. -/
structure SeesAlike (e : Engine) (s s' : Snippet) : Prop where
  fileName : s.fileName = "" ↔ s'.fileName = ""
  relative : e.relative s.fileName = e.relative s'.fileName
  text : s.text = s'.text
  origin : s.origin = s'.origin
  kind : s.kind = s'.kind
  startLine : s.startLine = s'.startLine
  isFullFile : s.isFullFile = s'.isFullFile

variable {e : Engine} {s s' : Snippet} {snippets snippets' : List Snippet}

/-! ## Snippets that are seen alike -/

theorem SeesAlike.isNamed_eq (h : e.SeesAlike s s') : (s.fileName != "") = (s'.fileName != "") := by
  rw [Bool.eq_iff_iff, bne_iff_ne, bne_iff_ne, ne_eq, ne_eq, h.fileName]

theorem SeesAlike.counts_eq (h : e.SeesAlike s s') : counts s = counts s' := by
  rw [counts, counts, Snippet.isPrimary, Snippet.isPrimary, h.origin, h.kind, h.isNamed_eq, h.text]

theorem SeesAlike.importsOf_eq (h : e.SeesAlike s s') : e.importsOf s = e.importsOf s' := by
  simp only [importsOf, offsetOf, h.relative, h.text, h.startLine, h.isFullFile]

theorem present_eq_of_seesAlike (h : List.Forall₂ e.SeesAlike snippets snippets') :
    e.present snippets = e.present snippets' := by
  rw [present, present]
  induction h with
  | nil => rfl
  | cons hs h ih =>
    rw [List.filter_cons, List.filter_cons, hs.isNamed_eq]
    split_ifs
    · rw [List.map_cons, List.map_cons, hs.relative, ih]
    · exact ih

theorem tallyFrom_eq_of_seesAlike (h : List.Forall₂ e.SeesAlike snippets snippets')
    (known : List String) (tally : List (String × ℕ)) :
    e.tallyFrom known (snippets.filter counts) tally =
      e.tallyFrom known (snippets'.filter counts) tally := by
  induction h generalizing tally with
  | nil => rfl
  | cons hs h ih =>
    rw [List.filter_cons, List.filter_cons, hs.counts_eq]
    split_ifs
    · rw [tallyFrom, tallyFrom, hs.importsOf_eq]
      simp only [ih]
    · exact ih tally

/-- Lists of snippets that are seen alike rank alike, by the same calls. -/
theorem score_eq_of_seesAlike (h : List.Forall₂ e.SeesAlike snippets snippets') :
    e.score snippets = e.score snippets' := by
  rw [score, score, frequencies, frequencies, present_eq_of_seesAlike h,
    tallyFrom_eq_of_seesAlike h]

/-! ## Snippets whose file is spelled anew -/

theorem seesAlike_of_respells (hroot : isAbsolute e.workspace.root = true)
    (h : s.Respells e.workspace.root s') : e.SeesAlike s s' := by
  cases h with
  | same => exact ⟨Iff.rfl, rfl, rfl, rfl, rfl, rfl, rfl⟩
  | @absolute base spelled ne_empty base_absolute base_names =>
    have habsolute := isAbsolute_onto base_absolute s.fileName
    have hnamed : onto base s.fileName ≠ "" := by
      intro hempty
      rw [hempty] at habsolute
      exact absurd habsolute (by decide)
    have hrelative : isAbsolute s.fileName = false := by
      obtain ⟨-, hsegs, hpath⟩ := names_of_spelled spelled ne_empty
      rw [← hpath]
      exact isAbsolute_ofSegments hsegs
    refine ⟨iff_of_false ne_empty hnamed, ?_, rfl, rfl, rfl, rfl, rfl⟩
    rw [relative, relative, relativeTo?_onto hroot base_absolute base_names spelled ne_empty,
      relativeTo?, hrelative]
    rfl

/-- Naming the files of some snippets by absolute paths below the root, in any spelling of the root,
and not by their paths relative to it changes neither the scores nor the calls that are made for
them. -/
theorem score_of_respelled (e : Engine) (hroot : isAbsolute e.workspace.root = true)
    {snippets snippets' : List Snippet}
    (h : List.Forall₂ (Snippet.Respells e.workspace.root) snippets snippets') :
    e.score snippets' = e.score snippets :=
  (score_eq_of_seesAlike (h.imp fun _ _ => seesAlike_of_respells hroot)).symm

/-- A part of a file, named by an absolute path, beside another snippet. -/
theorem score_of_respelled_part :
    let s : Store := .ofList "/p/"
      [("core/a.ts", "import './b';"), ("src/one.ts", "// one\nimport '../core/a';")]
    let chain : Chain := .standard (.asking fun _ _ => .ok []) ⟨[".ts"], []⟩
    let e : Engine := ⟨s.toWorkspace, chain, [".ts"], {}⟩
    let part : Snippet :=
      { Snippet.userCode "src/one.ts" "import '../core/a';" with startLine := some 2 }
    let other := Snippet.userCode "src/two.ts" "import '../core/a';"
    (e.score [part, other]).value = [⟨"core/a", 2, 1⟩] ∧
      .read "src/one.ts" ∈ (e.score [part, other]).calls ∧
        .query "/p/src/one.ts" 15 ∈ (e.score [part, other]).calls ∧
          e.score [{ part with fileName := "/p/./src/one.ts" }, other] = e.score [part, other] := by
  intro s chain e part other
  have honto : onto "/p/." "src/one.ts" = "/p/./src/one.ts" := by decide +kernel
  have hpart : part.Respells "/p/" { part with fileName := onto "/p/." "src/one.ts" } :=
    .absolute (by decide +kernel) (by decide) (by decide) (by decide +kernel)
  rw [honto] at hpart
  exact ⟨by decide +kernel, by decide +kernel, by decide +kernel,
    score_of_respelled e (by decide) (.cons hpart (.cons .same .nil))⟩

end Engine

end ImportScout
