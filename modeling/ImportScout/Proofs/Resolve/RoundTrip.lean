import ImportScout.Bundle.Basic
import ImportScout.Proofs.Resolve.Probe
import ImportScout.Proofs.Workspace.Search

/-! # From a file to its path and back

Resolving forgets the extension of the file that it has found, and probing guesses it again. The
guess is right exactly if the first search with an answer answers with that file. Where plain paths
are looked up, as in a store and in a folder of a disk, this is a matter of the files next to it:
the extension must be one that is tried, and nothing may be found by the path as it is or with an
extension that is tried before (`Probe.fileFor_dropExtension_iff`). The file that is guessed, be it
the right one or not, is the one that is exported (`Probe.loadOne_eq_some_iff`) and the one whose
imports are counted (`Probe.hubScore_eq_loadOne`).
-/

namespace ImportScout

open ImportScout.Path

/-! ## Looking plain paths up -/

/-- Whether a search for `path` gives this one file. -/
def Workspace.Has (w : Workspace) (path : String) : Prop :=
  w.find path 1 = .ok [path]

instance (w : Workspace) (path : String) : Decidable (w.Has path) :=
  inferInstanceAs (Decidable (w.find path 1 = .ok [path]))

/-- Whether a search for a plain path gives the file at this path or nothing. -/
def Workspace.LooksUp (w : Workspace) : Prop :=
  ∀ path, IsPlain path → w.Has path ∨ w.find path 1 = .ok []

theorem Store.looksUp (s : Store) : s.toWorkspace.LooksUp := by
  intro path hpath
  simp only [Workspace.Has, toWorkspace, find, hpath.literal, slashed_of_not_mem hpath.unslashed]
  split_ifs <;> simp_all

theorem FolderWorkspace.looksUp (w : FolderWorkspace) (d : Disk) : (w.toWorkspace d).LooksUp := by
  intro path hpath
  rw [Workspace.Has, find_toWorkspace, find_plain hpath Nat.one_ne_zero, findLiteral, hpath.spelled]
  dsimp only
  split_ifs <;> simp

section LooksUp

variable {w : Workspace} (hw : w.LooksUp) {path : String} (hpath : IsPlain path)

include hw hpath

theorem Workspace.LooksUp.probe_eq_some_iff {file : String} :
    (w.probe path).value = .ok (some file) ↔ file = path ∧ w.Has path := by
  rw [probe]
  rcases hw path hpath with hfind | hfind
  · rw [Has] at hfind
    simp only [hfind, Except.map, List.head?_cons, Except.ok.injEq, Option.some.injEq]
    exact ⟨fun h => ⟨h.symm, hfind⟩, fun h => h.1.symm⟩
  · simp only [hfind, Except.map, List.head?_nil, Except.ok.injEq, reduceCtorEq, false_iff]
    rintro ⟨-, hhas⟩
    rw [Has, hfind] at hhas
    simp at hhas

theorem Workspace.LooksUp.probe_eq_none_iff :
    (w.probe path).value = .ok none ↔ ¬w.Has path := by
  rcases hw path hpath with hfind | hfind
  · rw [Has] at hfind
    simp [probe, Has, hfind, Except.map]
  · simp [probe, Has, hfind, Except.map]

end LooksUp

namespace Probe

variable {w : Workspace} {extensions : List String} {path file : String}

/-! ## Probing for a path without its extension -/

theorem fileFor_eq_some_iff :
    (fileFor w extensions path).value = .ok (some file) ↔
      ∃ spelled before pattern after, collapse? path = some spelled ∧ spelled ≠ "" ∧
        candidates spelled extensions = before ++ pattern :: after ∧
          (w.probe pattern).value = .ok (some file) ∧
            ∀ other ∈ before, (w.probe other).value = .ok none := by
  rw [fileFor]
  cases collapse? path with
  | none => simp
  | some spelled =>
    by_cases hempty : spelled = ""
    · simp [hempty]
    · simp [hempty, firstHit_eq_some_iff]

theorem isPlainExtension_of_mem_defaultExtensions :
    ∀ ext ∈ ProbeOptions.defaultExtensions, IsPlainExtension ext := by
  decide +kernel

theorem isPlain_of_mem_candidates (hpath : IsPlain path)
    (hext : ∀ ext ∈ extensions, IsPlainExtension ext) :
    ∀ candidate ∈ candidates path extensions, IsPlain candidate := by
  have hindex : IsPlain (path ++ "/index") := by
    have hname : IsPlain "index" := by decide +kernel
    have hbelow := hpath.below hname
    rwa [String.append_assoc] at hbelow
  have hpackage : IsPlain (path ++ "/__init__.py") := by
    have hname : IsPlain "__init__.py" := by decide +kernel
    have hbelow := hpath.below hname
    rwa [String.append_assoc] at hbelow
  intro candidate hcandidate
  simp only [candidates, List.mem_cons, List.mem_append, List.mem_map, List.not_mem_nil, or_false]
    at hcandidate
  rcases hcandidate with rfl | (⟨ext, hmem, rfl⟩ | ⟨ext, hmem, rfl⟩) | rfl
  · exact hpath
  · exact hpath.append (hext ext hmem)
  · exact hindex.append (hext ext hmem)
  · exact hpackage

/-- No candidate in a folder is the file that the extension was taken from. -/
theorem inFolder_ne (before after : List String) :
    extensions.map (dropExtension file ++ "/index" ++ ·) ++ [dropExtension file ++ "/__init__.py"] ≠
      before ++ file :: after := by
  intro hsplit
  have hmem : file ∈ extensions.map (dropExtension file ++ "/index" ++ ·) ++
      [dropExtension file ++ "/__init__.py"] := by
    rw [hsplit]
    exact List.mem_append_right before List.mem_cons_self
  rw [List.mem_append, List.mem_map, List.mem_singleton] at hmem
  rcases hmem with ⟨ext, -, hfile⟩ | hfile
  · rw [String.append_assoc] at hfile
    exact slash_not_mem_of_dropExtension hfile (by simp)
  · exact slash_not_mem_of_dropExtension hfile.symm (by decide +kernel)

/-- The candidates before the file that the extension was taken from are the path as it is and with
every extension before this one, unless nothing was taken. -/
theorem candidates_split {before after : List String}
    (h : candidates (dropExtension file) extensions = before ++ file :: after) :
    dropExtension file = file ∨
      ∃ earlier ext later, extensions = earlier ++ ext :: later ∧ dropExtension file ++ ext = file ∧
        before = dropExtension file :: earlier.map (dropExtension file ++ ·) := by
  cases before with
  | nil => exact Or.inl (List.cons.inj h).1
  | cons first before =>
    obtain ⟨rfl, hrest⟩ := List.cons.inj h
    rw [List.append_assoc] at hrest
    -- the file is none of the candidates in the folder, so it has one of the extensions
    rcases List.append_eq_append_iff.mp hrest with ⟨skipped, -, hfolder⟩ | ⟨tried, hexts, htried⟩
    · exact absurd hfolder (inFolder_ne skipped after)
    · cases tried with
      | nil => exact absurd htried.symm (inFolder_ne [] after)
      | cons next tried =>
        obtain ⟨rfl, -⟩ := List.cons.inj htried
        obtain ⟨earlier, others, rfl, rfl, hothers⟩ := List.map_eq_append_iff.mp hexts
        obtain ⟨ext, later, rfl, hfile, -⟩ := List.map_eq_cons_iff.mp hothers
        exact Or.inr ⟨earlier, ext, later, rfl, hfile, rfl⟩

/-- Where plain paths are looked up, the file that the extension was taken from is found again
exactly if it is there and its extension is tried before any other with which a file is there. -/
theorem fileFor_dropExtension_iff (hw : w.LooksUp) (hpath : IsPlain (dropExtension file))
    (hext : ∀ ext ∈ extensions, IsPlainExtension ext) :
    (fileFor w extensions (dropExtension file)).value = .ok (some file) ↔
      w.Has file ∧
        (dropExtension file = file ∨
          ¬w.Has (dropExtension file) ∧
            ∃ before ext after, extensions = before ++ ext :: after ∧
              dropExtension file ++ ext = file ∧
                ∀ other ∈ before, ¬w.Has (dropExtension file ++ other)) := by
  have hplain := isPlain_of_mem_candidates hpath hext
  rw [fileFor, hpath.spelled]
  dsimp only
  rw [if_neg hpath.ne_empty, firstHit_eq_some_iff]
  constructor
  · rintro ⟨before, pattern, after, hsplit, hhit, hmiss⟩
    rw [hsplit, List.forall_mem_append, List.forall_mem_cons] at hplain
    obtain ⟨rfl, hhas⟩ := (hw.probe_eq_some_iff hplain.2.1).mp hhit
    have hnone : ∀ other ∈ before, ¬w.Has other := fun other hother =>
      (hw.probe_eq_none_iff (hplain.1 other hother)).mp (hmiss other hother)
    refine ⟨hhas, (candidates_split hsplit).imp_right ?_⟩
    rintro ⟨earlier, ext, later, rfl, hfile, rfl⟩
    rw [List.forall_mem_cons, List.forall_mem_map] at hnone
    exact ⟨hnone.1, earlier, ext, later, rfl, hfile, hnone.2⟩
  · rintro ⟨hhas, hsame | ⟨hstem, before, ext, after, rfl, hfile, hmiss⟩⟩
    · refine ⟨[], file, _, by rw [candidates, hsame, List.nil_append], ?_, by simp⟩
      exact (hw.probe_eq_some_iff (hsame ▸ hpath)).mpr ⟨rfl, hhas⟩
    · refine ⟨dropExtension file :: before.map (dropExtension file ++ ·), file,
        after.map (dropExtension file ++ ·) ++
          ((before ++ ext :: after).map (dropExtension file ++ "/index" ++ ·) ++
            [dropExtension file ++ "/__init__.py"]), ?_, ?_, ?_⟩
      · simp [candidates, hfile]
      · have hplainFile : IsPlain file := hfile ▸ hpath.append (hext ext (by simp))
        exact (hw.probe_eq_some_iff hplainFile).mpr ⟨rfl, hhas⟩
      · rw [List.forall_mem_cons, List.forall_mem_map]
        refine ⟨(hw.probe_eq_none_iff hpath).mpr hstem, fun other hother => ?_⟩
        exact (hw.probe_eq_none_iff (hpath.append (hext other (by simp [hother])))).mpr
          (hmiss other hother)

/-- The file that is exported is the one that probing finds, read as it is now. -/
theorem loadOne_eq_some_iff {snippet : Snippet} :
    (Bundle.loadOne w extensions path).value = some snippet ↔
      ∃ found text, (fileFor w extensions path).value = .ok (some found) ∧
        w.read found = .ok text ∧ snippet = .fullFile found text .suggestion := by
  rw [Bundle.loadOne, Traced.value_bind]
  rcases (fileFor w extensions path).value with fault | found | found
  · simp
  · simp
  · dsimp only
    rw [Traced.value_bind, Workspace.open?]
    cases hread : w.read found with
    | error fault => simp [hread]
    | ok text => simp [hread, @eq_comm _ snippet]

/-- The imports are counted of the text that is exported. -/
theorem hubScore_eq_loadOne :
    (hubScore w extensions path).value =
      (Bundle.loadOne w extensions path).value.elim 0 fun snippet =>
        (Import.extractLocal snippet.text).length := by
  rw [hubScore, Bundle.loadOne, Traced.value_bind, Traced.value_bind]
  rcases (fileFor w extensions path).value with fault | found | found
  · rfl
  · rfl
  · dsimp only
    rw [Traced.value_bind, Traced.value_bind]
    rcases (w.open? found).value with fault | text
    · rfl
    · rfl

end Probe

namespace Strategy

/-- A file that probing finds and that is no third-party code is answered without its extension.
Probing for this answer finds the file again exactly if it is what the first search with an answer
gives; where plain paths are looked up, this is told by the files next to it. The imports are
counted, and the text is exported, of the file that is found now. -/
theorem resolve_manual_probed_again (w : Workspace) (o : ProbeOptions) (req : Request)
    (file : String) (h : ((Strategy.manual o).resolve w req).value = some file)
    (hkept : isVendored file = false) :
    let stem := dropExtension (slashed file)
    (Chain.resolve w req (.manual o)).value = some stem ∧
      ((Probe.fileFor w o.extensions stem).value = .ok (some file) ↔
        ∃ path before pattern after, collapse? stem = some path ∧ path ≠ "" ∧
          Probe.candidates path o.extensions = before ++ pattern :: after ∧
            (w.probe pattern).value = .ok (some file) ∧
              ∀ other ∈ before, (w.probe other).value = .ok none) ∧
      (w.LooksUp → slashed file = file → IsPlain stem →
        (∀ ext ∈ o.extensions, IsPlainExtension ext) →
          ((Probe.fileFor w o.extensions stem).value = .ok (some file) ↔
            w.Has file ∧
              (stem = file ∨
                ¬w.Has stem ∧
                  ∃ before ext after, o.extensions = before ++ ext :: after ∧
                    stem ++ ext = file ∧ ∀ other ∈ before, ¬w.Has (stem ++ other)))) ∧
      (hubScore w o.extensions stem).value =
        ((Bundle.loadOne w o.extensions stem).value.elim 0 fun snippet =>
          (Import.extractLocal snippet.text).length) ∧
      ∀ snippet, (Bundle.loadOne w o.extensions stem).value = some snippet ↔
        ∃ found text, (Probe.fileFor w o.extensions stem).value = .ok (some found) ∧
          w.read found = .ok text ∧ snippet = .fullFile found text .suggestion := by
  intro stem
  refine ⟨?_, Probe.fileFor_eq_some_iff, ?_, Probe.hubScore_eq_loadOne, fun snippet =>
    Probe.loadOne_eq_some_iff⟩
  · rw [Chain.manual, Chain.resolve, Traced.value_bind, h]
    dsimp only [Chain.accept]
    rw [isVendored_slashed, hkept, if_neg Bool.false_ne_true, Traced.value_pure]
  · intro hw hslashed hplain hext
    simp only [stem, hslashed] at hplain ⊢
    exact Probe.fileFor_dropExtension_iff hw hplain hext

/-- A file is found again next to one with an extension that is tried later. -/
theorem resolve_manual_probed_again_earlier_extension :
    let s : Store := .ofList "/p" [("src/a.py", ""), ("src/a.ts", "import './b';")]
    let o : ProbeOptions := .standard
    ((Strategy.manual o).resolve s.toWorkspace ⟨"./a.ts", 0, "src/main.ts"⟩).value =
        some "src/a.ts" ∧
      isVendored "src/a.ts" = false ∧
      (Chain.resolve s.toWorkspace ⟨"./a.ts", 0, "src/main.ts"⟩ (.manual o)).value = some "src/a" ∧
      (Probe.fileFor s.toWorkspace o.extensions "src/a").value = .ok (some "src/a.ts") ∧
      (Bundle.loadOne s.toWorkspace o.extensions "src/a").value =
        some (.fullFile "src/a.ts" "import './b';" .suggestion) ∧
      (hubScore s.toWorkspace o.extensions "src/a").value =
        (Import.extractLocal "import './b';").length := by
  intro s o
  have hresolve : ((Strategy.manual o).resolve s.toWorkspace ⟨"./a.ts", 0, "src/main.ts"⟩).value =
      some "src/a.ts" := by
    decide +kernel
  have hkept : isVendored "src/a.ts" = false := by decide +kernel
  obtain ⟨hanswer, -, hagain, hcounted, hexported⟩ :=
    resolve_manual_probed_again s.toWorkspace o ⟨"./a.ts", 0, "src/main.ts"⟩ "src/a.ts" hresolve
      hkept
  have hstem : dropExtension (slashed "src/a.ts") = "src/a" := by decide +kernel
  rw [hstem] at hanswer hagain hcounted hexported
  have hhas : s.toWorkspace.Has "src/a.ts" := by decide +kernel
  have hmiss : ∀ other ∈ ["", ".js", ".jsx"], ¬s.toWorkspace.Has ("src/a" ++ other) := by
    decide +kernel
  rw [List.forall_mem_cons] at hmiss
  have hfound := (hagain s.looksUp (by decide +kernel) (by decide +kernel)
    Probe.isPlainExtension_of_mem_defaultExtensions).mpr
      ⟨hhas, Or.inr ⟨hmiss.1, [".js", ".jsx"], ".ts", _, rfl, by decide +kernel, hmiss.2⟩⟩
  have hread : s.toWorkspace.read "src/a.ts" = .ok "import './b';" := by decide +kernel
  have hsnippet := (hexported _).mpr ⟨_, _, hfound, hread, rfl⟩
  rw [hsnippet] at hcounted
  exact ⟨hresolve, hkept, hanswer, hfound, hsnippet, hcounted⟩

/-- A file with an extension that is tried later hides behind its neighbour. -/
theorem resolve_manual_hides_later_extension :
    let s : Store :=
      .ofList "/p" [("src/a.js", "export const js = 1;"), ("src/a.ts", "export const ts = 1;")]
    let o : ProbeOptions := .standard
    ((Strategy.manual o).resolve s.toWorkspace ⟨"./a.ts", 0, "src/main.ts"⟩).value =
        some "src/a.ts" ∧
      isVendored "src/a.ts" = false ∧
      (Probe.fileFor s.toWorkspace o.extensions (dropExtension "src/a.ts")).value =
        .ok (some "src/a.js") := by
  decide +kernel

end Strategy

end ImportScout
