import ImportScout.Proofs.Path.Walk
import ImportScout.Proofs.Workspace.Search

/-! # Confined to the root

A folder of a disk reads a file, and looks one up, by a path that is worked out first. Either the
path climbs, and then it is refused, or it is worked out to names alone, and what is opened is the
path of the root with these names behind it (`Raw.names_onto_ofPlace`). Reading and looking up
prepare the path differently, but they refuse the same paths and open the same one
(`FolderWorkspace.read_and_find_confined`).
-/

namespace ImportScout

open ImportScout.Path

/-! ## Names behind the root -/

namespace Path

theorem names_ofSegments {segs : List String} (h : ∀ name ∈ segs, IsName name) :
    names (ofSegments segs) = segs := by
  by_cases hne : segs = []
  · subst hne
    decide
  · rw [names, segments_ofSegments hne fun name hname => (h name hname).slash_not_mem]
    exact List.filter_eq_self.mpr fun name hname => by simp [(h name hname).isIdle_eq]

end Path

namespace FolderWorkspace

variable {w : FolderWorkspace} {d d₀ : Disk} {path : String} {exclusions : List String}
  {followLinks : Bool}

theorem isName_of_mem_root (named : d₀.top.IsNamed)
    (hw : ofPath d₀ path exclusions followLinks = .ok w) : ∀ name ∈ w.root, name.IsName := by
  obtain ⟨es, hes⟩ := Node.exists_folder_of_isFolder (ofPath_eq_ok hw).1
  exact (named.at? hes).2

/-! ## Refused or opened -/

theorem read_of_climbs {s : String} (h : Climbs (segments (slashed s))) :
    w.read d s = .error (.escapesRoot s) := by
  rw [read, (collapse?_eq_none_iff _).mpr h]

theorem findLiteral_of_climbs {s : String} (h : Climbs (segments s)) : w.findLiteral d s = [] := by
  rw [findLiteral, (collapse?_eq_none_iff _).mpr h]

section Kept

variable {s : String}

/-- A path that does not climb is read where it is worked out to. -/
theorem read_of_not_climbs (h : ¬Climbs (segments (slashed s))) :
    w.read d s =
      (d.read? (w.pathTo (ofSegments (location (slashed s))))).elim
        (.error (.unreadable (w.pathTo (ofSegments (location (slashed s)))).shown)) .ok := by
  rw [read, collapse?_of_not_climbs h]
  dsimp only
  cases d.read? (w.pathTo (ofSegments (location (slashed s)))) with
  | none => rw [Option.elim_none]
  | some text => rw [Option.elim_some]

/-- A path that does not climb is looked up where it is worked out to. -/
theorem findLiteral_of_not_climbs (h : ¬Climbs (segments s)) :
    w.findLiteral d s =
      if ofSegments (location s) ≠ "" ∧ isPruned (ofSegments (location s)) = false ∧
          w.isExcluded (ofSegments (location s)) = false ∧
            d.isFile (w.pathTo (ofSegments (location s))) = true then
        [ofSegments (location s)]
      else [] := by
  rw [findLiteral, collapse?_of_not_climbs h]
  simp [and_assoc]

end Kept

/-- In a workspace on a disk, reading a path is refused exactly if the path climbs, and looking up a
climbing pattern without wildcards finds nothing. Any other path is worked out to names, and working
it out again leaves it alone; behind the names of the root these are the names of the one path that
is opened by reading, and that is tried and given by looking up. -/
theorem read_and_find_confined (named : d₀.top.IsNamed)
    (hw : ofPath d₀ path exclusions followLinks = .ok w) (d : Disk) (s : String) :
    let inside := ofSegments (location (slashed s))
    let target := w.pathTo inside
    (w.read d s = .error (.escapesRoot s) ↔ Climbs (segments (slashed s))) ∧
      (Climbs (segments (slashed s)) → Glob.isLiteral s = true →
        ∀ limit, w.find d s limit = .ok []) ∧
      (¬Climbs (segments (slashed s)) →
        (∀ name ∈ location (slashed s), IsName name) ∧ join? "" inside = some inside ∧
          target.isAbsolute = true ∧
          target.names = w.root ++ (location (slashed s)).map Raw.ofText ∧
          w.read d s = (d.read? target).elim (.error (.unreadable target.shown)) .ok ∧
          (Glob.isLiteral s = true → ∀ limit, w.find d s limit =
            .ok (if limit ≠ 0 ∧ inside ≠ "" ∧ isPruned inside = false ∧
                w.isExcluded inside = false ∧ d.isFile target = true then [inside] else []))) := by
  intro inside target
  have hfind (hliteral : Glob.isLiteral s = true) (limit : ℕ) :
      w.find d s limit = .ok (if limit = 0 then [] else w.findLiteral d (slashed s)) := by
    split_ifs with hlimit
    · simp [find, hlimit]
    · exact find_of_literal hliteral hlimit
  refine ⟨⟨fun hrefused => ?_, read_of_climbs⟩, fun hclimbs hliteral limit => ?_, fun hinside => ?_⟩
  · by_contra hinside
    rw [read_of_not_climbs hinside] at hrefused
    cases hread : d.read? (w.pathTo (ofSegments (location (slashed s)))) with
    | none => simp [hread] at hrefused
    | some text => simp [hread] at hrefused
  · rw [hfind hliteral, findLiteral_of_climbs hclimbs, ite_self]
  · have hnames := isName_of_mem_location hinside
    refine ⟨hnames, collapse?_ofSegments hnames, Raw.isAbsolute_onto_ofPlace _ _, ?_,
      read_of_not_climbs hinside, fun hliteral limit => ?_⟩
    · have hrelative : (Raw.ofText inside).isAbsolute = false := by
        rw [Raw.isAbsolute_ofText, isAbsolute_ofSegments hnames]
      show (w.pathTo inside).names = _
      rw [pathTo, Raw.names_onto_ofPlace (isName_of_mem_root named hw) hrelative, Raw.names_ofText,
        names_ofSegments hnames]
    · rw [hfind hliteral, findLiteral_of_not_climbs hinside]
      by_cases hlimit : limit = 0 <;> simp [hlimit, inside, target]

/-- A path that leaves the root on its way, and one that comes back to it in time. -/
theorem read_and_find_beside_root :
    let d : Disk := ⟨.folder [("p", .folder [("lib", .folder [("x.ts", .file "x".toUTF8)])]),
      ("secret.ts", .file "s".toUTF8)], []⟩
    let w : FolderWorkspace := ⟨["p"], [], false⟩
    ofPath d "/p/lib/.." [] false = .ok w ∧
      w.read d "lib/../../secret.ts" = .error (.escapesRoot "lib/../../secret.ts") ∧
      w.find d "lib/../../secret.ts" 1 = .ok [] ∧
      w.find d "./lib\\..\\lib//x.ts" 1 = .ok ["lib/x.ts"] := by
  intro d w
  have named : d.top.IsNamed := by decide +kernel
  have hw : ofPath d "/p/lib/.." [] false = .ok w := by
    have hplace : d.locate .content "/p/lib/.." = .ok ["p"] := by decide +kernel
    rw [ofPath, hplace]
    rfl
  obtain ⟨hrefused, hnone, -⟩ := read_and_find_confined named hw d "lib/../../secret.ts"
  obtain ⟨-, -, hkept⟩ := read_and_find_confined named hw d "./lib\\..\\lib//x.ts"
  obtain ⟨-, -, -, -, -, hfound⟩ := hkept (by decide +kernel)
  exact ⟨hw, hrefused.mpr (by decide +kernel), hnone (by decide +kernel) (by decide +kernel) 1,
    (hfound (by decide +kernel) 1).trans (by decide +kernel)⟩

end FolderWorkspace

end ImportScout
