import Mathlib.Data.List.Sort
import ImportScout.Tree.Drawing
import ImportScout.Proofs.Disk.Walk

/-! # The visible forest

What a drawing of a project shows is a forest of labels. `IsVisible` says of a forest that it shows
what a folder holds, without the outline that is drawn: at every level the folders come before the
files, both in the order of their names, ignored files are left out, ignored folders are leaves with
dots behind their names, and all others stand above what is visible of them. There is only one such
forest (`IsVisible.unique`), and where all names are texts it is what the outline of a folder is
drawn as (`Outline.Scene.isVisible_outline`).
-/

namespace ImportScout

open Ignore

/-- A branch of a drawn tree: its label, and the branches below it. A file and an empty folder are
drawn alike, as a label with nothing below. -/
inductive Branch where
  | node (label : String) (below : List Branch)

/-- Whether a forest shows the entries `es` of a folder, which is at `above` below the root. Names
are in the order of their bytes. -/
inductive IsVisible (rules : List Rule) :
    (above : Place) → (es : List (Raw × Node)) → List Branch → Prop
  | level {above : Place} {es folders files : List (Raw × Node)}
      (below : Raw × Node → List Branch)
      (foldersSorted : folders.Pairwise fun a b => a.1 < b.1)
      (mem_folders : ∀ e, e ∈ folders ↔ e ∈ es ∧ e.2.isFolder = true)
      (filesSorted : files.Pairwise fun a b => a.1 < b.1)
      (mem_files : ∀ e, e ∈ files ↔ e ∈ es ∧ e.2.isFolder = false ∧
        ignores rules (Raw.ofSegments (above ++ [e.1])) false = false)
      (visible : ∀ e ∈ folders, ignores rules (Raw.ofSegments (above ++ [e.1])) true = false →
        IsVisible rules (above ++ [e.1]) e.2.entries (below e)) :
      IsVisible rules above es
        ((folders.map fun e =>
            if ignores rules (Raw.ofSegments (above ++ [e.1])) true then
              .node (e.1.shown ++ "/...") []
            else .node e.1.shown (below e)) ++
          files.map fun e => .node e.1.shown [])

/-! ## There is only one -/

theorem eq_of_sorted_of_mem_iff {fs gs : List (Raw × Node)}
    (hfs : fs.Pairwise fun a b => a.1 < b.1) (hgs : gs.Pairwise fun a b => a.1 < b.1)
    (h : ∀ e, e ∈ fs ↔ e ∈ gs) : fs = gs := by
  have : Std.Antisymm fun a b : Raw × Node => a.1 < b.1 :=
    ⟨fun _ _ hab hba => absurd hba (lt_asymm hab)⟩
  have : Std.Irrefl fun a b : Raw × Node => a.1 < b.1 := ⟨fun _ => lt_irrefl _⟩
  exact hfs.eq_of_mem_iff hgs h

theorem IsVisible.unique {rules : List Rule} {above : Place} {es : List (Raw × Node)}
    {forest other : List Branch} (h : IsVisible rules above es forest)
    (h' : IsVisible rules above es other) : forest = other := by
  induction h generalizing other with
  | level below foldersSorted mem_folders filesSorted mem_files visible ih =>
    cases h' with
    | level below' foldersSorted' mem_folders' filesSorted' mem_files' visible' =>
      obtain rfl := eq_of_sorted_of_mem_iff foldersSorted foldersSorted'
        fun e => (mem_folders e).trans (mem_folders' e).symm
      obtain rfl := eq_of_sorted_of_mem_iff filesSorted filesSorted'
        fun e => (mem_files e).trans (mem_files' e).symm
      congr 1
      refine List.map_congr_left fun e he => ?_
      split
      · rfl
      · rename_i kept
        rw [Bool.not_eq_true] at kept
        rw [ih e he kept (visible' e he kept)]

namespace Outline

/-! ## Branches -/

mutual

/-- The branch by which an entry is drawn. -/
def branch : Outline → Branch
  | .file name | .closed name _ => .node name.shown []
  | .collapsed name => .node (name.shown ++ "/...") []
  | .folder name inner => .node name.shown (branches inner)

/-- The branches by which an outline is drawn. -/
def branches : List Outline → List Branch
  | [] => []
  | o :: os => o.branch :: branches os

end

theorem branches_eq_map (os : List Outline) : branches os = os.map branch := by
  induction os with
  | nil => rfl
  | cons o os ih => rw [branches, ih, List.map_cons]

/-- What is in order is left as it is. -/
theorem byName_of_pairwise {os : List Outline}
    (h : os.Pairwise fun o other => o.name.shown ≤ other.name.shown) : byName os = os :=
  List.mergeSort_of_pairwise (h.imp fun hle => decide_eq_true hle)

theorem arrange_nil : arrange [] = [] := by
  simp [arrange, byName]

theorem arrange_singleton (o : Outline) : arrange [o] = [o] := by
  cases hfolder : o.isFolder <;> simp [arrange, byName, hfolder]

theorem perm_arrange (os : List Outline) : (arrange os).Perm os :=
  ((List.mergeSort_perm _ _).append (List.mergeSort_perm _ _)).trans
    (List.filter_append_perm isFolder os)

theorem mem_arrange_iff {o : Outline} {os : List Outline} : o ∈ arrange os ↔ o ∈ os :=
  (perm_arrange os).mem_iff

theorem firstClosed?_eq_none_iff {os : List Outline} :
    firstClosed? os = none ↔ ∀ o ∈ os, o.closed? = none := by
  induction os with
  | nil => simp [firstClosed?]
  | cons o os ih => rw [firstClosed?, Option.or_eq_none_iff, ih, List.forall_mem_cons]

namespace Scene

variable {s : Scene} {links : ℕ} {way : List String} {es part : List (Raw × Node)}

/-! ## Outlines, entry by entry -/

/-- What is shown of a folder of the entries `es`. -/
def ofFolder (s : Scene) (links : ℕ) (way : List String) (es : List (Raw × Node)) (name : Raw)
    (inner : List (Raw × Node)) : Outline :=
  if s.ignores way name true then .collapsed name
  else
    match s.opened? links way es name inner with
    | none => .closed name (s.pathOf (way ++ [name.shown]))
    | some (left, held) => .folder name (s.outline left (way ++ [name.shown]) held)

/-- What is shown of one of the entries `es`, if it is not left out. -/
def ofEntry (s : Scene) (links : ℕ) (way : List String) (es : List (Raw × Node)) :
    Raw × Node → List Outline
  | (name, .folder inner) => [s.ofFolder links way es name inner]
  | (name, _) => if s.ignores way name false then [] else [.file name]

theorem outline_eq (s : Scene) (links : ℕ) (way : List String) (es : List (Raw × Node)) :
    s.outline links way es = arrange (es.flatMap (s.ofEntry links way es)) := by
  rw [outline]
  congr 1
  refine List.flatMap_congr fun e _ => ?_
  obtain ⟨name, node⟩ := e
  cases node with
  | file | link => rfl
  | folder inner =>
    dsimp only [ofEntry, ofFolder]
    split
    · rfl
    · split <;> rename_i heq <;> rw [heq]

@[simp]
theorem name_ofFolder (s : Scene) (links : ℕ) (way : List String) (es : List (Raw × Node))
    (name : Raw) (inner : List (Raw × Node)) :
    (s.ofFolder links way es name inner).name = name := by
  rw [ofFolder]
  split
  · rfl
  · split <;> rfl

@[simp]
theorem isFolder_ofFolder (s : Scene) (links : ℕ) (way : List String) (es : List (Raw × Node))
    (name : Raw) (inner : List (Raw × Node)) :
    (s.ofFolder links way es name inner).isFolder = true := by
  rw [ofFolder]
  split
  · rfl
  · split <;> rfl

/-- No entry is shown twice. -/
theorem sublist_map_name (s : Scene) (links : ℕ) (way : List String)
    (es part : List (Raw × Node)) :
    ((part.flatMap (s.ofEntry links way es)).map name).Sublist (part.map Prod.fst) := by
  induction part with
  | nil => exact .slnil
  | cons e rest ih =>
    obtain ⟨name, node⟩ := e
    rw [List.flatMap_cons, List.map_append, List.map_cons]
    cases node with
    | folder inner => simpa [ofEntry] using ih
    | file | link =>
      dsimp only [ofEntry]
      split
      · exact ih.cons name
      · exact ih.cons_cons name

/-! ## Where all names are texts -/

theorem opened?_of_isText {name : Raw} (htext : name.IsText) (inner : List (Raw × Node)) :
    s.opened? links way es name inner = some (links, inner) :=
  if_pos htext

theorem map_ofText_concat {name : Raw} (htext : name.IsText) :
    (way ++ [name.shown]).map Raw.ofText = way.map Raw.ofText ++ [name] := by
  rw [List.map_append, List.map_singleton, htext]

/-- Texts that are in the order of their bytes are shown in their own order. -/
theorem byName_filter_flatMap (sorted : es.Pairwise fun a b => a.1 < b.1)
    (textual : ∀ e ∈ es, e.1.IsText) (p : Outline → Bool) :
    byName ((es.flatMap (s.ofEntry links way es)).filter p) =
      (es.flatMap (s.ofEntry links way es)).filter p := by
  have hnames : (es.map Prod.fst).Pairwise fun a b => a.shown ≤ b.shown := by
    refine List.pairwise_map.mpr (sorted.imp_of_mem fun {a b} ha hb hlt => ?_)
    rw [← textual a ha, ← textual b hb, Raw.ofText_lt_ofText_iff] at hlt
    exact hlt.le
  exact byName_of_pairwise
    ((List.pairwise_map.mp (hnames.sublist (sublist_map_name s links way es es))).filter p)

/-- The folders of an outline, each ignored or with what its own outline shows. -/
theorem map_branch_folders (textual : ∀ e ∈ part, e.1.IsText) :
    ((part.flatMap (s.ofEntry links way es)).filter isFolder).map branch =
      (part.filter fun e => e.2.isFolder).map fun e =>
        if s.ignores way e.1 true then .node (e.1.shown ++ "/...") []
        else .node e.1.shown (branches (s.outline links (way ++ [e.1.shown]) e.2.entries)) := by
  induction part with
  | nil => rfl
  | cons e rest ih =>
    obtain ⟨htext, hrest⟩ := List.forall_mem_cons.mp textual
    obtain ⟨name, node⟩ := e
    rw [List.flatMap_cons, List.filter_append, List.map_append, ih hrest]
    cases node with
    | folder inner =>
      rw [ofEntry, List.filter_cons_of_pos (by simp), List.filter_cons_of_pos rfl, List.map_cons,
        List.map_cons, ofFolder, opened?_of_isText htext]
      dsimp only
      split <;> rfl
    | file | link =>
      rw [List.filter_cons_of_neg (by simp [Node.isFolder])]
      dsimp only [ofEntry]
      split <;> rfl

/-- The files of an outline, ignored ones left out. -/
theorem map_branch_files :
    ((part.flatMap (s.ofEntry links way es)).filter fun o => !o.isFolder).map branch =
      (part.filter fun e => !e.2.isFolder && !s.ignores way e.1 false).map
        fun e => .node e.1.shown [] := by
  induction part with
  | nil => rfl
  | cons e rest ih =>
    obtain ⟨name, node⟩ := e
    rw [List.flatMap_cons, List.filter_append, List.map_append, ih]
    cases node with
    | folder inner =>
      rw [List.filter_cons_of_neg (by simp [Node.isFolder]), ofEntry,
        List.filter_cons_of_neg (by simp)]
      rfl
    | file | link =>
      dsimp only [ofEntry]
      rw [List.filter_cons]
      cases s.ignores way name false <;> rfl

theorem isVisible_of_sorted (sorted : es.Pairwise fun a b => a.1 < b.1)
    (textual : ∀ e ∈ es, e.1.IsText)
    (below : ∀ e ∈ es, IsVisible s.rules (way.map Raw.ofText ++ [e.1]) e.2.entries
      (branches (s.outline links (way ++ [e.1.shown]) e.2.entries))) :
    IsVisible s.rules (way.map Raw.ofText) es (branches (s.outline links way es)) := by
  rw [outline_eq, branches_eq_map, arrange, List.map_append, byName_filter_flatMap sorted textual,
    byName_filter_flatMap sorted textual, map_branch_folders textual, map_branch_files]
  refine .level _ (sorted.filter _) (fun e => ?mem_folders) (sorted.filter _) (fun e => ?mem_files)
    fun e he _ => below e (List.mem_filter.mp he).1
  case mem_folders => exact List.mem_filter
  case mem_files =>
    rw [List.mem_filter, Bool.and_eq_true, Bool.not_eq_true', Bool.not_eq_true']
    rfl

/-- The outline of a folder of texts is drawn as its visible forest. -/
theorem isVisible_outline {n : Node} (ordered : n.IsOrdered) (textual : n.AllNames Raw.IsText)
    (s : Scene) (links : ℕ) (way : List String) :
    IsVisible s.rules (way.map Raw.ofText) n.entries
      (branches (s.outline links way n.entries)) := by
  induction ordered generalizing way with
  | file | link => exact isVisible_of_sorted .nil (by simp [Node.entries]) (by simp [Node.entries])
  | folder es sorted _ ih =>
    refine isVisible_of_sorted sorted (fun e he => (textual.entries e he).1) fun e he => ?_
    obtain ⟨hname, hbelow⟩ := textual.entries e he
    rw [← map_ofText_concat hname]
    exact ih e he hbelow _

/-- Every folder of texts can be opened. -/
theorem firstClosed?_outline {n : Node} (textual : n.AllNames Raw.IsText) (s : Scene) (links : ℕ)
    (way : List String) : firstClosed? (s.outline links way n.entries) = none := by
  induction textual generalizing way with
  | file | link => simp [outline_eq, Node.entries, arrange_nil, firstClosed?]
  | folder es names _ ih =>
    rw [firstClosed?_eq_none_iff, outline_eq]
    intro o ho
    rw [mem_arrange_iff] at ho
    obtain ⟨⟨name, node⟩, he, ho⟩ := List.mem_flatMap.mp ho
    cases node with
    | folder inner =>
      rw [ofEntry, ofFolder, opened?_of_isText (names _ he)] at ho
      obtain rfl := List.mem_singleton.mp ho
      split
      · rfl
      · exact ih _ he _
    | file | link =>
      dsimp only [ofEntry] at ho
      split at ho
      · exact absurd ho List.not_mem_nil
      · obtain rfl := List.mem_singleton.mp ho
        rfl

end Scene

end Outline

end ImportScout
