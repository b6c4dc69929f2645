import Mathlib.Data.List.Lex
import ImportScout.Proofs.Disk.Reach

/-! # The order of a walk

A walk meets files and faults in the order of the ways to them, name by name
(`Walker.pairwise_files`). Below a folder without links it meets no fault
(`Walker.exists_ok_of_mem_files`), and ways lead where they say (`Leads.eq_of_linkless`), so that a
file is shown exactly by the place where it stands (`shows_iff_of_linkless`).
-/

namespace ImportScout.Disk

variable {w : Walker} {root here shown place way way' : Place} {hops : ℕ}
  {above : List (Place × Place)} {es rest : List (Raw × Node)} {name name' : Raw}
  {node : Node}

/-! ## In order -/

theorem lt_of_prefix (hlt : name < name') (h : shown ++ [name] <+: way)
    (h' : shown ++ [name'] <+: way') : way < way' := by
  obtain ⟨more, rfl⟩ := h
  obtain ⟨more', rfl⟩ := h'
  rw [← List.append_cons, ← List.append_cons]
  exact List.append_left_lt (List.cons_lt_cons_iff.mpr (Or.inl hlt))

theorem lt_of_append_lt (h : root ++ way < root ++ way') : way < way' := by
  induction root with
  | nil => exact h
  | cons name root ih =>
    rcases List.cons_lt_cons_iff.mp h with hlt | ⟨-, hlt⟩
    · exact absurd hlt (lt_irrefl name)
    · exact ih hlt

theorem ordered_cons (h : (Node.folder ((name, node) :: rest)).IsOrdered) :
    (∀ e ∈ rest, name < e.1) ∧ node.IsOrdered ∧ (Node.folder rest).IsOrdered := by
  cases h with
  | folder _ sorted below =>
    rw [List.pairwise_cons] at sorted
    rw [List.forall_mem_cons] at below
    exact ⟨sorted.1, below.1, .folder _ sorted.2 below.2⟩

/-- What a walk meets below an entry comes before what it meets below later ones. -/
theorem pairwise_entries_cons (hes : (Node.folder ((name, node) :: rest)).IsOrdered)
    (hfirst : node.IsOrdered →
      (w.entries hops above here shown [(name, node)]).Pairwise fun a b => wayOf a < wayOf b)
    (hrest : (Node.folder rest).IsOrdered →
      (w.entries hops above here shown rest).Pairwise fun a b => wayOf a < wayOf b) :
    (w.entries hops above here shown ((name, node) :: rest)).Pairwise
      fun a b => wayOf a < wayOf b := by
  obtain ⟨hlater, hnode, hes⟩ := ordered_cons hes
  rw [entries_eq_flatMap, List.flatMap_cons, ← entries_eq_flatMap]
  refine List.pairwise_append.mpr ⟨hfirst hnode, hrest hes, fun _ hfound _ hfound' => ?_⟩
  obtain ⟨e, he, hprefix⟩ := (meets_of_mem_entries hfound).exists_entry
  obtain ⟨e', he', hprefix'⟩ := (meets_of_mem_entries hfound').exists_entry
  rw [List.mem_singleton.mp he] at hprefix
  exact lt_of_prefix (hlater e' he') hprefix hprefix'

theorem pairwise_entries (ordered : w.top.IsOrdered) (hes : (Node.folder es).IsOrdered) :
    (w.entries hops above here shown es).Pairwise fun a b => wayOf a < wayOf b := by
  induction hops, above, here, shown, es using Walker.entries.induct w with
  | case1 => simp [Walker.entries]
  | case2 hops above here shown name content rest ih =>
    refine pairwise_entries_cons hes (fun _ => ?_) ih
    simp [Walker.entries]
  | case3 hops above here shown name inner rest ihinner ih =>
    refine pairwise_entries_cons hes (fun hinner => ?_) ih
    simp only [Walker.entries, List.append_nil]
    split
    · exact List.Pairwise.nil
    · exact ihinner hinner
  | case4 hops above here shown name target rest ihinner ih =>
    refine pairwise_entries_cons hes (fun _ => ?_) ih
    simp only [Walker.entries, List.append_nil]
    split
    · exact List.Pairwise.nil
    · split
      · exact List.pairwise_singleton _ _
      · rename_i stop hstop
        split
        · exact List.pairwise_singleton _ _
        · exact List.pairwise_singleton _ _
        · -- the link leads to a folder that is entered
          rename_i inner hops hfolder hnew
          split
          · exact List.Pairwise.nil
          · have hinner := ihinner stop
            rw [hfolder, hnew] at hinner
            exact hinner (ordered.at? hfolder)
        · exact List.Pairwise.nil

/-- A walk meets files and faults in the order of the ways to them. -/
theorem Walker.pairwise_files (ordered : w.top.IsOrdered) :
    (w.files root).Pairwise fun a b => wayOf a < wayOf b := by
  rw [Walker.files]
  split
  · rename_i es hes
    exact pairwise_entries ordered (ordered.at? hes)
  · exact List.Pairwise.nil

/-! ## Without links -/

section Linkless

variable {top : Node} {more : Place}

/-- Whether no link stands anywhere below a place. -/
def Linkless (top : Node) (root : Place) : Prop :=
  ∀ place target, top.at? (root ++ place) ≠ some (.link target)

theorem Linkless.entries (h : Linkless top root) (hroot : top.at? root = some (.folder es))
    (ordered : (Node.folder es).IsOrdered) : ∀ e ∈ es, Linkless e.2 [] := by
  intro e he place target
  have hlink := h (e.1 :: place) target
  cases ordered with
  | folder _ sorted _ =>
    rw [Node.at?_append, hroot, Option.bind_some, Node.at?, Node.entries,
      lookup_eq_some_of_sorted sorted he] at hlink
    exact hlink

theorem Meets.exists_ok {found : Except WalkFault Place} (h : Meets top here shown es found)
    (ordered : (Node.folder es).IsOrdered) (hlinks : ∀ e ∈ es, Linkless e.2 []) :
    ∃ way, found = .ok way := by
  induction h with
  | file => exact ⟨_, rfl⟩
  | enter entry below ih =>
    have hinner := ordered.of_mem entry
    exact ih hinner ((hlinks _ entry).entries rfl hinner)
  | linked entry | follow entry | fault entry => exact absurd rfl (hlinks _ entry [] _)

theorem Walker.exists_ok_of_mem_files (ordered : w.top.IsOrdered) (hlinks : Linkless w.top root)
    {found : Except WalkFault Place} (h : found ∈ w.files root) : ∃ way, found = .ok way := by
  rw [Walker.files] at h
  split at h
  · rename_i es hes
    have hfolder := ordered.at? hes
    exact (meets_of_mem_entries h).exists_ok hfolder (hlinks.entries hes hfolder)
  · exact absurd h List.not_mem_nil

variable (hlinks : Linkless top root) (hroot : top.at? root = some (.folder es))

include hlinks hroot

/-- Without links, a way leads where it says. -/
theorem Leads.eq_of_linkless (hnames : ∀ name ∈ root ++ more, name.IsName)
    (h : Leads top (root ++ more) place) : place = root ++ more := by
  induction more using List.reverseRecOn generalizing place with
  | nil =>
    rw [List.append_nil] at hnames h ⊢
    exact h.unique (locateFrom_self hroot (by simp) hnames)
  | append_singleton more name ih =>
    rw [← List.append_assoc] at hnames h ⊢
    rw [List.forall_mem_append] at hnames
    have hname : name.IsName := hnames.2 name List.mem_cons_self
    obtain ⟨here, node, hhere, hnode⟩ := h.exists_entry hname
    obtain rfl := ih hnames.1 hhere
    refine h.unique (hhere.concat hname hnode ?_)
    rintro target rfl
    rw [List.append_assoc] at hnode
    exact hlinks _ target hnode

/-- Without links, a way by names leads to a file exactly if one stands there. -/
theorem shows_iff_of_linkless (hne : more ≠ []) (hnames : ∀ name ∈ root ++ more, name.IsName) :
    Shows top root (root ++ more) ↔
      ∃ content, top.at? (root ++ more) = some (.file content) := by
  constructor
  · rintro ⟨-, found, content, -, -, -, hfound, hfile⟩
    obtain rfl := Leads.eq_of_linkless hlinks hroot hnames hfound
    exact ⟨content, hfile⟩
  · rintro ⟨content, hfile⟩
    exact ⟨more, _, content, rfl, hne, (List.forall_mem_append.mp hnames).2,
      locateFrom_self hfile (by simp) hnames, hfile⟩

/-- Without links, no way ends in one. -/
theorem not_endsInLink_of_linkless (hne : more ≠ []) (hnames : ∀ name ∈ root ++ more, name.IsName) :
    ¬EndsInLink top (root ++ more) := by
  rintro ⟨front, name, here, target, heq, hhere, htarget⟩
  obtain ⟨init, last, rfl⟩ := List.eq_nil_or_concat more |>.resolve_left hne
  rw [List.concat_eq_append, ← List.append_assoc] at heq hnames
  obtain ⟨rfl, -⟩ := List.append_inj' heq rfl
  obtain rfl := Leads.eq_of_linkless hlinks hroot (List.forall_mem_append.mp hnames).1 hhere
  rw [List.append_assoc] at htarget
  exact hlinks _ target htarget

end Linkless

end ImportScout.Disk
