import ImportScout.Proofs.Disk.Walk

/-! # Ways on a disk

A way is a list of names that is followed from the top of a disk, links on it included. A way that
leads anywhere leads to a folder before each further name (`Leads.exists_entry`), and behind a name
that is no link it leads to what the folder holds under this name (`Leads.concat`). So a way turns
aside only at its links, and only by a link can it come back to a folder that it has been in.
-/

namespace ImportScout.Disk

/-- Whether following `way` from the top of the disk, links included, leads to `place`. -/
def Leads (top : Node) (way place : Place) : Prop :=
  locateFrom top .content linkLimit [] way = .ok place

/-- Whether the last name of a way is that of a link. -/
def EndsInLink (top : Node) (way : Place) : Prop :=
  ∃ folder name here target, way = folder ++ [name] ∧ Leads top folder here ∧
    top.at? (here ++ [name]) = some (.link target)

/-- Whether a way leads back to a place where it has been since it left from `root`. -/
def LeadsBack (top : Node) (root way : Place) : Prop :=
  ∃ earlier place, root <+: earlier ∧ earlier <+: way ∧ earlier ≠ way ∧ Leads top earlier place ∧
    Leads top way place

variable {top node : Node} {root way here place place' : Place} {name : Raw} {more : Place}

theorem Leads.unique (h : Leads top way place) (h' : Leads top way place') : place = place' :=
  Except.ok.inj (h.symm.trans h')

/-! ## One name less -/

/-- Whether a way that goes on by `name` leads somewhere only if, without this name, it leads to a
folder that holds something under it. -/
def Passes (top : Node) (name : Raw)
    (locate : Place → Place → Except Obstacle Place) : Prop :=
  ∀ here segs place, locate here (segs ++ [name]) = .ok place →
    ∃ stop node, locate here segs = .ok stop ∧ top.at? (stop ++ [name]) = some node

theorem passes_follow (hname : name.IsName)
    {onLink : Place → Place → Except Obstacle Place} (honLink : Passes top name onLink) :
    Passes top name (follow top .content onLink) := by
  intro here segs place hplace
  induction segs generalizing here with
  | nil =>
    rw [List.nil_append, follow, hname.isIdle_eq, if_neg Bool.false_ne_true,
      if_neg hname.ne_up] at hplace
    cases hat : top.at? (here ++ [name]) with
    | none => simp [hat] at hplace
    | some node => exact ⟨here, node, by rw [follow], hat⟩
  | cons seg rest ih =>
    rw [List.cons_append, follow] at hplace
    rw [follow]
    by_cases hidle : seg.isIdle = true
    · rw [if_pos hidle] at hplace ⊢
      exact ih _ hplace
    by_cases hup : seg = ".."
    · rw [if_neg hidle, if_pos hup] at hplace ⊢
      exact ih _ hplace
    rw [if_neg hidle, if_neg hup] at hplace ⊢
    rcases hat : top.at? (here ++ [seg]) with _ | ⟨content⟩ | ⟨target⟩ | ⟨es⟩
    · simp [hat] at hplace
    · simp [hat] at hplace
    · simp only [hat, reduceCtorEq, decide_false, Bool.false_and, Bool.false_eq_true,
        if_false] at hplace ⊢
      rw [← List.append_assoc] at hplace
      exact honLink _ _ _ hplace
    · rw [hat] at hplace
      exact ih _ hplace

theorem passes_locateFrom (hname : name.IsName) (links : ℕ) :
    Passes top name (locateFrom top .content links) := by
  induction links with
  | zero => exact passes_follow hname fun _ _ _ h => absurd h (by simp)
  | succ links ih => exact passes_follow hname ih

/-- Before its last name a way leads to a folder with an entry of this name. -/
theorem Leads.exists_entry (hname : name.IsName) (h : Leads top (way ++ [name]) place) :
    ∃ here node, Leads top way here ∧ top.at? (here ++ [name]) = some node :=
  passes_locateFrom hname linkLimit [] way place h

/-- Behind a name that is no link a way leads to what stands under this name. -/
theorem Leads.concat (h : Leads top way here) (hname : name.IsName)
    (hnode : top.at? (here ++ [name]) = some node) (hlink : ∀ target, node ≠ .link target) :
    Leads top (way ++ [name]) (here ++ [name]) :=
  extends_locateFrom hname hnode hlink linkLimit [] way h

/-- A way that goes on leads to a folder. -/
theorem Leads.exists_folder (hmore : ∀ name ∈ more, name.IsName) (hne : more ≠ [])
    (h : Leads top (way ++ more) place) :
    ∃ here es, Leads top way here ∧ top.at? here = some (.folder es) := by
  induction more using List.reverseRecOn generalizing place with
  | nil => exact absurd rfl hne
  | append_singleton more name ih =>
    rw [List.forall_mem_append] at hmore
    rw [← List.append_assoc] at h
    obtain ⟨here, node, hhere, hnode⟩ := h.exists_entry (hmore.2 name List.mem_cons_self)
    cases more with
    | nil =>
      rw [List.append_nil] at hhere
      obtain ⟨es, hes⟩ := Node.exists_folder_of_at?_concat hnode
      exact ⟨here, es, hhere, hes⟩
    | cons next more => exact ih hmore.1 (List.cons_ne_nil _ _) hhere

/-- A way that leads somewhere leads somewhere all along. -/
theorem Leads.exists_of_append (hmore : ∀ name ∈ more, name.IsName)
    (h : Leads top (way ++ more) place) : ∃ here, Leads top way here := by
  cases more with
  | nil =>
    rw [List.append_nil] at h
    exact ⟨place, h⟩
  | cons name more =>
    obtain ⟨here, -, hhere, -⟩ := h.exists_folder hmore (List.cons_ne_nil _ _)
    exact ⟨here, hhere⟩

/-! ## Links -/

/-- The last name of a way is that of a link if the folder before it holds a link under it. -/
theorem endsInLink_concat_iff (h : Leads top way here) (name : Raw) :
    EndsInLink top (way ++ [name]) ↔ ∃ target, top.at? (here ++ [name]) = some (.link target) := by
  constructor
  · rintro ⟨folder, last, stop, target, heq, hstop, htarget⟩
    obtain ⟨rfl, hlast⟩ := List.append_inj' heq rfl
    obtain rfl := List.singleton_inj.mp hlast
    rw [h.unique hstop]
    exact ⟨target, htarget⟩
  · rintro ⟨target, htarget⟩
    exact ⟨way, name, here, target, rfl, h, htarget⟩

/-- A way that leads back leads to a folder. -/
theorem LeadsBack.exists_folder (hback : LeadsBack top root way) (hway : ∀ name ∈ way, name.IsName)
    (h : Leads top way place) : ∃ es, top.at? place = some (.folder es) := by
  obtain ⟨earlier, stop, -, ⟨more, rfl⟩, hne, hearlier, hstop⟩ := hback
  obtain rfl := h.unique hstop
  rw [List.forall_mem_append] at hway
  have hmore : more ≠ [] := by
    rintro rfl
    exact hne (List.append_nil earlier).symm
  obtain ⟨here, es, hhere, hes⟩ := hstop.exists_folder hway.2 hmore
  rw [hhere.unique hearlier] at hes
  exact ⟨es, hes⟩

end ImportScout.Disk
