import Mathlib.Data.List.Induction
import Mathlib.Data.List.Pairwise
import ImportScout.Disk.Walk
import ImportScout.Proofs.Entries
import ImportScout.Proofs.Disk.Raw

/-! # What a walk finds

A walk shows a file by the way on which it was reached, links on that way included. Following that
way from the top leads to the file again (`shows_of_mem_files`): the invariant of the walk is that
the way shown leads to the folder at hand, and one more name behind it, which is no link, leads to
what the folder holds under that name (`extends_locateFrom`).
-/

namespace ImportScout

namespace Node

/-! ## Trees -/

/-- Whether the names of all entries in a tree are as they should be. -/
inductive AllNames (valid : Raw → Prop) : Node → Prop
  | file (content : ByteArray) : AllNames valid (.file content)
  | link (target : Raw) : AllNames valid (.link target)
  | folder (es : List (Raw × Node)) (names : ∀ e ∈ es, valid e.1)
      (below : ∀ e ∈ es, AllNames valid e.2) : AllNames valid (.folder es)

/-- Whether every entry in a tree has a name. -/
abbrev IsNamed : Node → Prop :=
  AllNames Raw.IsName

variable {top node : Node} {es : List (Raw × Node)} {place : Place} {name : Raw}
  {valid : Raw → Prop}

theorem at?_append (n : Node) (place more : Place) :
    n.at? (place ++ more) = (n.at? place).bind fun child => child.at? more := by
  induction place generalizing n with
  | nil => rfl
  | cons name place ih =>
    rw [List.cons_append, at?, at?]
    cases n.entries.lookup name with
    | none => rfl
    | some child => exact ih child

theorem at?_concat (h : top.at? place = some (.folder es)) :
    top.at? (place ++ [name]) = es.lookup name := by
  rw [at?_append, h, Option.bind_some, at?, entries]
  cases es.lookup name <;> rfl

/-- Where something stands below a place, there is a folder. -/
theorem exists_folder_of_at?_concat (h : top.at? (place ++ [name]) = some node) :
    ∃ es, top.at? place = some (.folder es) := by
  rw [at?_append, Option.bind_eq_some_iff] at h
  obtain ⟨parent, hparent, h⟩ := h
  cases parent with
  | folder es => exact ⟨es, hparent⟩
  | file content => simp [at?, entries] at h
  | link target => simp [at?, entries] at h

theorem exists_folder_of_isFolder {n : Option Node} (h : n.any isFolder = true) :
    ∃ es, n = some (.folder es) := by
  rcases n with _ | ⟨content⟩ | ⟨target⟩ | ⟨es⟩
  · exact absurd h (by simp)
  · exact absurd h (by simp [isFolder])
  · exact absurd h (by simp [isFolder])
  · exact ⟨es, rfl⟩

theorem IsOrdered.of_mem (h : (Node.folder es).IsOrdered) {e : Raw × Node} (he : e ∈ es) :
    e.2.IsOrdered := by
  cases h with
  | folder _ _ below => exact below e he

/-- What is anywhere in an ordered tree is ordered. -/
theorem IsOrdered.at? (h : IsOrdered top) (hnode : top.at? place = some node) : IsOrdered node := by
  induction place generalizing top with
  | nil =>
    cases hnode
    exact h
  | cons name place ih =>
    cases h with
    | file | link => simp [Node.at?, entries] at hnode
    | folder es sorted below =>
      rw [Node.at?] at hnode
      split at hnode
      · exact absurd hnode (by simp)
      · rename_i child hchild
        exact ih (below _ (mem_of_lookup_eq_some hchild)) hnode

theorem AllNames.entries (h : AllNames valid node) :
    ∀ e ∈ node.entries, valid e.1 ∧ AllNames valid e.2 := by
  cases h with
  | file | link => exact fun e he => absurd he List.not_mem_nil
  | folder es names below => exact fun e he => ⟨names e he, below e he⟩

/-- On the way to anything in a tree, and below it, the names are as they are in the tree. -/
theorem AllNames.at? (h : AllNames valid top) (hnode : top.at? place = some node) :
    AllNames valid node ∧ ∀ name ∈ place, valid name := by
  induction place generalizing top with
  | nil =>
    cases hnode
    exact ⟨h, by simp⟩
  | cons name place ih =>
    rw [Node.at?] at hnode
    split at hnode
    · exact absurd hnode (by simp)
    · rename_i child hchild
      obtain ⟨hname, hchild⟩ := h.entries _ (mem_of_lookup_eq_some hchild)
      obtain ⟨hvalid, hplace⟩ := ih hchild hnode
      exact ⟨hvalid, List.forall_mem_cons.mpr ⟨hname, hplace⟩⟩

/-! ## Checking a tree -/

/-- Induction on a tree, where what is shown of a folder may be known of all that it holds. -/
theorem induct {motive : Node → Prop} (file : ∀ content, motive (.file content))
    (link : ∀ target, motive (.link target))
    (folder : ∀ es : List (Raw × Node), (∀ e ∈ es, motive e.2) → motive (.folder es)) :
    (n : Node) → motive n
  | .file content => file content
  | .link target => link target
  | .folder es => folder es fun e _ => induct file link folder e.2
  decreasing_by
    rename_i he
    obtain ⟨name, child⟩ := e
    have hlt := List.sizeOf_lt_of_mem he
    simp only [Prod.mk.sizeOf_spec, Node.folder.sizeOf_spec] at hlt ⊢
    omega

mutual

/-- Whether every folder in a tree passes a check of its entries. -/
def everyFolder (check : List (Raw × Node) → Bool) : Node → Bool
  | .folder es => check es && everyFolderOf check es
  | _ => true

/-- Whether every folder in and among the given entries passes a check of its entries. -/
def everyFolderOf (check : List (Raw × Node) → Bool) : List (Raw × Node) → Bool
  | [] => true
  | (_, n) :: es => n.everyFolder check && everyFolderOf check es

end

theorem everyFolderOf_eq_true_iff {check : List (Raw × Node) → Bool} :
    everyFolderOf check es = true ↔ ∀ e ∈ es, e.2.everyFolder check = true := by
  induction es with
  | nil => simp [everyFolderOf]
  | cons e es ih => rw [everyFolderOf, Bool.and_eq_true, ih, List.forall_mem_cons]

/-- What holds of a folder if it passes a check and everything in it does so is decided by checking
every folder. -/
theorem everyFolder_eq_true_iff {holds : Node → Prop} {check : List (Raw × Node) → Bool}
    (file : ∀ content, holds (.file content)) (link : ∀ target, holds (.link target))
    (folder : ∀ es, holds (.folder es) ↔ check es = true ∧ ∀ e ∈ es, holds e.2) (n : Node) :
    n.everyFolder check = true ↔ holds n := by
  induction n using induct with
  | file content => simp [everyFolder, file]
  | link target => simp [everyFolder, link]
  | folder es ih =>
    rw [everyFolder, Bool.and_eq_true, everyFolderOf_eq_true_iff, folder]
    exact and_congr_right fun _ => forall₂_congr ih

instance : DecidablePred IsOrdered := fun n =>
  decidable_of_iff (n.everyFolder (fun es => decide (es.Pairwise fun a b => a.1 < b.1)) = true)
    (everyFolder_eq_true_iff .file .link (fun es => by
      rw [decide_eq_true_iff]
      exact ⟨fun | .folder _ sorted below => ⟨sorted, below⟩, fun h => .folder es h.1 h.2⟩) n)

instance [DecidablePred valid] : DecidablePred (AllNames valid) := fun n =>
  decidable_of_iff (n.everyFolder (fun es => decide (∀ e ∈ es, valid e.1)) = true)
    (everyFolder_eq_true_iff .file .link (fun es => by
      rw [decide_eq_true_iff]
      exact ⟨fun | .folder _ names below => ⟨names, below⟩, fun h => .folder es h.1 h.2⟩) n)

end Node

/-- What a path leads to on an ordered disk is ordered. -/
theorem Node.IsOrdered.node? {d : Disk} {path : Raw} {node : Node} (h : d.top.IsOrdered)
    (hnode : d.node? path = some node) : node.IsOrdered := by
  rw [Disk.node?] at hnode
  split at hnode
  · exact absurd hnode (by simp)
  · exact h.at? hnode

namespace Disk

/-! ## One more name -/

variable {top node : Node} {here place : Place} {name : Raw} {links : ℕ}

theorem locateFrom_idle {purpose : Purpose} {seg : Raw} (hseg : seg.isIdle = true)
    (segs : Place) :
    locateFrom top purpose links here (seg :: segs) = locateFrom top purpose links here segs := by
  cases links <;> rw [locateFrom, locateFrom, follow, if_pos hseg]

/-- Whether a way that leads to `place` leads on to what is below it if it goes on by `name`. -/
def Extends (place : Place) (name : Raw)
    (locate : Place → Place → Except Obstacle Place) : Prop :=
  ∀ here segs, locate here segs = .ok place →
    locate here (segs ++ [name]) = .ok (place ++ [name])

section Extends

variable (hname : name.IsName) (hnode : top.at? (place ++ [name]) = some node)
  (hlink : ∀ target, node ≠ .link target)

include hname hnode hlink

theorem extends_follow {onLink : Place → Place → Except Obstacle Place}
    (honLink : Extends place name onLink) :
    Extends place name (follow top .content onLink) := by
  intro here segs hplace
  induction segs generalizing here with
  | nil =>
    cases hplace
    have hup := hname.ne_up
    rw [List.nil_append, follow, hname.isIdle_eq, if_neg Bool.false_ne_true, if_neg hup, hnode]
    cases node with
    | folder es => rw [follow]
    | file content => rfl
    | link target => exact absurd rfl (hlink target)
  | cons seg rest ih =>
    rw [follow] at hplace
    rw [List.cons_append, follow]
    by_cases hidle : seg.isIdle = true
    · rw [if_pos hidle] at hplace ⊢
      exact ih _ hplace
    by_cases hup : seg = ".."
    · rw [if_neg hidle, if_pos hup] at hplace ⊢
      exact ih _ hplace
    rw [if_neg hidle, if_neg hup] at hplace ⊢
    rcases hat : top.at? (here ++ [seg]) with _ | ⟨content⟩ | ⟨target⟩ | ⟨es⟩
    · simp [hat] at hplace
    · -- a file is the end of the way, and nothing stands below it
      obtain ⟨es, hes⟩ := Node.exists_folder_of_at?_concat hnode
      simp only [hat] at hplace
      split_ifs at hplace
      rw [Except.ok.inj hplace, hes] at hat
      exact absurd hat (by simp)
    · simp only [hat, reduceCtorEq, decide_false, Bool.false_and, Bool.false_eq_true,
        if_false] at hplace ⊢
      rw [← List.append_assoc]
      exact honLink _ _ hplace
    · rw [hat] at hplace
      exact ih _ hplace

theorem extends_locateFrom (links : ℕ) : Extends place name (locateFrom top .content links) := by
  induction links with
  | zero => exact extends_follow hname hnode hlink fun _ _ h => absurd h (by simp)
  | succ links ih => exact extends_follow hname hnode hlink ih

end Extends

/-- Without links on it, the way to a place leads to this place. -/
theorem locateFrom_self (hnode : top.at? place = some node) (hlink : ∀ target, node ≠ .link target)
    (hnames : ∀ name ∈ place, name.IsName) :
    locateFrom top .content links [] place = .ok place := by
  induction place using List.reverseRecOn generalizing node with
  | nil => cases links <;> rfl
  | append_singleton place name ih =>
    rw [List.forall_mem_append] at hnames
    obtain ⟨es, hes⟩ := Node.exists_folder_of_at?_concat hnode
    exact extends_locateFrom (hnames.2 name List.mem_cons_self) hnode hlink links _ _
      (ih hes (by simp) hnames.1)

/-! ## The walk -/

/-- The way to the link at which a walk meets a fault. -/
def WalkFault.way : WalkFault → Place
  | .blocked link _ | .loop link _ => link

/-- The way to what a walk has met, be it a file or a fault. -/
def wayOf : Except WalkFault Place → Place
  | .ok way => way
  | .error f => f.way

/-- What a walk may meet from a folder of the entries `es`, which is at `here` and to which it has
come by the way `shown`. -/
inductive Meets (top : Node) :
    (here shown : Place) → (es : List (Raw × Node)) → Except WalkFault Place → Prop
  /-- A file of the folder. -/
  | file {here shown : Place} {es : List (Raw × Node)} {name : Raw} {content : ByteArray}
      (entry : (name, .file content) ∈ es) : Meets top here shown es (.ok (shown ++ [name]))
  /-- What it may meet from a folder in it. -/
  | enter {here shown : Place} {es inner : List (Raw × Node)} {name : Raw}
      {found : Except WalkFault Place} (entry : (name, .folder inner) ∈ es)
      (below : Meets top (here ++ [name]) (shown ++ [name]) inner found) :
      Meets top here shown es found
  /-- A link of the folder that leads to a file. -/
  | linked {here shown stop : Place} {es : List (Raw × Node)} {name target : Raw}
      {content : ByteArray} (entry : (name, .link target) ∈ es)
      (leads : locateFrom top .content linkLimit [] (shown ++ [name]) = .ok stop)
      (file : top.at? stop = some (.file content)) : Meets top here shown es (.ok (shown ++ [name]))
  /-- What it may meet from the folder that a link leads to. -/
  | follow {here shown stop : Place} {es inner : List (Raw × Node)} {name target : Raw}
      {found : Except WalkFault Place} (entry : (name, .link target) ∈ es)
      (leads : locateFrom top .content linkLimit [] (shown ++ [name]) = .ok stop)
      (folder : top.at? stop = some (.folder inner))
      (below : Meets top stop (shown ++ [name]) inner found) : Meets top here shown es found
  /-- A fault at a link of the folder. -/
  | fault {here shown : Place} {es : List (Raw × Node)} {name target : Raw} {f : WalkFault}
      (entry : (name, .link target) ∈ es) (way : f.way = shown ++ [name]) :
      Meets top here shown es (.error f)

theorem Meets.mono {top : Node} {here shown : Place} {es more : List (Raw × Node)}
    {found : Except WalkFault Place} (h : Meets top here shown es found) (hsubset : es ⊆ more) :
    Meets top here shown more found := by
  cases h with
  | file entry => exact .file (hsubset entry)
  | enter entry below => exact .enter (hsubset entry) below
  | linked entry leads file => exact .linked (hsubset entry) leads file
  | follow entry leads folder below => exact .follow (hsubset entry) leads folder below
  | fault entry way => exact .fault (hsubset entry) way

/-- What a walk may meet below an entry stands on a way that goes on by the name of this entry. -/
theorem Meets.exists_entry {top : Node} {here shown : Place} {es : List (Raw × Node)}
    {found : Except WalkFault Place} (h : Meets top here shown es found) :
    ∃ e ∈ es, shown ++ [e.1] <+: wayOf found := by
  induction h with
  | file entry | linked entry => exact ⟨_, entry, List.prefix_rfl⟩
  | enter entry below ih | follow entry _ _ below ih =>
    obtain ⟨e, -, hprefix⟩ := ih
    exact ⟨_, entry, (List.prefix_append _ _).trans hprefix⟩
  | fault entry way => exact ⟨_, entry, way ▸ List.prefix_rfl⟩

/-- What a walk meets, it may meet. -/
theorem meets_of_mem_entries {w : Walker} {hops : ℕ} {above : List (Place × Place)}
    {here shown : Place} {es : List (Raw × Node)} {found : Except WalkFault Place}
    (h : found ∈ w.entries hops above here shown es) : Meets w.top here shown es found := by
  fun_induction Walker.entries w hops above here shown es with
  | case1 => exact absurd h List.not_mem_nil
  | case2 hops above here shown name content rest ih =>
    rcases List.mem_cons.mp h with rfl | hrest
    · exact .file List.mem_cons_self
    · exact (ih hrest).mono (List.subset_cons_self _ _)
  | case3 hops above here shown name inner rest ihinner ih =>
    rcases List.mem_append.mp h with hinner | hrest
    · split at hinner
      · exact absurd hinner List.not_mem_nil
      · exact .enter List.mem_cons_self (ihinner hinner)
    · exact (ih hrest).mono (List.subset_cons_self _ _)
  | case4 hops above here shown name target rest ihinner ih =>
    rcases List.mem_append.mp h with hlink | hrest
    · split at hlink
      · exact absurd hlink List.not_mem_nil
      · split at hlink
        · obtain rfl := List.mem_singleton.mp hlink
          exact .fault List.mem_cons_self rfl
        · rename_i stop hstop
          -- the link leads to what stands at `stop`
          split at hlink
          · rename_i content hfile
            obtain rfl := List.mem_singleton.mp hlink
            exact .linked List.mem_cons_self hstop hfile
          · obtain rfl := List.mem_singleton.mp hlink
            exact .fault List.mem_cons_self rfl
          · rename_i inner hops hfolder hnew
            split at hlink
            · exact absurd hlink List.not_mem_nil
            · have hinner := ihinner stop
              rw [hfolder, hnew] at hinner
              exact .follow List.mem_cons_self hstop hfolder (hinner hlink)
          · exact absurd hlink List.not_mem_nil
    · exact (ih hrest).mono (List.subset_cons_self _ _)

/-- Whether the way that was shown for a file leads to it, and goes on from `shown` by names. -/
def Shows (top : Node) (shown place : Place) : Prop :=
  ∃ more found content, place = shown ++ more ∧ more ≠ [] ∧ (∀ name ∈ more, name.IsName) ∧
    locateFrom top .content linkLimit [] place = .ok found ∧ top.at? found = some (.file content)

theorem Shows.cons {shown : Place} (h : Shows top (shown ++ [name]) place) (hname : name.IsName) :
    Shows top shown place := by
  obtain ⟨more, found, content, rfl, -, hmore, hfound⟩ := h
  exact ⟨name :: more, found, content, (List.append_cons _ _ _).symm, List.cons_ne_nil _ _,
    List.forall_mem_cons.mpr ⟨hname, hmore⟩, hfound⟩

section Walk

variable {w : Walker} (ordered : w.top.IsOrdered) (named : w.top.IsNamed)

include ordered named

/-- An entry of a folder stands below it under its name. -/
theorem entry_of_mem {here : Place} {es : List (Raw × Node)}
    (hhere : w.top.at? here = some (.folder es)) {e : Raw × Node} (he : e ∈ es) :
    e.1.IsName ∧ w.top.at? (here ++ [e.1]) = some e.2 := by
  constructor
  · cases (named.at? hhere).1 with
    | folder _ names _ => exact names e he
  · cases ordered.at? hhere with
    | folder _ sorted _ => rw [Node.at?_concat hhere, lookup_eq_some_of_sorted sorted he]

theorem shows_of_meets {here shown : Place} {es : List (Raw × Node)}
    (h : Meets w.top here shown es (.ok place)) (hhere : w.top.at? here = some (.folder es))
    (hshown : locateFrom w.top .content linkLimit [] shown = .ok here) :
    Shows w.top shown place := by
  generalize hfound : Except.ok place = found at h
  induction h with
  | file entry =>
    cases hfound
    obtain ⟨hname, hentry⟩ := entry_of_mem ordered named hhere entry
    exact ⟨[_], _, _, rfl, List.cons_ne_nil _ _, by simpa using hname,
      extends_locateFrom hname hentry (by simp) _ _ _ hshown, hentry⟩
  | enter entry below ih =>
    obtain ⟨hname, hentry⟩ := entry_of_mem ordered named hhere entry
    have hinner := extends_locateFrom hname hentry (by simp) _ _ _ hshown
    exact (ih hentry hinner hfound).cons hname
  | linked entry leads file =>
    cases hfound
    obtain ⟨hname, -⟩ := entry_of_mem ordered named hhere entry
    exact ⟨[_], _, _, rfl, List.cons_ne_nil _ _, by simpa using hname, leads, file⟩
  | follow entry leads folder below ih =>
    obtain ⟨hname, -⟩ := entry_of_mem ordered named hhere entry
    exact (ih folder leads hfound).cons hname
  | fault => exact absurd hfound (by simp)

/-- Every file of a walk is where it is shown, below the folder at `root`. -/
theorem shows_of_mem_files {root : Place} (h : .ok place ∈ w.files root) :
    (∀ name ∈ root, name.IsName) ∧ Shows w.top root place := by
  rw [Walker.files] at h
  split at h
  · rename_i es hroot
    have hnames := (named.at? hroot).2
    exact ⟨hnames, shows_of_meets ordered named (meets_of_mem_entries h) hroot
      (locateFrom_self hroot (by simp) hnames)⟩
  · exact absurd h List.not_mem_nil

end Walk

end Disk

end ImportScout
