import Mathlib.Data.List.Nodup
import Mathlib.Data.List.Perm.Subperm
import ImportScout.Proofs.Disk.Way

/-! # Which files a walk shows

A walk shows a file exactly if the way to it passes through no pruned folder and by no link that is
left aside: none at all if links are not followed, and else none that leads back to where the way
has been (`mem_files_iff`). It meets a fault exactly where it comes to a link that it follows and
that leads nowhere or back (`exists_fault_iff`). The walk carries a bound on the links that are
followed inside of each other; it never matters, as each of them leads to a folder where the way has
not been, and there are not more of them than folders (`Node.length_le_folderCount`).
-/

namespace ImportScout

namespace Node

/-! ## Counting folders -/

mutual

/-- All places in a tree and what stands there. -/
def places : Node → List (Place × Node)
  | .folder es => ([], .folder es) :: placesOf es
  | n => [([], n)]

/-- All places in and among the given entries and what stands there. -/
def placesOf : List (Raw × Node) → List (Place × Node)
  | [] => []
  | (name, n) :: es => n.places.map (Prod.map (name :: ·) id) ++ placesOf es

end

mutual

theorem countP_places : (n : Node) → (n.places.countP fun p => p.2.isFolder) = n.folderCount
  | .folder es => by
    rw [places, folderCount, List.countP_cons_of_pos rfl, countP_placesOf es]
  | .file _ => rfl
  | .link _ => rfl

theorem countP_placesOf : (es : List (Raw × Node)) →
    ((placesOf es).countP fun p => p.2.isFolder) = folderCountOf es
  | [] => rfl
  | (name, n) :: es => by
    rw [placesOf, folderCountOf, List.countP_append, List.countP_map, countP_placesOf es,
      ← countP_places n]
    rfl

end

theorem mem_placesOf {es : List (Raw × Node)} {name : Raw} {child node : Node} {place : Place}
    (hchild : (name, child) ∈ es) (hplace : (place, node) ∈ child.places) :
    (name :: place, node) ∈ placesOf es := by
  induction es with
  | nil => exact absurd hchild List.not_mem_nil
  | cons e es ih =>
    rw [placesOf, List.mem_append]
    rcases List.mem_cons.mp hchild with rfl | hchild
    · exact Or.inl (List.mem_map_of_mem hplace)
    · exact Or.inr (ih hchild)

theorem mem_places {top node : Node} {place : Place} (h : top.at? place = some node) :
    (place, node) ∈ top.places := by
  induction place generalizing top with
  | nil =>
    obtain rfl := Option.some.inj h
    cases top <;> simp [places]
  | cons name place ih =>
    cases top with
    | file | link => simp [at?, entries] at h
    | folder entries =>
      rw [at?] at h
      split at h
      · exact absurd h (by simp)
      · rename_i child hchild
        rw [places]
        exact List.mem_cons_of_mem _ (mem_placesOf (mem_of_lookup_eq_some hchild) (ih h))

/-- There are not more places of folders than folders. -/
theorem length_le_folderCount {top : Node} {folders : List Place} (nodup : folders.Nodup)
    (h : ∀ place ∈ folders, ∃ es, top.at? place = some (.folder es)) :
    folders.length ≤ top.folderCount := by
  have hsubset : folders ⊆ (top.places.filter fun p => p.2.isFolder).map Prod.fst := by
    intro place hplace
    obtain ⟨es, hes⟩ := h place hplace
    exact List.mem_map_of_mem (List.mem_filter.mpr ⟨mem_places hes, rfl⟩)
  rw [← countP_places, List.countP_eq_length_filter]
  have hle := (nodup.subperm hsubset).length_le
  rwa [List.length_map] at hle

end Node

namespace Disk

/-! ## Entry by entry -/

variable {w : Walker} {root here shown place : Place} {hops : ℕ} {above : List (Place × Place)}
  {es : List (Raw × Node)} {name : Raw}

theorem entries_eq_flatMap (es : List (Raw × Node)) :
    w.entries hops above here shown es =
      es.flatMap fun e => w.entries hops above here shown [e] := by
  induction es with
  | nil => simp [Walker.entries]
  | cons e es ih =>
    obtain ⟨name, node⟩ := e
    rw [List.flatMap_cons, ← ih]
    cases node <;> simp [Walker.entries]

/-! ## A walk underway -/

/-- Whether a walk from `root` goes on by the last name of a way: it goes on by any that is no link,
and by a link if links are followed and this one does not lead back. -/
def Walker.Takes (w : Walker) (root way : Place) : Prop :=
  EndsInLink w.top way → w.followLinks = true ∧ ¬LeadsBack w.top root way

/-- Whether a walk that has come to a folder by the way `shown` goes on by all names of `more`: it
takes every one of them and prunes no folder before the last. -/
def Walker.GoesOn (w : Walker) (root shown more : Place) : Prop :=
  (∀ front, front ≠ [] → front <+: more → w.Takes root (shown ++ front)) ∧
    ∀ name ∈ more.dropLast, w.prunes name = false

/-- Whether a walk that has come to a folder by the way `shown` goes on into all folders of `more`,
each in the one before: it takes all of these names and prunes none of them. -/
def Walker.Enters (w : Walker) (root shown more : Place) : Prop :=
  (∀ front, front ≠ [] → front <+: more → w.Takes root (shown ++ front)) ∧
    ∀ name ∈ more, w.prunes name = false

theorem Walker.enters_nil : w.Enters root shown [] :=
  ⟨fun _ hne hfront => absurd (List.prefix_nil.mp hfront) hne,
    fun _ hname => absurd hname List.not_mem_nil⟩

theorem Walker.enters_cons_iff {more : Place} :
    w.Enters root shown (name :: more) ↔
      w.Takes root (shown ++ [name]) ∧ w.prunes name = false ∧
        w.Enters root (shown ++ [name]) more := by
  have hfronts : (∀ front, front ≠ [] → front <+: name :: more → w.Takes root (shown ++ front)) ↔
      w.Takes root (shown ++ [name]) ∧
        ∀ front, front ≠ [] → front <+: more → w.Takes root (shown ++ [name] ++ front) := by
    constructor
    · intro h
      refine ⟨h [name] (List.cons_ne_nil _ _) (by simp), fun front _ hfront => ?_⟩
      rw [List.append_assoc]
      exact h _ (List.cons_ne_nil _ _) ((List.prefix_cons_inj name).mpr hfront)
    · rintro ⟨hfirst, hrest⟩ front hne hfront
      rcases List.prefix_cons_iff.mp hfront with rfl | ⟨front, rfl, hlater⟩
      · exact absurd rfl hne
      · by_cases hempty : front = []
        · rwa [hempty]
        · rw [List.append_cons]
          exact hrest front hempty hlater
  rw [Enters, Enters, hfronts, List.forall_mem_cons]
  tauto

theorem Walker.goesOn_concat_iff {more : Place} :
    w.GoesOn root shown (more ++ [name]) ↔
      w.Enters root shown more ∧ w.Takes root (shown ++ (more ++ [name])) := by
  rw [GoesOn, Enters, List.dropLast_concat]
  constructor
  · rintro ⟨htakes, hprunes⟩
    refine ⟨⟨fun front hne hfront => htakes front hne (hfront.trans (List.prefix_append _ _)),
      hprunes⟩, htakes _ (by simp) List.prefix_rfl⟩
  · rintro ⟨⟨htakes, hprunes⟩, hlast⟩
    refine ⟨fun front hne hfront => ?_, hprunes⟩
    rcases List.prefix_concat_iff.mp hfront with rfl | hfront
    · exact hlast
    · exact htakes front hne hfront

/-- Whether the links that may still be followed are more than the folders that the walk is not in
the middle of. -/
def HasRoom (top : Node) (hops : ℕ) (above : List (Place × Place)) : Prop :=
  ∃ places : List Place, places.Nodup ∧
    (∀ place ∈ places,
      place ∈ above.map Prod.fst ∧ ∃ es, top.at? place = some (.folder es)) ∧
    top.folderCount < hops + places.length

/-- A walk from `root` that has come to the folder `here` by the way `shown` is in the middle of the
folders on that way and of no others. -/
structure Underway (w : Walker) (root : Place) (hops : ℕ) (above : List (Place × Place))
    (here shown : Place) : Prop where
  leads : Leads w.top shown here
  names : ∀ name ∈ shown, name.IsName
  prefix_shown : root <+: shown
  mem_above_iff : ∀ place way,
    (place, way) ∈ above ↔ root <+: way ∧ way <+: shown ∧ Leads w.top way place
  hasRoom : HasRoom w.top hops above

section HasRoom

variable {top : Node}

theorem HasRoom.ne_zero (h : HasRoom top hops above) : hops ≠ 0 := by
  rintro rfl
  obtain ⟨places, nodup, hplaces, hlt⟩ := h
  have hle := Node.length_le_folderCount nodup fun place hplace => (hplaces place hplace).2
  omega

theorem HasRoom.enter (h : HasRoom top hops above) (entry : Place × Place) :
    HasRoom top hops (entry :: above) := by
  obtain ⟨places, nodup, hplaces, hlt⟩ := h
  refine ⟨places, nodup, fun place hplace => ?_, hlt⟩
  exact (hplaces place hplace).imp_left (List.mem_cons_of_mem _)

/-- A link that leads to a folder which the walk is not in the middle of takes one of the hops and
one of these folders. -/
theorem HasRoom.hop (h : HasRoom top (hops + 1) above) {place way : Place}
    (hnew : place ∉ above.map Prod.fst) (hfolder : top.at? place = some (.folder es)) :
    HasRoom top hops ((place, way) :: above) := by
  obtain ⟨places, nodup, hplaces, hlt⟩ := h
  refine ⟨place :: places, List.nodup_cons.mpr ⟨fun hmem => hnew (hplaces place hmem).1, nodup⟩,
    List.forall_mem_cons.mpr ⟨⟨List.mem_cons_self, es, hfolder⟩, fun other hother => ?_⟩, ?_⟩
  · exact (hplaces other hother).imp_left (List.mem_cons_of_mem _)
  · rw [List.length_cons]
    omega

end HasRoom

theorem Underway.start (hroot : w.top.at? root = some (.folder es))
    (hnames : ∀ name ∈ root, name.IsName) :
    Underway w root w.top.folderCount [(root, root)] root root where
  leads := locateFrom_self hroot (by simp) hnames
  names := hnames
  prefix_shown := List.prefix_rfl
  mem_above_iff place way := by
    have hleads : Leads w.top root root := locateFrom_self hroot (by simp) hnames
    rw [List.mem_singleton, Prod.mk.injEq]
    constructor
    · rintro ⟨rfl, rfl⟩
      exact ⟨List.prefix_rfl, List.prefix_rfl, hleads⟩
    · rintro ⟨hbelow, habove, hplace⟩
      obtain rfl := hbelow.eq_of_length (hbelow.length_le.antisymm habove.length_le)
      exact ⟨hplace.unique hleads, rfl⟩
  hasRoom := ⟨[root], List.nodup_singleton _, by simp [hroot], by simp⟩

theorem Underway.enter (h : Underway w root hops above here shown) (hname : name.IsName)
    {hops' : ℕ} {place : Place} (hplace : Leads w.top (shown ++ [name]) place)
    (room : HasRoom w.top hops' ((place, shown ++ [name]) :: above)) :
    Underway w root hops' ((place, shown ++ [name]) :: above) place (shown ++ [name]) where
  leads := hplace
  names := List.forall_mem_append.mpr ⟨h.names, List.forall_mem_singleton.mpr hname⟩
  prefix_shown := h.prefix_shown.trans (List.prefix_append _ _)
  mem_above_iff other way := by
    rw [List.mem_cons, Prod.mk.injEq, h.mem_above_iff, List.prefix_concat_iff]
    constructor
    · rintro (⟨rfl, rfl⟩ | ⟨hbelow, habove, hother⟩)
      · exact ⟨h.prefix_shown.trans (List.prefix_append _ _), Or.inl rfl, hplace⟩
      · exact ⟨hbelow, Or.inr habove, hother⟩
    · rintro ⟨hbelow, rfl | habove, hother⟩
      · exact Or.inl ⟨hother.unique hplace, rfl⟩
      · exact Or.inr ⟨hbelow, habove, hother⟩
  hasRoom := room

/-- The next link leads back exactly if it leads to a folder that the walk is in the middle of. -/
theorem Underway.leadsBack_iff (h : Underway w root hops above here shown) {place : Place}
    (hplace : Leads w.top (shown ++ [name]) place) :
    LeadsBack w.top root (shown ++ [name]) ↔ place ∈ above.map Prod.fst := by
  constructor
  · rintro ⟨earlier, stop, hbelow, habove, hne, hearlier, hstop⟩
    obtain rfl := hstop.unique hplace
    have hmem := (h.mem_above_iff stop earlier).mpr
      ⟨hbelow, (List.prefix_concat_iff.mp habove).resolve_left hne, hearlier⟩
    exact List.mem_map_of_mem hmem
  · intro hmem
    obtain ⟨⟨_, way⟩, hway, rfl⟩ := List.mem_map.mp hmem
    obtain ⟨hbelow, habove, hleads⟩ := (h.mem_above_iff _ _).mp hway
    refine ⟨way, _, hbelow, habove.trans (List.prefix_append _ _), ?_, hleads, hplace⟩
    rintro rfl
    have hle := habove.length_le
    rw [List.length_append, List.length_singleton] at hle
    omega

/-- A link that leads to no folder does not lead back. -/
theorem Underway.not_leadsBack (h : Underway w root hops above here shown) (hname : name.IsName)
    {stop : Place} (hstop : Leads w.top (shown ++ [name]) stop)
    (hno : ∀ inner, w.top.at? stop ≠ some (.folder inner)) :
    ¬LeadsBack w.top root (shown ++ [name]) := by
  intro hback
  obtain ⟨inner, hinner⟩ := hback.exists_folder
    (List.forall_mem_append.mpr ⟨h.names, List.forall_mem_singleton.mpr hname⟩) hstop
  exact hno inner hinner

/-! ## One name of a way -/

section Walk

variable {node : Node}

/-- What is no link is not left aside. -/
theorem takes_of_ne_link (hshown : Leads w.top shown here)
    (hnode : w.top.at? (here ++ [name]) = some node) (hlink : ∀ target, node ≠ .link target) :
    w.Takes root (shown ++ [name]) := by
  intro hends
  obtain ⟨target, htarget⟩ := (endsInLink_concat_iff hshown name).mp hends
  exact absurd (Option.some.inj (hnode.symm.trans htarget)) (hlink target)

/-- Of the entries of a folder only the one of the next name is on the way. -/
theorem mem_entries_iff_mem_singleton (ordered : w.top.IsOrdered)
    (hes : w.top.at? here = some (.folder es)) (hnode : w.top.at? (here ++ [name]) = some node)
    {found : Except WalkFault Place} (hfound : shown ++ [name] <+: wayOf found) :
    found ∈ w.entries hops above here shown es ↔
      found ∈ w.entries hops above here shown [(name, node)] := by
  rw [entries_eq_flatMap es, List.mem_flatMap]
  rw [Node.at?_concat hes] at hnode
  constructor
  · rintro ⟨⟨other, child⟩, he, hmem⟩
    obtain ⟨_, he', hprefix⟩ := (meets_of_mem_entries hmem).exists_entry
    obtain rfl := List.mem_singleton.mp he'
    obtain rfl : other = name := by
      have heq := (List.prefix_of_prefix_length_le hprefix hfound (by simp)).eq_of_length (by simp)
      simpa using heq
    cases ordered.at? hes with
    | folder _ sorted _ =>
      have hlookup := lookup_eq_some_of_sorted sorted he
      rw [hnode] at hlookup
      rwa [Option.some.inj hlookup]
  · intro hmem
    exact ⟨(name, node), mem_of_lookup_eq_some hnode, hmem⟩

/-- What a walk meets in a folder is not at the way to this folder. -/
theorem wayOf_ne_of_mem_entries {found : Except WalkFault Place}
    (h : found ∈ w.entries hops above here shown es) : wayOf found ≠ shown := by
  intro hway
  obtain ⟨e, -, hprefix⟩ := (meets_of_mem_entries h).exists_entry
  have hle := hprefix.length_le
  rw [hway, List.length_append, List.length_singleton] at hle
  omega

variable (h : Underway w root hops above here shown) (hname : name.IsName)
  (hnode : w.top.at? (here ++ [name]) = some node) {stop : Place}

include h hname hnode

/-- Where the way ends at a file, the walk shows it if it takes the last name. -/
theorem mem_singleton_iff_of_file (hstop : Leads w.top (shown ++ [name]) stop)
    {content : ByteArray} (hcontent : w.top.at? stop = some (.file content)) :
    .ok (shown ++ [name]) ∈ w.entries hops above here shown [(name, node)] ↔
      w.Takes root (shown ++ [name]) := by
  cases node with
  | file content =>
    have htakes : w.Takes root (shown ++ [name]) := takes_of_ne_link h.leads hnode (by simp)
    simp [Walker.entries, htakes]
  | folder inner =>
    obtain rfl := hstop.unique (h.leads.concat hname hnode (by simp))
    exact absurd (hnode.symm.trans hcontent) (by simp)
  | link target =>
    have hnew := h.not_leadsBack hname hstop (by simp [hcontent])
    rw [Walker.Takes, endsInLink_concat_iff h.leads name, hnode]
    rw [Leads] at hstop
    cases hfollow : w.followLinks <;> simp [Walker.entries, hfollow, hstop, hcontent, hnew]

/-- Where the way goes on in a folder, the walk does so if it takes the name and does not prune the
folder. -/
theorem exists_underway (hstop : Leads w.top (shown ++ [name]) stop)
    {inner : List (Raw × Node)} (hinner : w.top.at? stop = some (.folder inner)) :
    ∃ hops', Underway w root hops' ((stop, shown ++ [name]) :: above) stop (shown ++ [name]) ∧
      ∀ found, wayOf found ≠ shown ++ [name] →
        (found ∈ w.entries hops above here shown [(name, node)] ↔
          w.Takes root (shown ++ [name]) ∧ w.prunes name = false ∧
            found ∈ w.entries hops' ((stop, shown ++ [name]) :: above) stop (shown ++ [name])
              inner) := by
  cases node with
  | file content =>
    obtain rfl := hstop.unique (h.leads.concat hname hnode (by simp))
    exact absurd (hnode.symm.trans hinner) (by simp)
  | folder inner' =>
    have htakes : w.Takes root (shown ++ [name]) := takes_of_ne_link h.leads hnode (by simp)
    obtain rfl := hstop.unique (h.leads.concat hname hnode (by simp))
    obtain rfl : inner' = inner := by simpa [hnode] using hinner
    refine ⟨hops, h.enter hname hstop (h.hasRoom.enter _), fun found _ => ?_⟩
    cases hprunes : w.prunes name <;> simp [Walker.entries, htakes, hprunes]
  | link target =>
    have htakes : w.Takes root (shown ++ [name]) ↔
        w.followLinks = true ∧ stop ∉ above.map Prod.fst := by
      rw [Walker.Takes, endsInLink_concat_iff h.leads name, hnode, h.leadsBack_iff hstop]
      simp
    have hmem : stop ∈ above.map Prod.fst ↔ (above.lookup stop).isSome = true := mem_keys_iff
    have hlocate := hstop
    rw [Leads] at hlocate
    rw [htakes]
    rcases hlookup : above.lookup stop with _ | ancestor
    · have hnew : stop ∉ above.map Prod.fst := by simp [hmem, hlookup]
      obtain ⟨hops, rfl⟩ := Nat.exists_eq_succ_of_ne_zero h.hasRoom.ne_zero
      refine ⟨hops, h.enter hname hstop (h.hasRoom.hop hnew hinner), fun found _ => ?_⟩
      cases hfollow : w.followLinks <;> cases hprunes : w.prunes name <;>
        simp [Walker.entries, hfollow, hlocate, hinner, hlookup, hnew, hprunes]
    · have hback : stop ∈ above.map Prod.fst := by simp [hmem, hlookup]
      refine ⟨hops, h.enter hname hstop (h.hasRoom.enter _), fun found hfound => ?_⟩
      have hloop : found ≠ .error (.loop (shown ++ [name]) ancestor) := by
        rintro rfl
        exact hfound rfl
      cases hfollow : w.followLinks <;>
        simp [Walker.entries, hfollow, hlocate, hinner, hlookup, hback, hloop]

/-- Whether a walk from `root` that has come to the last name of a way halts there: it follows
links, and this is one that leads nowhere or back. -/
def Walker.Halts (w : Walker) (root way : Place) : Prop :=
  w.followLinks = true ∧ EndsInLink w.top way ∧
    ((∀ place, ¬Leads w.top way place) ∨ LeadsBack w.top root way)

/-- Whether a walk from `root` comes to `way` and halts there: all names on the way are those of
folders that it enters, up to the last one, which is that of the link. -/
def Walker.HaltsAt (w : Walker) (root way : Place) : Prop :=
  ∃ more name, way = root ++ more ++ [name] ∧ (∀ n ∈ more ++ [name], n.IsName) ∧
    w.Enters root root more ∧ w.Halts root way

/-- At the next name there is a fault if the walk halts there. -/
theorem exists_fault_singleton_iff :
    (∃ f : WalkFault, f.way = shown ++ [name] ∧
        .error f ∈ w.entries hops above here shown [(name, node)]) ↔
      w.Halts root (shown ++ [name]) := by
  rw [Walker.Halts, endsInLink_concat_iff h.leads name, hnode]
  cases node with
  | file content => simp [Walker.entries]
  | folder inner =>
    refine ⟨?_, fun hhalts => absurd hhalts.2.1 (by simp)⟩
    rintro ⟨f, hway, hmem⟩
    simp only [Walker.entries, List.append_nil] at hmem
    split at hmem
    · exact absurd hmem List.not_mem_nil
    · exact absurd hway (wayOf_ne_of_mem_entries hmem)
  | link target =>
    cases hfollow : w.followLinks with
    | false => simp [Walker.entries, hfollow]
    | true =>
      cases hlocate : locateFrom w.top .content linkLimit [] (shown ++ [name]) with
      | error why =>
        have hnone : ∀ place, ¬Leads w.top (shown ++ [name]) place := by
          simp [Leads, hlocate]
        simp [Walker.entries, hfollow, hlocate, hnone, WalkFault.way]
      | ok stop =>
        have hstop : Leads w.top (shown ++ [name]) stop := hlocate
        have hsome : ∃ place, Leads w.top (shown ++ [name]) place := ⟨stop, hstop⟩
        have hnew := h.not_leadsBack hname hstop
        rcases hat : w.top.at? stop with _ | ⟨content⟩ | ⟨target'⟩ | ⟨inner⟩
        · simp [Walker.entries, hfollow, hlocate, hsome, hat, hnew]
        · simp [Walker.entries, hfollow, hlocate, hsome, hat, hnew]
        · simp [Walker.entries, hfollow, hlocate, hsome, hat, hnew]
        · rw [h.leadsBack_iff hstop, mem_keys_iff]
          rcases hlookup : above.lookup stop with _ | ancestor
          · obtain ⟨hops, rfl⟩ := Nat.exists_eq_succ_of_ne_zero h.hasRoom.ne_zero
            refine ⟨?_, fun hhalts => absurd hhalts (by simp [hsome])⟩
            rintro ⟨f, hway, hmem⟩
            simp only [Walker.entries, hfollow, hlocate, hat, hlookup, List.append_nil] at hmem
            split at hmem
            · exact absurd hmem List.not_mem_nil
            · split at hmem
              · exact absurd hmem List.not_mem_nil
              · exact absurd hway (wayOf_ne_of_mem_entries hmem)
          · simp [Walker.entries, hfollow, hlocate, hat, hlookup, WalkFault.way]

end Walk

/-! ## Which files and which faults -/

section Walk

variable (ordered : w.top.IsOrdered) {more : Place} {stop found : Place} {content : ByteArray}

include ordered

/-- A walk that is underway meets what lies behind further folders exactly if it enters all of them,
and then it is underway there. -/
theorem exists_underway_behind (h : Underway w root hops above here shown)
    (hes : w.top.at? here = some (.folder es)) (hmore : ∀ name ∈ more, name.IsName)
    (hstop : Leads w.top (shown ++ more) stop) {inner : List (Raw × Node)}
    (hinner : w.top.at? stop = some (.folder inner)) :
    ∃ hops' above', Underway w root hops' above' stop (shown ++ more) ∧
      ∀ found, shown ++ more <+: wayOf found → wayOf found ≠ shown ++ more →
        (found ∈ w.entries hops above here shown es ↔
          w.Enters root shown more ∧
            found ∈ w.entries hops' above' stop (shown ++ more) inner) := by
  -- one name after the other; behind each of them the walk is underway again
  induction more generalizing hops above here shown es with
  | nil =>
    rw [List.append_nil] at hstop ⊢
    obtain rfl := hstop.unique h.leads
    obtain rfl : es = inner := by simpa [hes] using hinner
    exact ⟨hops, above, h, fun found _ _ => by simp [Walker.enters_nil]⟩
  | cons name more ih =>
    rw [List.forall_mem_cons] at hmore
    rw [List.append_cons] at hstop
    obtain ⟨next, hnext⟩ := hstop.exists_of_append hmore.2
    obtain ⟨here', node, hhere', hnode⟩ := hnext.exists_entry hmore.1
    obtain rfl := hhere'.unique h.leads
    obtain ⟨held, hheld⟩ : ∃ held, w.top.at? next = some (.folder held) := by
      by_cases hend : more = []
      · subst hend
        rw [List.append_nil] at hstop
        exact ⟨inner, hnext.unique hstop ▸ hinner⟩
      · obtain ⟨next', held, hnext', hheld⟩ := hstop.exists_folder hmore.2 hend
        exact ⟨held, hnext.unique hnext' ▸ hheld⟩
    obtain ⟨hops', hunder, hiff⟩ := exists_underway h hmore.1 hnode hnext hheld
    obtain ⟨hops'', above'', hunder', hiff'⟩ := ih hunder hheld hmore.2 hstop
    rw [List.append_cons]
    refine ⟨hops'', above'', hunder', fun found hfound hne => ?_⟩
    have hfirst : shown ++ [name] <+: wayOf found := (List.prefix_append _ _).trans hfound
    have hfirst' : wayOf found ≠ shown ++ [name] := by
      intro hway
      rw [hway] at hfound hne
      exact hne (hfound.eq_of_length (hfound.length_le.antisymm (by simp))).symm
    rw [mem_entries_iff_mem_singleton ordered hes hnode hfirst, hiff found hfirst',
      hiff' found hfound hne, Walker.enters_cons_iff, and_assoc, and_assoc]

/-- Underway, a walk shows a file behind the folder at hand exactly if it goes on all the way. -/
theorem mem_entries_iff_goesOn (h : Underway w root hops above here shown)
    (hes : w.top.at? here = some (.folder es)) (hne : more ≠ [])
    (hmore : ∀ name ∈ more, name.IsName) (hfound : Leads w.top (shown ++ more) found)
    (hfile : w.top.at? found = some (.file content)) :
    .ok (shown ++ more) ∈ w.entries hops above here shown es ↔ w.GoesOn root shown more := by
  obtain ⟨init, name, rfl⟩ := List.eq_nil_or_concat' more |>.resolve_left hne
  rw [List.forall_mem_append] at hmore
  have hname : name.IsName := hmore.2 name List.mem_cons_self
  rw [← List.append_assoc] at hfound ⊢
  obtain ⟨stop, inner, hstop, hinner⟩ := hfound.exists_folder hmore.2 (List.cons_ne_nil _ _)
  obtain ⟨stop', node, hstop', hnode⟩ := hfound.exists_entry hname
  obtain rfl := hstop'.unique hstop
  obtain ⟨hops', above', hunder, hiff⟩ :=
    exists_underway_behind ordered h hes hmore.1 hstop hinner
  rw [hiff _ (List.prefix_append _ _) (by simp [wayOf]),
    mem_entries_iff_mem_singleton ordered hinner hnode List.prefix_rfl,
    mem_singleton_iff_of_file hunder hname hnode hfound hfile, Walker.goesOn_concat_iff,
    List.append_assoc]

/-- Underway, a walk meets a fault behind the folder at hand exactly if it comes to a link and halts
there. -/
theorem exists_fault_iff_halts (h : Underway w root hops above here shown)
    (hes : w.top.at? here = some (.folder es)) (hmore : ∀ n ∈ more ++ [name], n.IsName)
    (hlink : EndsInLink w.top (shown ++ more ++ [name])) :
    (∃ f : WalkFault, f.way = shown ++ more ++ [name] ∧
        .error f ∈ w.entries hops above here shown es) ↔
      w.Enters root shown more ∧ w.Halts root (shown ++ more ++ [name]) := by
  obtain ⟨way, last, stop, target, heq, hstop, htarget⟩ := hlink
  obtain ⟨rfl, hlast⟩ := List.append_inj' heq rfl
  obtain rfl := List.singleton_inj.mp hlast
  rw [List.forall_mem_append] at hmore
  have hname : name.IsName := hmore.2 name List.mem_cons_self
  obtain ⟨inner, hinner⟩ := Node.exists_folder_of_at?_concat htarget
  obtain ⟨hops', above', hunder, hiff⟩ :=
    exists_underway_behind ordered h hes hmore.1 hstop hinner
  rw [← exists_fault_singleton_iff hunder hname htarget]
  constructor
  · rintro ⟨f, hway, hmem⟩
    have hprefix : shown ++ more ++ [name] <+: wayOf (.error f) := hway ▸ List.prefix_rfl
    rw [hiff _ ((List.prefix_append _ _).trans hprefix) (by simp [wayOf, hway]),
      mem_entries_iff_mem_singleton ordered hinner htarget hprefix] at hmem
    exact ⟨hmem.1, f, hway, hmem.2⟩
  · rintro ⟨henters, f, hway, hmem⟩
    have hprefix : shown ++ more ++ [name] <+: wayOf (.error f) := hway ▸ List.prefix_rfl
    refine ⟨f, hway, ?_⟩
    rw [hiff _ ((List.prefix_append _ _).trans hprefix) (by simp [wayOf, hway]),
      mem_entries_iff_mem_singleton ordered hinner htarget hprefix]
    exact ⟨henters, hmem⟩

variable (named : w.top.IsNamed)

include named

/-- A fault stands at a link, on a way by names. -/
theorem endsInLink_of_meets {f : WalkFault} (h : Meets w.top here shown es (.error f))
    (hhere : w.top.at? here = some (.folder es)) (hshown : Leads w.top shown here) :
    ∃ more name, f.way = shown ++ more ++ [name] ∧ (∀ n ∈ more ++ [name], n.IsName) ∧
      EndsInLink w.top f.way := by
  have behind {shown : Place} {name : Raw} (hname : name.IsName)
      (h : ∃ more last, f.way = shown ++ [name] ++ more ++ [last] ∧
        (∀ n ∈ more ++ [last], n.IsName) ∧ EndsInLink w.top f.way) :
      ∃ more last, f.way = shown ++ more ++ [last] ∧ (∀ n ∈ more ++ [last], n.IsName) ∧
        EndsInLink w.top f.way := by
    obtain ⟨more, last, hway, hnames, hlink⟩ := h
    exact ⟨name :: more, last, by simp [hway], List.forall_mem_cons.mpr ⟨hname, hnames⟩, hlink⟩
  generalize hfound : Except.error f = found at h
  induction h with
  | file | linked => exact absurd hfound (by simp)
  | enter entry below ih =>
    obtain ⟨hname, hentry⟩ := entry_of_mem ordered named hhere entry
    exact behind hname (ih hentry (hshown.concat hname hentry (by simp)) hfound)
  | follow entry leads folder below ih =>
    obtain ⟨hname, -⟩ := entry_of_mem ordered named hhere entry
    exact behind hname (ih folder leads hfound)
  | @fault _ _ _ name target _ entry way =>
    cases hfound
    obtain ⟨hname, hentry⟩ := entry_of_mem ordered named hhere entry
    refine ⟨[], name, by simpa using way, by simpa using hname, ?_⟩
    rw [way]
    exact (endsInLink_concat_iff hshown name).mpr ⟨target, hentry⟩

omit ordered named in
theorem Walker.files_eq (hroot : w.top.at? root = some (.folder es)) :
    w.files root = w.entries w.top.folderCount [(root, root)] root root es := by
  rw [Walker.files, hroot]

/-- A walk shows a file exactly if the way leads to it from the folder at `root` by names, and the
walk goes on all the way. -/
theorem mem_files_iff {way : Place} (hroot : w.top.at? root = some (.folder es)) :
    .ok way ∈ w.files root ↔
      Shows w.top root way ∧ w.GoesOn root root (way.drop root.length) := by
  have hnames := (named.at? hroot).2
  have hunder : Underway w root w.top.folderCount [(root, root)] root root :=
    .start hroot hnames
  constructor
  · intro hmem
    have hshows := (shows_of_mem_files ordered named hmem).2
    obtain ⟨more, found, content, rfl, hne, hmore, hfound, hfile⟩ := id hshows
    rw [Walker.files_eq hroot] at hmem
    rw [List.drop_left]
    exact ⟨hshows,
      (mem_entries_iff_goesOn ordered hunder hroot hne hmore hfound hfile).mp hmem⟩
  · rintro ⟨⟨more, found, content, rfl, hne, hmore, hfound, hfile⟩, hgoes⟩
    rw [List.drop_left] at hgoes
    rw [Walker.files_eq hroot]
    exact (mem_entries_iff_goesOn ordered hunder hroot hne hmore hfound hfile).mpr hgoes

/-- A walk meets a fault exactly where it has come to a link by names, through folders that it
enters, and halts there. -/
theorem exists_fault_iff {way : Place} (hroot : w.top.at? root = some (.folder es)) :
    (∃ f : WalkFault, f.way = way ∧ .error f ∈ w.files root) ↔ w.HaltsAt root way := by
  have hunder : Underway w root w.top.folderCount [(root, root)] root root :=
    .start hroot (named.at? hroot).2
  rw [Walker.files_eq hroot]
  constructor
  · rintro ⟨f, rfl, hmem⟩
    obtain ⟨more, name, hway, hnames, hlink⟩ :=
      endsInLink_of_meets ordered named (meets_of_mem_entries hmem) hroot hunder.leads
    rw [hway] at hlink
    refine ⟨more, name, hway, hnames, ?_⟩
    rw [hway]
    exact (exists_fault_iff_halts ordered hunder hroot hnames hlink).mp ⟨f, hway, hmem⟩
  · rintro ⟨more, name, rfl, hnames, henters, hhalts⟩
    exact (exists_fault_iff_halts ordered hunder hroot hnames hhalts.2.1).mpr ⟨henters, hhalts⟩

end Walk

end Disk

end ImportScout
