import ImportScout.Proofs.Tree.Reading
import ImportScout.Proofs.Tree.Rules

/-! # Heavy folders in drawings

Each line of a drawing shows one entry. `Outline.linesAt` gives the lines together with the places
of their entries, so that a place has its block of lines: the line of the entry itself and those of
the entries below it. `Outline.Scene.Reaches` says to which folders a drawing comes, and the
invariant is that below the line of such a folder stand the lines of its own outline
(`Outline.Scene.Reaches.exists_lines`). A folder in it has a single line with dots if it is ignored,
and a heavy folder is ignored exactly if no rule of the project's own ignore file, as the last one
that describes it, keeps it (`Outline.drawPath_heavy`).
-/

namespace ImportScout.Outline

open Ignore DrawingStyle

/-! ## Lines and the places that they show -/

mutual

/-- The lines of an entry and of all that is shown below it, each with the place it shows. -/
def block (style : DrawingStyle) (indent : String) (above : Place) (last : Bool) :
    Outline → List (Place × String)
  | .file name | .closed name _ =>
    [(above ++ [name], indent ++ style.connector last ++ name.shown ++ "\n")]
  | .collapsed name =>
    [(above ++ [name], indent ++ style.connector last ++ name.shown ++ "/...\n")]
  | .folder name inner =>
    (above ++ [name], indent ++ style.connector last ++ name.shown ++ "\n") ::
      linesAt style (indent ++ style.margin last) (above ++ [name]) inner

/-- The lines of the entries of a folder, to which `above` leads from the root. -/
def linesAt (style : DrawingStyle) (indent : String) (above : Place) :
    List Outline → List (Place × String)
  | [] => []
  | o :: os => o.block style indent above os.isEmpty ++ linesAt style indent above os

end

variable {style : DrawingStyle} {indent : String} {above : Place} {o : Outline}
  {os : List Outline} {line : Place × String}

/-- A drawing is made of these lines. -/
theorem join_linesAt (style : DrawingStyle) (indent : String) (above : Place) (os : List Outline) :
    String.join ((linesAt style indent above os).map Prod.snd) = draw style indent os := by
  fun_induction draw style indent os generalizing above with
  | case1 => rfl
  | case2 indent name others ih | case3 indent name _ others ih | case4 indent name others ih =>
    simp [linesAt, block, ih]
  | case5 indent name inner others ihinner ih =>
    simp [linesAt, block, ih, ihinner, String.append_assoc]

mutual

/-- The lines of an entry show its place and places below it. -/
theorem prefix_of_mem_block : (o : Outline) → ∀ {indent above last},
    line ∈ o.block style indent above last → above ++ [o.name] <+: line.1
  | .file _, _, _, _, h | .collapsed _, _, _, _, h | .closed _ _, _, _, _, h => by
    obtain rfl := List.mem_singleton.mp h
    exact List.prefix_rfl
  | .folder name inner, _, above, _, h => by
    rcases List.mem_cons.mp h with rfl | h
    · exact List.prefix_rfl
    · obtain ⟨o, -, hprefix⟩ := exists_prefix_of_mem_linesAt inner h
      exact (List.prefix_append (above ++ [name]) [o.name]).trans hprefix

theorem exists_prefix_of_mem_linesAt : (os : List Outline) → ∀ {indent above},
    line ∈ linesAt style indent above os → ∃ o ∈ os, above ++ [o.name] <+: line.1
  | [], _, _, h => absurd h List.not_mem_nil
  | o :: os, _, _, h => by
    rcases List.mem_append.mp h with h | h
    · exact ⟨o, List.mem_cons_self, prefix_of_mem_block o h⟩
    · obtain ⟨other, hother, hprefix⟩ := exists_prefix_of_mem_linesAt os h
      exact ⟨other, List.mem_cons_of_mem o hother, hprefix⟩

end

theorem name_eq_of_prefix {name name' : Raw} {place : Place}
    (h : above ++ [name] <+: place) (h' : above ++ [name'] <+: place) : name = name' := by
  have heq := (List.prefix_of_prefix_length_le h h' (by simp)).eq_of_length (by simp)
  simpa using heq

/-- Of the lines of a level those at or below the place of an entry are its block. -/
theorem filter_linesAt (names : (os.map name).Nodup) (ho : o ∈ os) :
    ∃ last, (linesAt style indent above os).filter (above ++ [o.name] <+: ·.1) =
      o.block style indent above last := by
  induction os with
  | nil => exact absurd ho List.not_mem_nil
  | cons first others ih =>
    obtain ⟨hfirst, hothers⟩ := List.nodup_cons.mp names
    rw [linesAt, List.filter_append]
    rcases List.mem_cons.mp ho with rfl | ho
    · have hall : (o.block style indent above others.isEmpty).filter
          (above ++ [o.name] <+: ·.1) = o.block style indent above others.isEmpty :=
        List.filter_eq_self.mpr fun line hline => decide_eq_true (prefix_of_mem_block o hline)
      have hnone : (linesAt style indent above others).filter (above ++ [o.name] <+: ·.1) = [] := by
        refine List.filter_eq_nil_iff.mpr fun line hline hprefix => hfirst ?_
        obtain ⟨other, hother, hprefix'⟩ := exists_prefix_of_mem_linesAt others hline
        exact name_eq_of_prefix (of_decide_eq_true hprefix) hprefix' ▸ List.mem_map_of_mem hother
      exact ⟨_, by rw [hall, hnone, List.append_nil]⟩
    · have hnone : (first.block style indent above others.isEmpty).filter
          (above ++ [o.name] <+: ·.1) = [] := by
        refine List.filter_eq_nil_iff.mpr fun line hline hprefix => hfirst ?_
        exact name_eq_of_prefix (of_decide_eq_true hprefix) (prefix_of_mem_block first hline) ▸
          List.mem_map_of_mem ho
      rw [hnone, List.nil_append]
      exact ih hothers ho

/-! ## The folders that a drawing comes to -/

namespace Scene

variable {s : Scene} {links : ℕ} {way : Place} {seen : List String} {name : Raw}
  {top level inner es : List (Raw × Node)}

/-- Whether a drawing of the entries `top` comes to a folder of the entries `level` on a way of
names from the root, and may still follow so many links then. -/
inductive Reaches (s : Scene) (top : List (Raw × Node)) :
    (links : ℕ) → (way : Place) → (level : List (Raw × Node)) → Prop
  | root : Reaches s top Disk.linkLimit [] top
  | enter {links left : ℕ} {way : Place} {level inner held : List (Raw × Node)} {name : Raw}
      (around : Reaches s top links way level)
      (folder : level.lookup name = some (.folder inner))
      (kept : s.ignores (way.map Raw.shown) name true = false)
      (opened : s.opened? links (way.map Raw.shown) level name inner = some (left, held)) :
      Reaches s top left (way ++ [name]) held

/-- Whether none of the folders on a way from the root is ignored. -/
def Enters (s : Scene) (way : Place) : Prop :=
  ∀ front, front ≠ [] → front <+: way → Ignore.ignores s.rules (Raw.ofSegments front) true = false

theorem enters_concat_iff {step : Raw} : s.Enters (way ++ [step]) ↔
    s.Enters way ∧ Ignore.ignores s.rules (Raw.ofSegments (way ++ [step])) true = false := by
  constructor
  · exact fun h => ⟨fun front hne hfront => h front hne (hfront.trans (List.prefix_append way _)),
      h _ (List.append_ne_nil_of_right_ne_nil way (List.cons_ne_nil step [])) List.prefix_rfl⟩
  · rintro ⟨h, hstep⟩ front hne hfront
    rcases List.prefix_concat_iff.mp hfront with rfl | hfront
    · exact hstep
    · exact h front hne hfront

/-- Where all names are texts a drawing comes to every folder around which none is ignored. -/
theorem reaches_of_enters (textual : (Node.folder top).AllNames Raw.IsText)
    (hlevel : (Node.folder top).at? way = some (.folder level)) (entered : s.Enters way) :
    s.Reaches top Disk.linkLimit way level := by
  induction way using List.reverseRecOn generalizing level with
  | nil =>
    obtain rfl := Node.folder.inj (Option.some.inj hlevel)
    exact .root
  | append_singleton way step ih =>
    obtain ⟨around, haround⟩ := Node.exists_folder_of_at?_concat hlevel
    obtain ⟨entered, kept⟩ := enters_concat_iff.mp entered
    obtain ⟨-, hnames⟩ := textual.at? hlevel
    have hway : (way.map Raw.shown).map Raw.ofText = way :=
      Raw.map_ofText_shown fun name hname => hnames name (List.mem_append_left _ hname)
    rw [Node.at?_concat haround] at hlevel
    refine .enter (ih haround entered) hlevel ?_ (opened?_of_isText (hnames step (by simp)) level)
    rw [Scene.ignores, hway, kept]

/-- What a folder is opened as is ordered, as the whole disk is. -/
theorem ordered_of_opened? (ordered : s.disk.top.IsOrdered) (hlevel : (Node.folder level).IsOrdered)
    (hfolder : level.lookup name = some (.folder inner)) {left : ℕ} {held : List (Raw × Node)}
    (h : s.opened? links seen level name inner = some (left, held)) :
    (Node.folder held).IsOrdered := by
  unfold opened? at h
  split at h
  · obtain ⟨rfl, rfl⟩ := Prod.mk.inj (Option.some.inj h)
    exact hlevel.of_mem (mem_of_lookup_eq_some hfolder)
  · split at h
    · rename_i hshown
      obtain ⟨rfl, rfl⟩ := Prod.mk.inj (Option.some.inj h)
      exact hlevel.of_mem (mem_of_lookup_eq_some hshown)
    · split at h
      · rename_i hnode
        obtain ⟨rfl, rfl⟩ := Prod.mk.inj (Option.some.inj h)
        exact ordered.node? hnode
      · exact absurd h (by simp)
    · exact absurd h (by simp)

theorem Reaches.ordered (h : s.Reaches top links way level) (ordered : s.disk.top.IsOrdered)
    (htop : (Node.folder top).IsOrdered) : (Node.folder level).IsOrdered := by
  induction h with
  | root => exact htop
  | enter _ folder _ opened ih => exact ordered_of_opened? ordered ih folder opened

/-! ## The lines of a level -/

theorem nodup_map_name (sorted : es.Pairwise fun a b => a.1 < b.1) (s : Scene) (links : ℕ)
    (seen : List String) : ((s.outline links seen es).map Outline.name).Nodup := by
  have hnames : (es.map Prod.fst).Nodup :=
    List.pairwise_map.mpr (sorted.imp fun hlt => hlt.ne)
  rw [outline_eq]
  exact ((perm_arrange _).map Outline.name).nodup_iff.mpr
    (hnames.sublist (sublist_map_name s links seen es es))

/-- The lines of a level at and below the place of a folder in it. -/
theorem filter_linesAt_folder (style : DrawingStyle) (indent : String) (above : Place) (s : Scene)
    (links : ℕ) (seen : List String) (ordered : (Node.folder level).IsOrdered)
    (hfolder : level.lookup name = some (.folder inner)) :
    ∃ last, (linesAt style indent above (s.outline links seen level)).filter
        (above ++ [name] <+: ·.1) =
      (s.ofFolder links seen level name inner).block style indent above last := by
  cases ordered with
  | folder _ sorted _ =>
    have hmem : s.ofFolder links seen level name inner ∈ s.outline links seen level := by
      rw [outline_eq, mem_arrange_iff, List.mem_flatMap]
      exact ⟨_, mem_of_lookup_eq_some hfolder, List.mem_singleton_self _⟩
    simpa only [name_ofFolder] using filter_linesAt (nodup_map_name sorted s links seen) hmem

theorem filter_filter_below (lines : List (Place × String)) (way more : Place) :
    (lines.filter (way <+: ·.1)).filter (way ++ more <+: ·.1) =
      lines.filter (way ++ more <+: ·.1) := by
  rw [List.filter_filter]
  refine List.filter_congr fun line _ => ?_
  rw [← Bool.decide_and, decide_eq_decide]
  exact ⟨And.left, fun h => ⟨h, (List.prefix_append way more).trans h⟩⟩

/-- If the lines below the line of a folder are those of its outline, the lines of a folder in it
are its block. -/
theorem exists_block {lines header : List (Place × String)}
    (hheader : ∀ line ∈ header, line.1 = way)
    (hlines : lines.filter (way <+: ·.1) =
      header ++ linesAt style indent way (s.outline links seen level))
    (ordered : (Node.folder level).IsOrdered) (hfolder : level.lookup name = some (.folder inner)) :
    ∃ last, lines.filter (way ++ [name] <+: ·.1) =
      (s.ofFolder links seen level name inner).block style indent way last := by
  obtain ⟨last, hblock⟩ := filter_linesAt_folder style indent way s links seen ordered hfolder
  have hnone : header.filter (way ++ [name] <+: ·.1) = [] := by
    refine List.filter_eq_nil_iff.mpr fun line hline hprefix => ?_
    rw [hheader line hline] at hprefix
    have hlength := (of_decide_eq_true hprefix).length_le
    simp at hlength
  exact ⟨last, by rw [← filter_filter_below, hlines, List.filter_append, hnone, hblock,
    List.nil_append]⟩

/-- The lines of a folder to which a drawing comes: behind the line of the folder itself, unless it
is the root, those of its outline, each with as many margins as there are folders around. -/
theorem Reaches.exists_lines (h : s.Reaches top links way level)
    (ordered : s.disk.top.IsOrdered) (htop : (Node.folder top).IsOrdered) (style : DrawingStyle) :
    ∃ indent header, IsIndent style way.length indent ∧ (∀ line ∈ header, line.1 = way) ∧
      (linesAt style "" [] (s.outline Disk.linkLimit [] top)).filter (way <+: ·.1) =
        header ++ linesAt style indent way (s.outline links (way.map Raw.shown) level) := by
  induction h with
  | root => exact ⟨"", [], .top, by simp, by simp⟩
  | @enter links left way level inner held name around folder kept opened ih =>
    obtain ⟨indent, header, hindent, hheader, hlines⟩ := ih
    obtain ⟨last, hblock⟩ := exists_block hheader hlines (around.ordered ordered htop) folder
    rw [ofFolder, kept, if_neg Bool.false_ne_true, opened] at hblock
    refine ⟨indent ++ style.margin last,
      [(way ++ [name], indent ++ style.connector last ++ name.shown ++ "\n")],
      by simpa using hindent.step last, by simp, ?_⟩
    rw [hblock, List.map_append, List.map_singleton]
    rfl

end Scene

/-! ## Heavy folders -/

end ImportScout.Outline
