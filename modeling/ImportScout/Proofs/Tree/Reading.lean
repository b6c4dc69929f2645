import ImportScout.Proofs.Tree.Forest

/-! # Reading drawings

A drawing tells all that it shows as long as the names are texts without line feeds: of each line the
margins up to the first connector tell how deep its entry is, and what follows is its label, even
where that looks like margins and connectors itself. `DrawingStyle.decode?` reads a drawing in this
way, each style by its own characters, and finds the visible forest again
(`Outline.decode?_drawPath`). The invariant is that the lines below an indent of some depth read as
the entries at that depth (`Outline.reads_draw`). Names that are no texts may be drawn alike, and a
folder is not found again by such a name (`Outline.drawPath_not_text`).
-/

namespace ImportScout

/-! ## Lines by depth -/

mutual

/-- The depth and the label of a branch at the given depth, and of each below it, as they are
drawn line by line. -/
def Branch.lines (depth : ℕ) : Branch → List (ℕ × String)
  | .node label below => (depth, label) :: Branch.linesOf (depth + 1) below

/-- The lines of branches side by side. -/
def Branch.linesOf (depth : ℕ) : List Branch → List (ℕ × String)
  | [] => []
  | b :: bs => b.lines depth ++ Branch.linesOf depth bs

end

namespace Branch

/-- Put a line in front of branches of known depths: those in front that are deeper hang from it. -/
def hang (line : ℕ × String) (hung : List (ℕ × Branch)) : List (ℕ × Branch) :=
  (line.1, .node line.2 ((hung.takeWhile (line.1 < ·.1)).map Prod.snd)) ::
    hung.dropWhile (line.1 < ·.1)

/-- The forest of which these are the lines. -/
def grow (lines : List (ℕ × String)) : List Branch :=
  (lines.foldr hang []).map Prod.snd

theorem hang_append {depth : ℕ} {label : String} {deeper hung : List (ℕ × Branch)}
    (hdeeper : ∀ p ∈ deeper, depth < p.1) (hhung : ∀ p ∈ hung, p.1 ≤ depth) :
    hang (depth, label) (deeper ++ hung) = (depth, .node label (deeper.map Prod.snd)) :: hung := by
  have hpos : ∀ p ∈ deeper, decide (depth < p.1) = true := fun p hp =>
    decide_eq_true (hdeeper p hp)
  rw [hang, List.takeWhile_append_of_pos hpos, List.dropWhile_append_of_pos hpos]
  cases hung with
  | nil => simp
  | cons first rest =>
    have hfirst := hhung first List.mem_cons_self
    simp [hfirst]

mutual

theorem foldr_hang_lines {depth : ℕ} {hung : List (ℕ × Branch)} (hhung : ∀ p ∈ hung, p.1 ≤ depth) :
    (b : Branch) → (b.lines depth).foldr hang hung = (depth, b) :: hung
  | .node label below => by
    rw [lines, List.foldr_cons, foldr_hang_linesOf (fun p hp => (hhung p hp).trans depth.le_succ),
      hang_append (by simp) hhung, List.map_map]
    simp

/-- The lines of branches make these branches, in front of whatever is not deeper. -/
theorem foldr_hang_linesOf {depth : ℕ} {hung : List (ℕ × Branch)}
    (hhung : ∀ p ∈ hung, p.1 ≤ depth) :
    (bs : List Branch) → (linesOf depth bs).foldr hang hung = bs.map (depth, ·) ++ hung
  | [] => rfl
  | b :: bs => by
    rw [linesOf, List.foldr_append, foldr_hang_linesOf hhung bs, foldr_hang_lines ?_ b]
    · rfl
    · simpa [or_imp, forall_and] using hhung

end

/-- The lines of a forest make the forest again. -/
theorem grow_linesOf (depth : ℕ) (forest : List Branch) : grow (linesOf depth forest) = forest := by
  rw [grow, foldr_hang_linesOf (by simp), List.append_nil, List.map_map]
  exact List.map_id _

end Branch

/-! ## Reading lines -/

namespace DrawingStyle

/-- The depth and the label of the entry that a line shows below `depth` margins: each margin is
one folder more, and a connector ends them. -/
def readLine? (style : DrawingStyle) (depth : ℕ) : List Char → Option (ℕ × String)
  | a :: b :: c :: d :: rest =>
    let part := String.ofList [a, b, c, d]
    if part = style.margin true ∨ part = style.margin false then style.readLine? (depth + 1) rest
    else if part = style.connector true ∨ part = style.connector false then
      some (depth, String.ofList rest)
    else none
  | _ => none

/-- The depths and labels of the lines of a text, each ended by a line feed. -/
def readLines? (style : DrawingStyle) (cs : List Char) : Option (List (ℕ × String)) :=
  (cs.splitOn '\n').dropLast.mapM (style.readLine? 0)

/-- The forest that a drawing shows. -/
def decode? (style : DrawingStyle) (drawing : String) : Option (List Branch) :=
  (style.readLines? drawing.toList).map Branch.grow

variable {style : DrawingStyle} {depth : ℕ} {last : Bool} {rest : List Char} {indent label : String}

theorem readLine?_margin :
    style.readLine? depth ((style.margin last).toList ++ rest) =
      style.readLine? (depth + 1) rest := by
  cases style <;> cases last <;> rfl

theorem readLine?_connector :
    style.readLine? depth ((style.connector last).toList ++ rest) =
      some (depth, String.ofList rest) := by
  cases style <;> cases last <;> rfl

/-- The indents in front of the entries at a depth: a margin for each folder around them. -/
inductive IsIndent (style : DrawingStyle) : ℕ → String → Prop
  | top : IsIndent style 0 ""
  | step {depth : ℕ} {indent : String} (last : Bool) (around : IsIndent style depth indent) :
      IsIndent style (depth + 1) (indent ++ style.margin last)

namespace IsIndent

theorem readLine? (h : IsIndent style depth indent) (rest : List Char) :
    style.readLine? 0 (indent.toList ++ rest) = style.readLine? depth rest := by
  induction h generalizing rest with
  | top => rfl
  | step last around ih => rw [String.toList_append, List.append_assoc, ih, readLine?_margin]

theorem notMem (h : IsIndent style depth indent) : '\n' ∉ indent.toList := by
  induction h with
  | top => simp
  | step last around ih =>
    have hmargin : '\n' ∉ (style.margin last).toList := by cases style <;> cases last <;> decide
    simp [ih, hmargin]

end IsIndent

theorem readLines?_cons {line : List Char} (hline : '\n' ∉ line) (rest : List Char) :
    style.readLines? (line ++ '\n' :: rest) =
      (style.readLine? 0 line).bind fun l => (style.readLines? rest).map (l :: ·) := by
  rw [readLines?, List.splitOn_append_cons_self, List.splitOn_eq_singleton hline,
    List.dropLast_append_of_ne_nil (List.splitOn_ne_nil _ _), List.singleton_append,
    List.mapM_cons]
  simp only [Option.bind_eq_bind, Option.map_eq_bind]
  rfl

/-- Whether a text reads as the given lines, whatever comes behind it. -/
def Reads (style : DrawingStyle) (text : String) (lines : List (ℕ × String)) : Prop :=
  ∀ rest, style.readLines? (text.toList ++ rest) = (style.readLines? rest).map (lines ++ ·)

namespace Reads

theorem nil : style.Reads "" [] := fun rest => by simp

theorem append {text more : String} {lines others : List (ℕ × String)}
    (htext : style.Reads text lines) (hmore : style.Reads more others) :
    style.Reads (text ++ more) (lines ++ others) := fun rest => by
  rw [String.toList_append, List.append_assoc, htext, hmore, Option.map_map]
  simp [Function.comp_def]

/-- A line of a drawing shows the label of an entry at the depth of its indent. -/
theorem line (hindent : IsIndent style depth indent) (last : Bool) (hlabel : '\n' ∉ label.toList) :
    style.Reads (indent ++ style.connector last ++ label ++ "\n") [(depth, label)] := fun rest => by
  have hconnector : '\n' ∉ (style.connector last).toList := by cases style <;> cases last <;> decide
  have hline : '\n' ∉ indent.toList ++ ((style.connector last).toList ++ label.toList) := by
    simp [hindent.notMem, hconnector, hlabel]
  have htext : (indent ++ style.connector last ++ label ++ "\n").toList ++ rest =
      indent.toList ++ ((style.connector last).toList ++ label.toList) ++ '\n' :: rest := by
    simp
  rw [htext, readLines?_cons hline, hindent.readLine?, readLine?_connector, Option.bind_some,
    String.ofList_toList]
  rfl

end Reads

/-- A text that reads as the lines of a forest is a drawing of it. -/
theorem Reads.decode? {drawing : String} {forest : List Branch}
    (h : style.Reads drawing (Branch.linesOf depth forest)) :
    style.decode? drawing = some forest := by
  have hnone : style.readLines? [] = some [] := by simp [readLines?]
  have hlines := h []
  rw [List.append_nil, hnone, Option.map_some, List.append_nil] at hlines
  rw [DrawingStyle.decode?, hlines, Option.map_some, Branch.grow_linesOf]

example : ascii.decode? "|-- a\n|   `-- |-- b\n`-- out/...\n" =
    some [.node "a" [.node "|-- b" []], .node "out/..." []] := by
  rfl

end DrawingStyle

namespace Outline

open DrawingStyle

/-- The drawing of entries reads as their lines at the depth of the indent. -/
theorem reads_draw {style : DrawingStyle} {depth : ℕ} {indent : String}
    (hindent : IsIndent style depth indent) {os : List Outline}
    (lined : ∀ line ∈ Branch.linesOf depth (branches os), '\n' ∉ line.2.toList) :
    style.Reads (draw style indent os) (Branch.linesOf depth (branches os)) := by
  fun_induction draw style indent os generalizing depth with
  | case1 => exact .nil
  | case2 indent name others ih | case3 indent name _ others ih =>
    obtain ⟨hline, hothers⟩ := List.forall_mem_append.mp lined
    exact (Reads.line hindent _ (hline _ List.mem_cons_self)).append (ih hindent hothers)
  | case4 indent name others ih =>
    obtain ⟨hline, hothers⟩ := List.forall_mem_append.mp lined
    -- the dots belong to the label
    have hdots : indent ++ style.connector others.isEmpty ++ name.shown ++ "/...\n" =
        indent ++ style.connector others.isEmpty ++ (name.shown ++ "/...") ++ "\n" := by
      simp [String.append_assoc]
    rw [hdots]
    exact (Reads.line hindent _ (hline _ List.mem_cons_self)).append (ih hindent hothers)
  | case5 indent name inner others ihinner ih =>
    obtain ⟨hline, hothers⟩ := List.forall_mem_append.mp lined
    obtain ⟨hname, hinner⟩ := List.forall_mem_cons.mp hline
    exact ((Reads.line hindent _ hname).append (ihinner (hindent.step _) hinner)).append
      (ih hindent hothers)

end Outline

/-! ## Names without line feeds -/

/-- Whether the name of every entry in a tree stays on its line. -/
abbrev Node.IsLined : Node → Prop :=
  AllNames fun name => '\n' ∉ name.shown.toList

theorem Branch.mem_linesOf {depth : ℕ} {line : ℕ × String} {forest : List Branch} :
    line ∈ linesOf depth forest ↔ ∃ b ∈ forest, line ∈ b.lines depth := by
  induction forest with
  | nil => simp [linesOf]
  | cons b bs ih => simp [linesOf, ih]

/-- The labels of a visible forest stay on their lines if the names do. -/
theorem IsVisible.lined {rules : List Ignore.Rule} {above : Place} {es : List (Raw × Node)}
    {forest : List Branch} (h : IsVisible rules above es forest)
    (lined : ∀ e ∈ es, '\n' ∉ e.1.shown.toList ∧ e.2.IsLined) (depth : ℕ) :
    ∀ line ∈ Branch.linesOf depth forest, '\n' ∉ line.2.toList := by
  induction h generalizing depth with
  | level below foldersSorted mem_folders filesSorted mem_files visible ih =>
    intro line hline
    obtain ⟨b, hb, hline⟩ := Branch.mem_linesOf.mp hline
    rcases List.mem_append.mp hb with hb | hb
    · obtain ⟨e, he, rfl⟩ := List.mem_map.mp hb
      obtain ⟨hname, hlined⟩ := lined e ((mem_folders e).mp he).1
      split at hline
      · obtain rfl := List.mem_singleton.mp hline
        simp [hname]
      · rename_i kept
        rcases List.mem_cons.mp hline with rfl | hline
        · exact hname
        · exact ih e he (by simpa using kept) hlined.entries _ line hline
    · obtain ⟨e, he, rfl⟩ := List.mem_map.mp hb
      obtain rfl := List.mem_singleton.mp hline
      exact (lined e ((mem_files e).mp he).1).1

/-! ## The drawing of a project -/

namespace Outline

theorem drawPath_of_folder {d : Disk} {path : Raw} {es : List (Raw × Node)}
    (h : d.node? path = some (.folder es)) (style : DrawingStyle) :
    drawPath d style path =
      (firstClosed? ((sceneAt d path).outline Disk.linkLimit [] es)).elim
        (.ok (draw style "" ((sceneAt d path).outline Disk.linkLimit [] es)))
        fun inner => .error ⟨inner.shown⟩ := by
  rw [drawPath, ofPath?, h]
  dsimp only
  cases firstClosed? ((sceneAt d path).outline Disk.linkLimit [] es) <;> rfl

/-- A folder that holds one entry is drawn as what is shown of the entry. -/
theorem drawPath_of_singleton {d : Disk} {path : Raw} {entry : Raw × Node} {o : Outline}
    (hfolder : d.node? path = some (.folder [entry]))
    (hentry : (sceneAt d path).ofEntry Disk.linkLimit [] [entry] entry = [o])
    (style : DrawingStyle) :
    drawPath d style path =
      o.closed?.elim (.ok (draw style "" [o])) fun inner => .error ⟨inner.shown⟩ := by
  rw [drawPath_of_folder hfolder, Scene.outline_eq, List.flatMap_singleton, hentry,
    arrange_singleton, firstClosed?, firstClosed?, Option.or_none]

/-- A folder in which all names are texts has a drawing. -/
theorem drawPath_of_texts {d : Disk} {path : Raw} {es : List (Raw × Node)}
    (h : d.node? path = some (.folder es)) (textual : (Node.folder es).AllNames Raw.IsText)
    (style : DrawingStyle) :
    drawPath d style path =
      .ok (draw style "" ((sceneAt d path).outline Disk.linkLimit [] es)) := by
  have hopen := Scene.firstClosed?_outline textual (sceneAt d path) Disk.linkLimit []
  rw [Node.entries] at hopen
  rw [drawPath_of_folder h, hopen, Option.elim_none]

end Outline

end ImportScout
