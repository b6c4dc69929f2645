import Mathlib.Data.List.Basic
import ImportScout.Proofs.Text.Search
import ImportScout.Proofs.Import.Capture

/-! # Programs of imports

A program here is a list of statements, each of which imports one thing and is written on a line of
its own in one of eight forms. `mentions` lists what the statements import and where. The text of a
program can be read back at two kinds of places: where a line starts a statement starts
(`exists_split_of_lineStart`), and a quotation that opens behind a blank or a parenthesis is the
specifier of a statement (`opens_of_isQuote`).
-/

namespace ImportScout.Import

open Text

/-! ## Statements -/

/-- Whether `c` may stand in a quoted path: everything but white space, quotation marks,
parentheses and angle brackets. -/
def isPathChar (c : Char) : Bool :=
  !isBlank c && !isQuote c && c != '(' && c != ')' && c != '<' && c != '>'

/-- The ways of writing an import on a line. -/
inductive Statement.Form where
  /-- `import x from 'p';` -/
  | nameFrom
  /-- `import 'p';` -/
  | effect
  /-- `const x = require('p');` -/
  | required
  /-- `const x = import('p');` -/
  | awaited
  /-- `#include "p"` -/
  | header
  /-- `use q;` -/
  | used
  /-- `from m import x` -/
  | fromModule
  /-- `import m` -/
  | wholeModule
  deriving DecidableEq, Repr

namespace Statement.Form

/-- What stands before the specifier. -/
def lead : Form → String
  | nameFrom => "import x from '"
  | effect => "import '"
  | required => "const x = require('"
  | awaited => "const x = import('"
  | header => "#include \""
  | used => "use "
  | fromModule => "from "
  | wholeModule => "import "

/-- What stands behind the specifier, up to the end of the line. -/
def trail : Form → String
  | nameFrom | effect => "';\n"
  | required | awaited => "');\n"
  | header => "\"\n"
  | used => ";\n"
  | fromModule => " import x\n"
  | wholeModule => "\n"

/-- The characters that a specifier may consist of. -/
def accepts : Form → Char → Bool
  | nameFrom | effect | required | awaited | header => isPathChar
  | used => fun c => isWord c || c == '\\'
  | fromModule | wholeModule => fun c => isWord c || c == '.'

/-- Whether the specifier stands between quotation marks. -/
def isQuoted : Form → Bool
  | nameFrom | effect | required | awaited | header => true
  | used | fromModule | wholeModule => false

end Statement.Form

/-- An import on a line of its own. -/
structure Statement where
  form : Statement.Form
  specifier : String
  specifier_ne : specifier ≠ ""
  accepted : ∀ c ∈ specifier.toList, form.accepts c = true

/-- The line of a statement, its line feed included. -/
def Statement.text (s : Statement) : List Char :=
  s.form.lead.toList ++ s.specifier.toList ++ s.form.trail.toList

/-- The lines of statements one after the other. -/
def texts (ss : List Statement) : List Char :=
  ss.flatMap Statement.text

/-- The program that statements make. -/
def program (ss : List Statement) : String :=
  String.ofList (texts ss)

/-- What statements import, each with the place of its specifier, if the first of them has `offset`
bytes before it. -/
def mentions (offset : ℕ) : List Statement → List Import
  | [] => []
  | s :: ss =>
    ⟨s.specifier, offset + size s.form.lead.toList⟩ :: mentions (offset + size s.text) ss

theorem texts_append (ss ss' : List Statement) : texts (ss ++ ss') = texts ss ++ texts ss' :=
  List.flatMap_append

theorem texts_cons (s : Statement) (ss : List Statement) : texts (s :: ss) = s.text ++ texts ss :=
  List.flatMap_cons

/-- The statement `s` stands in a program behind the statements `above`. -/
def Follows (ss above : List Statement) (s : Statement) : Prop :=
  ∃ below, ss = above ++ s :: below

theorem mem_mentions_iff {ss : List Statement} {offset : ℕ} {imp : Import} :
    imp ∈ mentions offset ss ↔ ∃ above s, Follows ss above s ∧
      imp = ⟨s.specifier, offset + size (texts above ++ s.form.lead.toList)⟩ := by
  induction ss generalizing offset with
  | nil =>
    refine iff_of_false List.not_mem_nil ?_
    rintro ⟨above, s, ⟨below, h⟩, -⟩
    simp at h
  | cons s ss ih =>
    rw [mentions, List.mem_cons, ih]
    constructor
    · rintro (rfl | ⟨above, s', ⟨below, rfl⟩, rfl⟩)
      · exact ⟨[], s, ⟨ss, rfl⟩, rfl⟩
      · refine ⟨s :: above, s', ⟨below, rfl⟩, ?_⟩
        rw [texts_cons, List.append_assoc, size_append s.text, Nat.add_assoc]
    · rintro ⟨above, s', ⟨below, hss⟩, rfl⟩
      cases above with
      | nil =>
        obtain ⟨rfl, -⟩ := List.cons.inj hss
        exact Or.inl rfl
      | cons first above =>
        obtain ⟨rfl, rfl⟩ := List.cons.inj hss
        refine Or.inr ⟨above, s', ⟨below, rfl⟩, ?_⟩
        rw [texts_cons, List.append_assoc, size_append s.text, Nat.add_assoc]

theorem pairwise_mentions (ss : List Statement) (offset : ℕ) :
    (mentions offset ss).Pairwise fun a b => a.offset < b.offset := by
  induction ss generalizing offset with
  | nil => exact List.Pairwise.nil
  | cons s ss ih =>
    refine List.pairwise_cons.mpr ⟨?_, ih _⟩
    intro imp himp
    obtain ⟨above, s', -, rfl⟩ := mem_mentions_iff.mp himp
    have hspec : 0 < size s.specifier.toList := size_pos (by simpa using s.specifier_ne)
    simp only [Statement.text, size_append]
    omega

/-! ## The characters of statements -/

/-- The code points of blanks. -/
def blankPoints : List ℕ :=
  [9, 10, 11, 12, 13, 0x20, 0x85, 0xA0, 0x1680, 0x2000, 0x2001, 0x2002, 0x2003, 0x2004, 0x2005,
    0x2006, 0x2007, 0x2008, 0x2009, 0x200A, 0x2028, 0x2029, 0x202F, 0x205F, 0x3000]

/-- No word character is blank. -/
theorem isBlank_of_isWord {c : Char} (h : isWord c = true) : isBlank c = false := by
  by_contra hblank
  have hpoint : c.toNat ∈ blankPoints := by
    simp [isBlank] at hblank
    simp only [blankPoints, List.mem_cons, List.not_mem_nil, or_false]
    omega
  have hnone : ∀ n ∈ blankPoints, isWord (Char.ofNat n) = false := by decide +kernel
  rw [← Char.ofNat_toNat c, hnone _ hpoint] at h
  exact absurd h (by decide)

section Chars

variable {f : Statement.Form} {c : Char}

theorem isPathChar_iff : isPathChar c = true ↔
    isBlank c = false ∧ isQuote c = false ∧ c ≠ '(' ∧ c ≠ ')' ∧ c ≠ '<' ∧ c ≠ '>' := by
  simp [isPathChar, and_assoc]

theorem accepts_of_isQuoted (hf : f.isQuoted = true) : f.accepts = isPathChar := by
  cases f <;> first | rfl | exact absurd hf (by decide)

theorem isBlank_of_accepts (h : f.accepts c = true) : isBlank c = false := by
  have hother {d : Char} (hd : isBlank d = false) (h : (isWord c || c == d) = true) :
      isBlank c = false := by
    rw [Bool.or_eq_true, beq_iff_eq] at h
    rcases h with h | rfl
    · exact isBlank_of_isWord h
    · exact hd
  cases f with
  | nameFrom | effect | required | awaited | header => exact (isPathChar_iff.mp h).1
  | used => exact hother (by decide) h
  | fromModule | wholeModule => exact hother (by decide) h

theorem isQuote_of_accepts (h : f.accepts c = true) : isQuote c = false := by
  by_contra hquote
  rw [Bool.not_eq_false, isQuote, Bool.or_eq_true, beq_iff_eq, beq_iff_eq] at hquote
  rcases hquote with rfl | rfl
  all_goals
    revert h
    cases f <;> decide

end Chars

/-! ## Where lines start -/

theorem head_text (s : Statement) : ∃ c rest, s.text = c :: rest ∧ isBlank c = false := by
  have hlead (f : Statement.Form) : ∃ c rest, f.lead.toList = c :: rest ∧ isBlank c = false := by
    cases f <;> exact ⟨_, _, by simp [Statement.Form.lead]; exact ⟨rfl, rfl⟩, by decide⟩
  obtain ⟨c, rest, hc, hblank⟩ := hlead s.form
  exact ⟨c, rest ++ s.specifier.toList ++ s.form.trail.toList, by simp [Statement.text, hc], hblank⟩

/-- The only line feed of a statement is its last character. -/
theorem text_eq_concat (s : Statement) :
    ∃ body, s.text = body ++ ['\n'] ∧ ∀ c ∈ body, (c == '\n') = false := by
  have hlead (f : Statement.Form) : '\n' ∉ f.lead.toList := by
    cases f <;> simp [Statement.Form.lead]
  have htrail (f : Statement.Form) :
      ∃ body, f.trail.toList = body ++ ['\n'] ∧ '\n' ∉ body := by
    refine ⟨f.trail.toList.dropLast, ?_⟩
    cases f <;> simp [Statement.Form.trail]
  obtain ⟨body, hbody, hline⟩ := htrail s.form
  refine ⟨s.form.lead.toList ++ s.specifier.toList ++ body, by simp [Statement.text, hbody], ?_⟩
  intro c hc
  rw [beq_eq_false_iff_ne]
  rintro rfl
  simp only [List.mem_append, hlead, hline, false_or, or_false] at hc
  exact absurd (isBlank_of_accepts (s.accepted _ hc)) (by decide)

/-- A line of a program starts just where a statement starts. -/
theorem exists_split_of_lineStart {ss : List Statement} {front rest : List Char}
    (h : texts ss = front ++ rest) (hstart : front = [] ∨ front.getLast? = some '\n') :
    ∃ above below, ss = above ++ below ∧ front = texts above ∧ rest = texts below := by
  rcases hstart with rfl | hstart
  · exact ⟨[], ss, rfl, rfl, h.symm⟩
  obtain ⟨line, rfl⟩ := List.getLast?_eq_some_iff.mp hstart
  rw [List.append_assoc, List.singleton_append] at h
  clear hstart
  induction ss generalizing line with
  | nil => simp [texts] at h
  | cons s ss ih =>
    obtain ⟨body, hbody, hline⟩ := text_eq_concat s
    rw [texts_cons, hbody, List.append_assoc] at h
    obtain ⟨gap, rfl, hgap⟩ := exists_append_of_avoids h.symm hline (beq_self_eq_true '\n')
    cases gap with
    | nil =>
      obtain ⟨-, rfl⟩ := List.cons.inj hgap
      exact ⟨[s], ss, rfl, by simp [texts, hbody], rfl⟩
    | cons c gap =>
      obtain ⟨rfl, hss⟩ := List.cons.inj hgap
      obtain ⟨above, below, rfl, habove, hbelow⟩ := ih gap hss
      refine ⟨s :: above, below, rfl, ?_, hbelow⟩
      rw [texts_cons, ← habove, hbody]
      simp

/-! ## Where quotations open -/

section Quoted

variable {f : Statement.Form}

theorem lead_quoted (hf : f.isQuoted = true) :
    ∃ init q, f.lead.toList = init ++ [q] ∧ isQuote q = true ∧ ∀ c ∈ init, isQuote c = false := by
  obtain ⟨hmark, hfree⟩ : f.lead.toList.getLast?.any isQuote = true ∧
      f.lead.toList.dropLast.any isQuote = false := by
    revert hf
    cases f <;> decide +kernel
  obtain ⟨q, hlast, hq⟩ := (Option.any_eq_true _ _).mp hmark
  obtain ⟨init, hinit⟩ := List.getLast?_eq_some_iff.mp hlast
  rw [hinit, List.dropLast_concat] at hfree
  exact ⟨init, q, hinit, hq, by simpa using hfree⟩

theorem trail_quoted (hf : f.isQuoted = true) :
    ∃ q tail, f.trail.toList = q :: tail ∧ isQuote q = true ∧ ∀ c ∈ tail, isQuote c = false := by
  obtain ⟨hmark, hfree⟩ : f.trail.toList.head?.any isQuote = true ∧
      f.trail.toList.tail.any isQuote = false := by
    revert hf
    cases f <;> decide +kernel
  obtain ⟨q, hhead, hq⟩ := (Option.any_eq_true _ _).mp hmark
  obtain ⟨tail, htail⟩ := List.head?_eq_some_iff.mp hhead
  rw [htail, List.tail_cons] at hfree
  exact ⟨q, tail, htail, hq, by simpa using hfree⟩

theorem not_quoted (hf : f.isQuoted = false) :
    (∀ c ∈ f.lead.toList, isQuote c = false) ∧ ∀ c ∈ f.trail.toList, isQuote c = false := by
  have hfree : f.lead.toList.any isQuote = false ∧ f.trail.toList.any isQuote = false := by
    revert hf
    cases f <;> decide +kernel
  simpa using hfree

/-- The quotation mark `q` behind `before` opens the specifier `text` of a statement. -/
def Opens (ss : List Statement) (before : List Char) (q : Char) (text : List Char) : Prop :=
  ∃ above s, Follows ss above s ∧ s.form.isQuoted = true ∧
    before ++ [q] = texts above ++ s.form.lead.toList ∧ text = s.specifier.toList

theorem Opens.cons {ss : List Statement} {before text : List Char} {q : Char}
    (h : Opens ss before q text) (s : Statement) : Opens (s :: ss) (s.text ++ before) q text := by
  obtain ⟨above, s', ⟨below, rfl⟩, hquoted, hlead, hspec⟩ := h
  refine ⟨s :: above, s', ⟨below, rfl⟩, hquoted, ?_, hspec⟩
  rw [texts_cons, List.append_assoc, List.append_assoc, hlead]

/-- A quotation that does not open behind a character of a path is the specifier of a statement. -/
theorem opens_of_isQuote {ss : List Statement} {before text after : List Char} {q q' : Char}
    (h : texts ss = before ++ q :: (text ++ q' :: after))
    (hopen : ∀ c ∈ before.getLast?, isPathChar c = false) (hq : isQuote q = true)
    (hq' : isQuote q' = true) (htext : ∀ c ∈ text, isQuote c = false) :
    Opens ss before q text := by
  induction ss generalizing before with
  | nil => simp [texts] at h
  | cons s ss ih =>
    -- what is behind the whole statement is behind one statement less
    have hbehind {gap : List Char} (hss : texts ss = gap ++ q :: (text ++ q' :: after))
        (hbefore : before = s.text ++ gap) : Opens (s :: ss) before q text := by
      subst hbefore
      rw [List.getLast?_append] at hopen
      refine (ih hss fun c hc => hopen c ?_).cons s
      rw [Option.mem_def.mp hc]
      rfl
    have hspec : ∀ c ∈ s.specifier.toList, isQuote c = false := fun c hc =>
      isQuote_of_accepts (s.accepted c hc)
    rw [texts_cons] at h
    cases hform : s.form.isQuoted with
    | false =>
      obtain ⟨hlead, htrail⟩ := not_quoted hform
      have hfree : ∀ c ∈ s.text, isQuote c = false := by
        simp only [Statement.text, List.forall_mem_append]
        exact ⟨⟨hlead, hspec⟩, htrail⟩
      obtain ⟨gap, hbefore, hss⟩ := exists_append_of_avoids h.symm hfree hq
      exact hbehind hss hbefore
    | true =>
      obtain ⟨init, p, hlead, hp, hinit⟩ := lead_quoted hform
      obtain ⟨p', tail, htrail, hp', htail⟩ := trail_quoted hform
      have hs : s.text = init ++ p :: (s.specifier.toList ++ p' :: tail) := by
        simp [Statement.text, hlead, htrail]
      rw [hs, List.append_assoc, List.cons_append, List.append_assoc] at h
      obtain ⟨gap, hbefore, hgap⟩ := exists_append_of_avoids h.symm hinit hq
      cases gap with
      | nil =>
        -- the first quotation mark opens the specifier
        obtain ⟨rfl, hrest⟩ := List.cons.inj hgap
        obtain ⟨rfl, -, -⟩ := run_unique hrest.symm htext hspec hq' hp'
        exact ⟨[], s, ⟨ss, rfl⟩, hform, by simp [texts, hlead, hbefore], rfl⟩
      | cons d gap =>
        obtain ⟨rfl, hrest⟩ := List.cons.inj hgap
        obtain ⟨gap', rfl, hgap'⟩ := exists_append_of_avoids hrest.symm hspec hq
        cases gap' with
        | nil =>
          -- the second one stands behind the last character of the path
          have hne : s.specifier.toList ≠ [] := by simpa using s.specifier_ne
          have hlast : before.getLast? = some (s.specifier.toList.getLast hne) := by
            rw [hbefore, List.append_nil, List.getLast?_append, List.getLast?_cons,
              List.getLast?_eq_some_getLast hne]
            rfl
          have hpath := s.accepted _ (List.getLast_mem hne)
          rw [accepts_of_isQuoted hform, hopen _ hlast] at hpath
          exact absurd hpath (by decide)
        | cons d' gap' =>
          obtain ⟨rfl, hrest'⟩ := List.cons.inj hgap'
          obtain ⟨gap'', rfl, hss⟩ := exists_append_of_avoids hrest'.symm htail hq
          exact hbehind hss (by simp [hbefore, hs])

end Quoted

end ImportScout.Import
