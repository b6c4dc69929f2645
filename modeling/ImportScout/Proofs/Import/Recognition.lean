import ImportScout.Proofs.Import.Statement

/-! # The forms in programs of imports

Where a form matches in a program, it recognises a statement. A form with quotation marks may begin
to match at an earlier statement, but what it captures is the specifier of the statement in which
the match ends (`Quoting.exists_of_fits`). A form that belongs to the start of a line matches within
a single statement; all of them capture its specifier, except for the import of a dotted module,
which also captures the name in front of `from` (`LineBound`).
-/

namespace ImportScout.Import

open Text Pattern

/-- Where the specifier of the statement `s` behind the statements `above` is captured. -/
def captureOf (above : List Statement) (s : Statement) : Capture :=
  ⟨s.specifier.toList, size (texts above ++ s.form.lead.toList)⟩

theorem eq_captureOf {above : List Statement} {s : Statement} {c : Capture}
    (htext : c.text = s.specifier.toList)
    (hoffset : c.offset = size (texts above ++ s.form.lead.toList)) : c = captureOf above s := by
  rw [captureOf, ← htext, ← hoffset]

theorem specifier_toList_ne (s : Statement) : s.specifier.toList ≠ [] := by
  simpa using s.specifier_ne

/-! ## Statements at one place -/

theorem length_texts_append_cons (above : List Statement) (s : Statement)
    (below : List Statement) :
    (texts (above ++ s :: below)).length =
      (texts above).length + s.text.length + (texts below).length := by
  simp [texts_append, texts_cons, Nat.add_assoc]

/-- Of two statements one is further up, or they are the same. -/
theorem Follows.trichotomy {ss above above' : List Statement} {s s' : Statement}
    (h : Follows ss above s) (h' : Follows ss above' s') :
    (above = above' ∧ s = s') ∨ (∃ more, above' = above ++ s :: more) ∨
      ∃ more, above = above' ++ s' :: more := by
  obtain ⟨below, rfl⟩ := h
  obtain ⟨below', hss⟩ := h'
  rcases List.append_eq_append_iff.mp hss with ⟨gap, rfl, hgap⟩ | ⟨gap, rfl, hgap⟩
  · cases gap with
    | nil =>
      obtain ⟨rfl, -⟩ := List.cons.inj hgap
      exact Or.inl ⟨by simp, rfl⟩
    | cons t gap =>
      obtain ⟨rfl, -⟩ := List.cons.inj hgap
      exact Or.inr (Or.inl ⟨gap, rfl⟩)
  · cases gap with
    | nil =>
      obtain ⟨rfl, -⟩ := List.cons.inj hgap
      exact Or.inl ⟨by simp, rfl⟩
    | cons t gap =>
      obtain ⟨rfl, -⟩ := List.cons.inj hgap
      exact Or.inr (Or.inr ⟨gap, rfl⟩)

/-- The statement that reaches over the start of another one is that one. -/
theorem Follows.eq_of_covers {ss above above' : List Statement} {s s' : Statement}
    (h : Follows ss above s) (h' : Follows ss above' s')
    (hle : (texts above').length ≤ (texts above).length)
    (hlt : (texts above).length < (texts above').length + s'.text.length) :
    above' = above ∧ s' = s := by
  have hpos (s : Statement) : 0 < s.text.length := by
    obtain ⟨c, rest, hc, -⟩ := head_text s
    rw [hc]
    exact Nat.zero_lt_succ _
  rcases h.trichotomy h' with ⟨rfl, rfl⟩ | ⟨more, rfl⟩ | ⟨more, rfl⟩
  · exact ⟨rfl, rfl⟩
  · rw [length_texts_append_cons] at hle
    have := hpos s
    omega
  · rw [length_texts_append_cons] at hlt
    omega

/-! ## Forms with quotation marks -/

/-- A form that quotes the specifier, with the parts before and after it. -/
structure Quoting (p : Pattern) (ps qs : List Pattern) : Prop where
  eq : p = all (ps ++ quoted :: qs)
  plain_before : ∀ r ∈ ps, r.Plain
  plain_after : ∀ r ∈ qs, r.Plain
  /-- What stands before the quotation marks ends in a character that no path has. -/
  opens : ∀ front pre, (all ps).Fits front pre none none →
    ∃ init c, pre = init ++ [c] ∧ isPathChar c = false
  unquoted : (all ps).Avoids isQuote
  closes : ∀ front post cap, (all qs).Fits front post cap cap →
    ∀ c ∈ post, isBlank c = true ∨ c = ')'

/-- A match of a quoting form takes the parts before, a quoted specifier and the parts after. -/
theorem Quoting.exists_of_fits {p : Pattern} {ps qs : List Pattern} (hp : Quoting p ps qs)
    {ss : List Statement} {front taken rest : List Char} {cap : Option Capture}
    (h : p.Fits front taken none cap) (htext : texts ss = front ++ taken ++ rest) :
    ∃ above s pre q q' post, Follows ss above s ∧ s.form.isQuoted = true ∧
      taken = pre ++ [q] ++ s.specifier.toList ++ q' :: post ∧
      front ++ pre ++ [q] = texts above ++ s.form.lead.toList ∧ cap = some (captureOf above s) ∧
      (∀ c ∈ pre, isQuote c = false) ∧ ∀ c ∈ post, isBlank c = true ∨ c = ')' := by
  rw [hp.eq] at h
  obtain ⟨pre, q, text, q', post, rfl, hq, hq', rfl, -, hall, hpre, hpost⟩ :=
    fits_all_quoted hp.plain_before hp.plain_after h
  obtain ⟨init, c, rfl, hc⟩ := hp.opens _ _ hpre
  have hopens : Opens ss (front ++ (init ++ [c])) q text := by
    have hsplit : texts ss = front ++ (init ++ [c]) ++ q :: (text ++ q' :: (post ++ rest)) := by
      rw [htext]
      simp
    refine opens_of_isQuote hsplit ?_ hq hq' hall
    rw [← List.append_assoc, List.getLast?_concat]
    rintro d ⟨⟩
    exact hc
  obtain ⟨above, s, hfollows, hquoted, hlead, rfl⟩ := hopens
  refine ⟨above, s, init ++ [c], q, q', post, hfollows, hquoted, rfl, hlead, ?_,
    hpre.avoids hp.unquoted, hp.closes _ _ _ hpost⟩
  rw [captureOf, ← hlead, List.append_assoc front]

/-- A statement in which a quoting form fits is captured by it, though perhaps by a match that began
further up. -/
theorem Quoting.mem_captures {p : Pattern} {ps qs : List Pattern} (hp : Quoting p ps qs)
    {P : (before text post : List Char) → Prop} (hcaptures : p.CapturesIn P)
    {ss above : List Statement} {s : Statement} (hs : Follows ss above s)
    (hform : s.form.isQuoted = true) {u v taken : List Char} {c : Char} {cap : Option Capture}
    (hlead : s.form.lead.toList = u ++ c :: v) (hc : isBlank c = false ∧ c ≠ ')')
    (htaken : taken <+: c :: v ++ s.specifier.toList ++ s.form.trail.toList)
    (hfits : p.Fits (texts above ++ u) taken none cap) :
    captureOf above s ∈ p.captures (texts ss) := by
  obtain ⟨init, q₀, hinit, hq₀, -⟩ := lead_quoted hform
  obtain ⟨below, hss⟩ := hs
  obtain ⟨others, hothers⟩ := htaken
  have htext : texts ss = texts above ++ u ++ taken ++ (others ++ texts below) := by
    rw [hss, texts_append, texts_cons, Statement.text, hlead, List.append_assoc _ taken,
      ← List.append_assoc taken, hothers]
    simp
  obtain ⟨before, taken', after, cap', hmem, htext', hprefers, hle, hlt⟩ :=
    exists_covering hcaptures htext hfits
  obtain ⟨above', s', pre, q, q', post, hs', hquoted, rfl, hplace, hcap, hpre, hpost⟩ :=
    hp.exists_of_fits hprefers.fits htext'
  rw [Option.some.injEq] at hcap
  have hsize := congrArg List.length hplace
  have hlength := congrArg List.length (hinit.symm.trans hlead)
  simp only [List.length_append, List.length_cons, List.length_nil] at hsize hlength hle hlt
  have hspec := List.length_pos_iff.mpr (specifier_toList_ne s)
  rcases Follows.trichotomy ⟨below, hss⟩ hs' with ⟨rfl, rfl⟩ | ⟨more, rfl⟩ | ⟨more, rfl⟩
  · rwa [← hcap]
  · -- what stands before the quotation would hold the mark that opens `s`
    have hopening : (texts above ++ init) ++ q₀ :: (s.specifier.toList ++
        s.form.trail.toList ++ texts below) = before ++ pre ++
          (q :: (s'.specifier.toList ++ q' :: post) ++ after) := by
      rw [hss, texts_append, texts_cons, Statement.text, hinit] at htext'
      simpa using htext'
    have hinside := length_le_of_avoids hopening (by simp; omega) hpre hq₀
    simp only [length_texts_append_cons, Statement.text, List.length_append] at hsize hinside
    simp only [hinit, List.length_append, List.length_cons, List.length_nil] at hsize
    omega
  · -- what stands behind the quotation would hold the beginning of `s`
    have hbeginning : (texts (above' ++ s' :: more) ++ u) ++ c :: (v ++
        s.specifier.toList ++ s.form.trail.toList ++ texts below) =
          (before ++ pre ++ [q] ++ s'.specifier.toList ++ [q']) ++ post ++ after := by
      rw [hss, texts_append, texts_cons, Statement.text, hlead] at htext'
      simpa using htext'
    obtain ⟨r, tail, htrail, -, -⟩ := trail_quoted hquoted
    have hinside := length_le_of_avoids (P := fun d => !(isBlank d || d == ')')) hbeginning
      (by
        simp only [List.length_append, length_texts_append_cons, Statement.text, htrail,
          List.length_cons, List.length_nil]
        omega)
      (by
        intro d hd
        rcases hpost d hd with hblank | rfl <;> simp [*])
      (by simp [hc])
    simp only [List.length_append, List.length_cons, List.length_nil] at hinside
    omega

/-! ## Forms at the start of a line -/

/-- Whether every match of the form in a program stays in one statement, and captures the specifier
of that statement or the name in front of `from`. -/
def LineBound (p : Pattern) : Prop :=
  ∀ ss front taken rest c, texts ss = front ++ taken ++ rest →
    p.Prefers front taken rest (some c) → ∃ above s, Follows ss above s ∧ front = texts above ∧
      taken.length ≤ s.text.length ∧ (c = captureOf above s ∨ s.form = .nameFrom ∧ c.text = ['x'])

/-- A statement in which such a form fits is captured by it. -/
theorem LineBound.mem_captures {p : Pattern} (hp : LineBound p)
    {P : (before text post : List Char) → Prop} (hcaptures : p.CapturesIn P)
    {ss above : List Statement} {s : Statement} (hs : Follows ss above s)
    (hform : s.form ≠ .nameFrom) {taken : List Char} {cap : Option Capture}
    (htaken : taken <+: s.text) (hfits : p.Fits (texts above) taken none cap) :
    captureOf above s ∈ p.captures (texts ss) := by
  have htext : ∃ rest, texts ss = texts above ++ taken ++ rest := by
    obtain ⟨below, rfl⟩ := hs
    obtain ⟨others, hothers⟩ := htaken
    exact ⟨others ++ texts below, by simp [texts_append, texts_cons, ← hothers]⟩
  obtain ⟨rest, htext⟩ := htext
  obtain ⟨before, taken', after, c, hmem, htext', hprefers, hle, hlt⟩ :=
    exists_covering hcaptures htext hfits
  obtain ⟨above', s', hs', rfl, hlength, hc⟩ := hp _ _ _ _ _ htext' hprefers
  rw [List.length_append] at hlt
  obtain ⟨rfl, rfl⟩ := hs.eq_of_covers hs' hle (by omega)
  rcases hc with rfl | ⟨hname, -⟩
  · exact hmem
  · exact absurd hname hform

/-- A form that starts a line with a word matches from the start of a statement on. -/
theorem exists_line_of_fits {w : String} {ps : List Pattern} (hw : w ≠ "") {ss : List Statement}
    {front taken rest : List Char} {cap : Option Capture}
    (h : (all (lineStart :: gap :: word w :: ps)).Fits front taken none cap)
    (htext : texts ss = front ++ taken ++ rest) :
    ∃ above s below tail, ss = above ++ s :: below ∧ front = texts above ∧
      taken = w.toList ++ tail ∧ w.toList ++ (tail ++ rest) = s.text ++ texts below ∧
        (all ps).Fits (texts above ++ w.toList) tail none cap := by
  obtain ⟨-, -, -, rfl, ⟨hstart, rfl, rfl⟩, blanks, -, -, rfl, ⟨hblanks, rfl⟩, letters, tail, mid,
    rfl, hword, htail⟩ := h
  obtain ⟨rfl, rfl⟩ := fits_word.mp hword
  rw [List.append_assoc] at htext
  obtain ⟨above, below, rfl, rfl, hbelow⟩ := exists_split_of_lineStart htext hstart
  cases below with
  | nil => simp [texts, hw] at hbelow
  | cons s below =>
    obtain ⟨c, others, hs, hc⟩ := head_text s
    -- the line starts with no blank, so the form has taken none before its word
    have hnone : blanks = [] := by
      cases blanks with
      | nil => rfl
      | cons b blanks =>
        rw [texts_cons, hs] at hbelow
        obtain ⟨rfl, -⟩ := List.cons.inj hbelow
        rw [hblanks b List.mem_cons_self] at hc
        exact absurd hc (by decide)
    subst hnone
    rw [texts_cons] at hbelow
    exact ⟨above, s, below, tail, rfl, rfl, rfl, by simpa using hbelow, by simpa [all] using htail⟩

theorem lineBound_inclusion : LineBound inclusion := by
  intro ss front taken rest c htext h
  obtain ⟨above, s, below, tail, rfl, rfl, rfl, hline, htail⟩ :=
    exists_line_of_fits (by decide) h.fits htext
  have hplain : ∀ p ∈ [gap, one fun c => c == '"' || c == '<'], p.Plain := by simp [gap, Plain]
  obtain ⟨pre, text, post, inner, rfl, hcap, hpre, hinner, hpost⟩ :=
    fits_all_captured hplain (by simp [Plain]) htail
  obtain ⟨blanks, mark, mid, rfl, ⟨hblanks, -⟩, ⟨q, hq, rfl⟩, -⟩ := fits_all_pair.mp hpre
  obtain ⟨⟨q', hq', rfl⟩, -⟩ := fits_all_singleton.mp hpost
  obtain ⟨-, hall, -⟩ := fits_some1.mp hinner
  rw [Statement.text] at hline
  cases hform : s.form <;> rw [hform] at hline <;>
    simp [Statement.Form.lead, Statement.Form.trail] at hline
  -- only the inclusion of a header starts with the word
  have hmark : isBlank q = false := by
    rw [Bool.or_eq_true, beq_iff_eq, beq_iff_eq] at hq
    rcases hq with rfl | rfl <;> decide
  obtain ⟨rfl, rfl, hspec⟩ := run_unique (P := fun c => !isBlank c) (c := [' ']) (y := '"') hline
    (by simpa using hblanks) (by simp [isBlank]) (by simpa using hmark) (by simp [isBlank])
  have hend : (q' == '"' || q' == '<' || q' == '>') = true := by
    rw [Bool.or_eq_true] at hq'
    rcases hq' with hq' | hq' <;> simp [hq']
  have hpath : ∀ d ∈ s.specifier.toList, (d == '"' || d == '<' || d == '>') = false := by
    intro d hd
    have := s.accepted d hd
    rw [hform] at this
    obtain ⟨-, hquote, -, -, hless, hgreater⟩ := isPathChar_iff.mp this
    simp [isQuote] at hquote
    simp [hquote, hless, hgreater]
  obtain ⟨rfl, rfl, -⟩ := run_unique (P := fun d => d == '"' || d == '<' || d == '>') hspec
    (by simpa using hall) hpath hend rfl
  refine ⟨above, s, ⟨below, rfl⟩, rfl, ?_, Or.inl ?_⟩
  · simp [Statement.text, hform, Statement.Form.lead, Statement.Form.trail]
  · rw [Option.some.injEq] at hcap
    simp [hcap, captureOf, hform, Statement.Form.lead]

/-- A word behind blanks is as long as its characters go. -/
theorem run_after_space {accepts : Char → Bool}
    (haccepts : ∀ c, accepts c = true → isBlank c = false)
    {blanks text after w rest : List Char} {z : Char}
    (h : blanks ++ (text ++ after) = ' ' :: (w ++ z :: rest))
    (hblanks : ∀ c ∈ blanks, isBlank c = true) (hne : text ≠ [])
    (htext : ∀ c ∈ text, accepts c = true) (hstop : ∀ c ∈ after.head?, accepts c = false)
    (hword : ∀ c ∈ w, accepts c = true) (hz : accepts z = false)
    (hfirst : w = [] → isBlank z = false) :
    blanks = [' '] ∧ text = w ∧ after = z :: rest := by
  obtain ⟨t, text', rfl⟩ := List.exists_cons_of_ne_nil hne
  obtain ⟨c, others, hc, hblank⟩ : ∃ c others, w ++ z :: rest = c :: others ∧
      isBlank c = false := by
    cases w with
    | nil => exact ⟨z, rest, rfl, hfirst rfl⟩
    | cons c w => exact ⟨c, _, rfl, haccepts c (hword c List.mem_cons_self)⟩
  have ht := haccepts t (htext t List.mem_cons_self)
  rw [hc] at h
  obtain ⟨rfl, rfl, hrest⟩ := run_unique (P := fun d => !isBlank d) (c := [' ']) h
    (by simpa using hblanks) (by simp [isBlank]) (by simpa using ht) (by simpa using hblank)
  have hrun : w ++ z :: rest = (t :: text') ++ after := by rw [hc, ← hrest]; rfl
  obtain ⟨gap, rfl, rfl⟩ := exists_append_of_avoids (P := fun d => !accepts d) hrun
    (by simpa using htext) (by simpa using hz)
  -- the word does not go on, as the run has stopped before a character that it does not take
  cases gap with
  | nil => exact ⟨rfl, by simp, rfl⟩
  | cons g gap =>
    have hg := hword g (List.mem_append_right _ List.mem_cons_self)
    rw [hstop g rfl] at hg
    exact absurd hg (by decide)

/-- A form of a word and a name behind it matches the beginning of a statement. -/
theorem exists_name_of_fits {w : String} (hw : w ≠ "") {accepts : Char → Bool} {qs : List Pattern}
    (hqs : ∀ q ∈ qs, q.Plain) {ss : List Statement} {front taken rest : List Char} {c : Capture}
    (h : (all (lineStart :: gap :: word w :: space :: captured (some1 accepts) :: qs)).Fits
      front taken none (some c)) (htext : texts ss = front ++ taken ++ rest) :
    ∃ above s below blanks post, ss = above ++ s :: below ∧ front = texts above ∧
      taken = w.toList ++ (blanks ++ c.text ++ post) ∧
      w.toList ++ (blanks ++ (c.text ++ (post ++ rest))) = s.text ++ texts below ∧
      c.offset = size (texts above ++ (w.toList ++ blanks)) ∧
      (∀ d ∈ blanks, isBlank d = true) ∧ c.text ≠ [] ∧ (∀ d ∈ c.text, accepts d = true) ∧
      ∃ front' cap, (all qs).Fits front' post cap cap := by
  obtain ⟨above, s, below, tail, rfl, rfl, rfl, hline, htail⟩ := exists_line_of_fits hw h htext
  have hplain : ∀ p ∈ [space], p.Plain := by simp [space, some1, Plain]
  obtain ⟨blanks, text, post, inner, rfl, hcap, hblanks, htext', hpost⟩ :=
    fits_all_captured hplain hqs htail
  rw [Option.some.injEq] at hcap
  subst hcap
  obtain ⟨-, hspace, -⟩ := fits_some1.mp (fits_all_singleton.mp hblanks)
  obtain ⟨hne, hall, -⟩ := fits_some1.mp htext'
  exact ⟨above, s, below, blanks, post, rfl, rfl, rfl, by simpa using hline,
    by rw [List.append_assoc], hspace, hne, hall, _, _, hpost⟩

theorem lineBound_useName : LineBound useName := by
  intro ss front taken rest c htext h
  have hplain : ∀ p ∈ [one (· == ';')], p.Plain := by simp [Plain]
  obtain ⟨above, s, below, blanks, post, rfl, rfl, rfl, hline, hoffset, hblanks, hne, hall,
    front', cap, hpost⟩ :=
    exists_name_of_fits (by decide) hplain h.fits htext
  obtain ⟨⟨e, he, rfl⟩, -⟩ := fits_all_singleton.mp hpost
  rw [beq_iff_eq] at he
  subst he
  rw [Statement.text] at hline
  cases hform : s.form <;> rw [hform] at hline <;>
    simp [Statement.Form.lead, Statement.Form.trail] at hline
  have hspec := s.accepted
  rw [hform] at hspec
  obtain ⟨rfl, hword, -⟩ := run_after_space (fun d => isBlank_of_accepts (f := .used)) hline hblanks
    hne hall (by rintro d ⟨⟩; decide) hspec (by decide)
    (absurd · (specifier_toList_ne s))
  refine ⟨above, s, ⟨below, rfl⟩, rfl, ?_, Or.inl ?_⟩
  · simp [Statement.text, hform, hword, Statement.Form.lead, Statement.Form.trail]
  · exact eq_captureOf hword (by simpa [hform, Statement.Form.lead] using hoffset)

theorem lineBound_fromModule : LineBound fromModule := by
  intro ss front taken rest c htext h
  have hplain : ∀ p ∈ [space, word "import"], p.Plain := by
    simp [space, some1, Plain, plain_word]
  obtain ⟨above, s, below, blanks, post, rfl, rfl, rfl, hline, hoffset, hblanks, hne, hall,
    front', cap, hpost⟩ :=
    exists_name_of_fits (by decide) hplain h.fits htext
  obtain ⟨spaces, keyword, mid, rfl, hspaces, hkeyword⟩ := fits_all_pair.mp hpost
  obtain ⟨rfl, -⟩ := fits_word.mp hkeyword
  obtain ⟨hspaces_ne, hspaces, -⟩ := fits_some1.mp hspaces
  rw [Statement.text] at hline
  cases hform : s.form <;> rw [hform] at hline <;>
    simp [Statement.Form.lead, Statement.Form.trail] at hline
  have hspec := s.accepted
  rw [hform] at hspec
  have hstop : ∀ d ∈ (spaces ++ 'i' :: 'm' :: 'p' :: 'o' :: 'r' :: 't' :: rest).head?,
      Statement.Form.fromModule.accepts d = false := by
    obtain ⟨b, spaces, rfl⟩ := List.exists_cons_of_ne_nil hspaces_ne
    rintro d ⟨⟩
    by_contra haccepts
    rw [Bool.not_eq_false] at haccepts
    have := isBlank_of_accepts haccepts
    rw [hspaces b List.mem_cons_self] at this
    exact absurd this (by decide)
  obtain ⟨rfl, hword, hafter⟩ := run_after_space (fun d => isBlank_of_accepts (f := .fromModule))
    hline hblanks hne hall hstop hspec (by decide) (absurd · (specifier_toList_ne s))
  obtain ⟨rfl, -, -⟩ := run_unique (P := fun d => !isBlank d) (c := [' ']) hafter
    (by simpa using hspaces) (by simp [isBlank]) (by decide) (by decide)
  refine ⟨above, s, ⟨below, rfl⟩, rfl, ?_, Or.inl ?_⟩
  · simp [Statement.text, hform, hword, Statement.Form.lead, Statement.Form.trail]
  · exact eq_captureOf hword (by simpa [hform, Statement.Form.lead] using hoffset)

theorem lineBound_dottedModule : LineBound dottedModule := by
  intro ss front taken rest c htext h
  have hstop := @Prefers.not_accepts [lineStart, gap, word "import", space] _ _ _ _ _ h
  obtain ⟨above, s, below, blanks, post, rfl, rfl, rfl, hline, hoffset, hblanks, hne, hall,
    front', cap, hpost⟩ :=
    exists_name_of_fits (by decide) (List.forall_mem_nil _) h.fits htext
  obtain ⟨rfl, -⟩ := hpost
  rw [Statement.text] at hline
  cases hform : s.form <;> rw [hform] at hline <;>
    simp [Statement.Form.lead, Statement.Form.trail] at hline
  case nameFrom =>
    obtain ⟨rfl, hword, -⟩ := run_after_space (w := ['x'])
      (fun d => isBlank_of_accepts (f := .fromModule)) hline hblanks hne hall hstop
      (List.forall_mem_singleton.mpr (by decide)) (by decide) (by simp)
    refine ⟨above, s, ⟨below, rfl⟩, rfl, ?_, Or.inr ⟨hform, hword⟩⟩
    simp [Statement.text, hform, hword, Statement.Form.lead, Statement.Form.trail]
  case effect =>
    -- the quotation mark is no name
    obtain ⟨-, hword, -⟩ := run_after_space (w := [])
      (fun d => isBlank_of_accepts (f := .fromModule)) hline hblanks hne hall hstop
      (by simp) (by decide) (by simp [isBlank])
    exact absurd hword hne
  case wholeModule =>
    have hspec := s.accepted
    rw [hform] at hspec
    obtain ⟨rfl, hword, -⟩ := run_after_space (fun d => isBlank_of_accepts (f := .wholeModule))
      hline hblanks hne hall hstop hspec (by decide) (absurd · (specifier_toList_ne s))
    refine ⟨above, s, ⟨below, rfl⟩, rfl, ?_, Or.inl ?_⟩
    · simp [Statement.text, hform, hword, Statement.Form.lead, Statement.Form.trail]
    · exact eq_captureOf hword (by simpa [hform, Statement.Form.lead] using hoffset)

end ImportScout.Import
