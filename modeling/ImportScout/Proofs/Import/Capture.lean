import ImportScout.Import.Extract
import ImportScout.Proofs.Text.Match

/-! # What the forms capture

The forms of imports overlap, and several may capture the same specifier. They never capture two
different ones at one place (`text_eq_of_offset_eq`): what stands before a specifier tells whether
it is quoted, where the next quotation mark ends it, or which one of the other forms it belongs to,
and that form captures only once at each place.
-/

namespace ImportScout.Import

open Text Pattern

/-! ## What stands before a specifier -/

/-- Whether `c` is a single or a double quotation mark. -/
def isQuote (c : Char) : Bool :=
  c == '\'' || c == '"'

/-- Whether the last character of a text is blank, and the last character before it that is not. -/
def leadIn (before : List Char) : Option (Bool × Option Char) :=
  match before.reverse with
  | [] => none
  | last :: others => some (isBlank last, (others.dropWhile isBlank).head?)

section LeadIn

variable {d : Char} {gap : List Char} (hd : isBlank d = false)
  (hgap : ∀ c ∈ gap, isBlank c = true)

include hd hgap

/-- What a mark or a blank behind a gap follows is the character in front of the gap. -/
theorem leadIn_append (front : List Char) (last : Char) :
    leadIn (front ++ d :: gap ++ [last]) = some (isBlank last, some d) := by
  have hskip : ((front ++ d :: gap).reverse.dropWhile isBlank).head? = some d := by
    rw [List.reverse_append, List.reverse_cons, List.append_assoc, List.singleton_append,
      List.dropWhile_append_of_pos fun c hc => hgap c (List.mem_reverse.mp hc),
      List.dropWhile_cons_of_neg (by simp [hd]), List.head?_cons]
  rw [leadIn, List.reverse_append, List.reverse_singleton, List.singleton_append]
  simp only [hskip]

theorem leadIn_gap (front : List Char) (hne : gap ≠ []) :
    leadIn (front ++ d :: gap) = some (true, some d) := by
  have hsplit := List.dropLast_append_getLast hne
  have hinit : ∀ c ∈ gap.dropLast, isBlank c = true := by
    intro c hc
    exact hgap c ((List.dropLast_sublist gap).subset hc)
  have := leadIn_append hd hinit front (gap.getLast hne)
  rw [hgap _ (List.getLast_mem hne), List.append_assoc, List.cons_append, hsplit] at this
  exact this

end LeadIn

/-- Whether everything that a pattern takes ends in the character `d`. -/
def EndsIn (p : Pattern) (d : Char) : Prop :=
  ∀ front taken cap cap', p.Fits front taken cap cap' → taken.getLast? = some d

/-- Whether a pattern takes only blanks. -/
def TakesBlanks (p : Pattern) : Prop :=
  ∀ front taken cap cap', p.Fits front taken cap cap' → ∀ c ∈ taken, isBlank c = true

theorem endsIn_word {s : String} {d : Char} (hs : s.toList.getLast? = some d) :
    EndsIn (word s) d := by
  intro front taken cap cap' h
  rw [(fits_word.mp h).1]
  exact hs

theorem endsIn_one (d : Char) : EndsIn (one (· == d)) d := by
  rintro front taken cap cap' ⟨⟨c, hc, rfl⟩, -⟩
  rw [beq_iff_eq.mp hc]
  rfl

theorem takesBlanks_gap : TakesBlanks gap :=
  fun _ _ _ _ h => h.1

theorem takesBlanks_space : TakesBlanks space :=
  fun _ _ _ _ h => (fits_some1.mp h).2.1

section Words

variable {p r : Pattern} {d : Char} (hp : EndsIn p d) (hd : isBlank d = false)
  {front taken : List Char} {cap cap' : Option Capture}

include hp hd

/-- The lead-in of what follows a word, perhaps blanks, and a mark. -/
theorem leadIn_mark (hr : TakesBlanks r) (h : (all [p, r]).Fits front taken cap cap') (q : Char) :
    leadIn (front ++ taken ++ [q]) = some (isBlank q, some d) := by
  obtain ⟨head, blanks, mid, rfl, hhead, hblanks⟩ := fits_all_pair.mp h
  obtain ⟨init, rfl⟩ := List.getLast?_eq_some_iff.mp (hp _ _ _ _ hhead)
  rw [List.append_assoc init, List.singleton_append, ← List.append_assoc front]
  exact leadIn_append hd (hr _ _ _ _ hblanks) (front ++ init) q

/-- The lead-in of what follows a word and at least one blank. -/
theorem leadIn_space (h : (all [p, space]).Fits front taken cap cap') :
    leadIn (front ++ taken) = some (true, some d) := by
  obtain ⟨head, blanks, mid, rfl, hhead, hblanks⟩ := fits_all_pair.mp h
  obtain ⟨init, rfl⟩ := List.getLast?_eq_some_iff.mp (hp _ _ _ _ hhead)
  obtain ⟨hne, hall, -⟩ := fits_some1.mp hblanks
  rw [List.append_assoc init, List.singleton_append, ← List.append_assoc front]
  exact leadIn_gap hd hall (front ++ init) hne

end Words

theorem plain_word (s : String) : (word s).Plain := by
  refine plain_all fun p hp => ?_
  obtain ⟨c, -, rfl⟩ := List.mem_map.mp hp
  trivial

/-! ## Forms with quotation marks -/

/-- The lead-ins of quoted specifiers: a quotation mark behind `import`, `from` or a parenthesis. -/
def quotedLeadIns : List (Bool × Option Char) :=
  [(false, some 't'), (false, some 'm'), (false, some '(')]

/-- Whether a specifier reaches from a quotation mark to the next one. -/
def Quoted (before text post : List Char) : Prop :=
  (∃ lead ∈ quotedLeadIns, leadIn before = some lead) ∧ (∀ c ∈ text, isQuote c = false) ∧
    ∃ q post', post = q :: post' ∧ isQuote q = true

theorem isBlank_of_isQuote {q : Char} (h : isQuote q = true) : isBlank q = false := by
  rw [isQuote, Bool.or_eq_true, beq_iff_eq, beq_iff_eq] at h
  rcases h with rfl | rfl <;> decide

/-- A quoted specifier is determined by the text that begins with it. -/
theorem Quoted.text_eq {before text post rest before' text' post' rest' : List Char}
    (h : Quoted before text post) (h' : Quoted before' text' post')
    (heq : text ++ (post ++ rest) = text' ++ (post' ++ rest')) : text = text' := by
  have upToQuote {before text post rest : List Char} (h : Quoted before text post) :
      (text ++ (post ++ rest)).takeWhile (fun c => !isQuote c) = text := by
    obtain ⟨-, htext, q, post', rfl, hq⟩ := h
    rw [List.takeWhile_append_of_pos (by simpa using htext), List.cons_append,
      List.takeWhile_cons_of_neg (by simp [hq]), List.append_nil]
  rw [← upToQuote h, heq, upToQuote h']

/-- What is quoted in a sequence is what the sequence captures. -/
theorem fits_all_quoted {ps qs : List Pattern} (hps : ∀ p ∈ ps, p.Plain)
    (hqs : ∀ q ∈ qs, q.Plain) {front taken : List Char} {cap : Option Capture}
    (h : (all (ps ++ quoted :: qs)).Fits front taken none cap) :
    ∃ pre q text q' post, taken = pre ++ [q] ++ text ++ q' :: post ∧ isQuote q = true ∧
      isQuote q' = true ∧ cap = some ⟨text, size (front ++ (pre ++ [q]))⟩ ∧ text ≠ [] ∧
        (∀ c ∈ text, isQuote c = false) ∧ (all ps).Fits front pre none none ∧
          (all qs).Fits (front ++ (pre ++ [q] ++ text ++ [q'])) post cap cap := by
  obtain ⟨pre, rest, mid, rfl, hpre, inner, post, mid', rfl, hinner, hpost⟩ := fits_all_append.mp h
  obtain rfl := hpre.eq_of_plain (plain_all hps)
  obtain rfl := hpost.eq_of_plain (plain_all hqs)
  have hparts : quoted =
      all ([quote] ++ captured (some1 fun c => c != '\'' && c != '"') :: [quote]) := rfl
  rw [hparts] at hinner
  obtain ⟨mark, text, mark', _, rfl, rfl, hmark, htext, hmark'⟩ :=
    fits_all_captured (by simp [quote, Plain]) (by simp [quote, Plain]) hinner
  obtain ⟨⟨q, hq, rfl⟩, -⟩ := fits_all_singleton.mp hmark
  obtain ⟨⟨q', hq', rfl⟩, -⟩ := fits_all_singleton.mp hmark'
  obtain ⟨hne, hall, -⟩ := fits_some1.mp htext
  refine ⟨pre, q, text, q', post, by simp, hq, hq', by rw [List.append_assoc], hne, ?_, hpre, ?_⟩
  · intro c hc
    have := hall c hc
    simpa [isQuote] using this
  · simpa [all] using hpost

/-- A sequence captures what is quoted in it if the parts before that lead in to a quotation. -/
theorem capturesIn_all_quoted {ps qs : List Pattern} (hps : ∀ p ∈ ps, p.Plain)
    (hqs : ∀ q ∈ qs, q.Plain)
    (hlead : ∀ front pre q, (all ps).Fits front pre none none → isBlank q = false →
      ∃ lead ∈ quotedLeadIns, leadIn (front ++ pre ++ [q]) = some lead) :
    (all (ps ++ quoted :: qs)).CapturesIn Quoted := by
  intro front taken cap h
  obtain ⟨pre, q, text, q', post, rfl, hq, hq', rfl, hne, hall, hpre, -⟩ :=
    fits_all_quoted hps hqs h
  refine ⟨pre ++ [q], text, q' :: post, rfl, rfl, hne, ?_, hall, q', post, rfl, hq'⟩
  rw [← List.append_assoc]
  exact hlead front pre q hpre (isBlank_of_isQuote hq)

theorem capturesIn_moduleImport : moduleImport.CapturesIn Quoted := by
  refine @capturesIn_all_quoted [word "import", space,
    maybe (all [some1 isClause, space, word "from", space])] [] ?_ ?_ ?_
  · simp [space, some1, all, Plain, plain_word]
  · simp
  · intro front pre q h hq
    have hsplit : all [word "import", space,
        maybe (all [some1 isClause, space, word "from", space])] =
        all ([word "import", space] ++
          [maybe (all ([some1 isClause, space] ++ [word "from", space]))]) := rfl
    rw [hsplit] at h
    obtain ⟨head, tail, mid, rfl, hhead, htail⟩ := fits_all_append.mp h
    rcases fits_all_singleton.mp htail with hclause | ⟨rfl, -⟩
    · -- the names and `from` stand between `import` and the quotation mark
      obtain ⟨names, from', mid', rfl, -, hfrom⟩ := fits_all_append.mp hclause
      refine ⟨(isBlank q, some 'm'), by rw [hq]; decide, ?_⟩
      rw [← List.append_assoc head, ← List.append_assoc front, ← List.append_assoc front]
      exact leadIn_mark (endsIn_word rfl) (by decide) takesBlanks_space hfrom q
    · refine ⟨(isBlank q, some 't'), by rw [hq]; decide, ?_⟩
      rw [List.append_nil]
      exact leadIn_mark (endsIn_word rfl) (by decide) takesBlanks_space hhead q

theorem capturesIn_call (name : String) : (call name).CapturesIn Quoted := by
  refine @capturesIn_all_quoted [word name, gap, one (· == '('), gap]
    [gap, one (· == ')')] ?_ ?_ ?_
  · simp [gap, Plain, plain_word]
  · simp [gap, Plain]
  · intro front pre q h hq
    have hsplit : all [word name, gap, one (· == '('), gap] =
        all ([word name, gap] ++ [one (· == '('), gap]) := rfl
    rw [hsplit] at h
    obtain ⟨head, tail, mid, rfl, -, htail⟩ := fits_all_append.mp h
    refine ⟨(isBlank q, some '('), by rw [hq]; decide, ?_⟩
    rw [← List.append_assoc front]
    exact leadIn_mark (endsIn_one '(') (by decide) takesBlanks_gap htail q

/-! ## Forms without quotation marks -/

/-- A sequence captures a run of characters after what the parts before it lead in. -/
theorem capturesIn_all_captured {ps qs : List Pattern} {accepts : Char → Bool}
    {lead : Bool × Option Char} (hps : ∀ p ∈ ps, p.Plain) (hqs : ∀ q ∈ qs, q.Plain)
    (hlead : ∀ front pre, (all ps).Fits front pre none none → leadIn (front ++ pre) = some lead) :
    (all (ps ++ captured (some1 accepts) :: qs)).CapturesIn
      fun before _ _ => leadIn before = some lead := by
  intro front taken cap h
  obtain ⟨pre, text, post, _, rfl, rfl, hpre, htext, -⟩ := fits_all_captured hps hqs h
  exact ⟨pre, text, post, rfl, rfl, (fits_some1.mp htext).1, hlead front pre hpre⟩

theorem capturesIn_inclusion :
    inclusion.CapturesIn fun before _ _ => leadIn before = some (false, some 'e') := by
  refine @capturesIn_all_captured [lineStart, gap, word "#include", gap,
    one fun c => c == '"' || c == '<'] [one fun c => c == '"' || c == '>'] _ _ ?_ ?_ ?_
  · simp [gap, Plain, plain_word]
  · simp [Plain]
  · intro front pre h
    have hsplit : all [lineStart, gap, word "#include", gap, one fun c => c == '"' || c == '<'] =
        all ([lineStart, gap] ++ ([word "#include", gap] ++
          [one fun c => c == '"' || c == '<'])) := rfl
    rw [hsplit] at h
    -- where the line starts is of no account, the word and the mark are
    obtain ⟨line, rest, mid, rfl, -, h⟩ := fits_all_append.mp h
    obtain ⟨name, mark, mid', rfl, hname, hmark⟩ := fits_all_append.mp h
    obtain ⟨⟨q, hq, rfl⟩, -⟩ := fits_all_singleton.mp hmark
    have hblank : isBlank q = false := by
      rw [Bool.or_eq_true, beq_iff_eq, beq_iff_eq] at hq
      rcases hq with rfl | rfl <;> decide
    rw [← List.append_assoc, ← List.append_assoc, ← hblank]
    exact leadIn_mark (endsIn_word rfl) (by decide) takesBlanks_gap hname q

/-- A form that begins a line with a word captures what follows the word and a blank. -/
theorem capturesIn_line {s : String} {d : Char} (hs : s.toList.getLast? = some d)
    (hd : isBlank d = false) (accepts : Char → Bool) {qs : List Pattern}
    (hqs : ∀ q ∈ qs, q.Plain) :
    (all ([lineStart, gap, word s, space] ++ captured (some1 accepts) :: qs)).CapturesIn
      fun before _ _ => leadIn before = some (true, some d) := by
  refine capturesIn_all_captured (by simp [gap, space, some1, Plain, plain_word]) hqs ?_
  intro front pre h
  have hsplit : all [lineStart, gap, word s, space] =
      all ([lineStart, gap] ++ [word s, space]) := rfl
  rw [hsplit] at h
  obtain ⟨line, rest, mid, rfl, -, hrest⟩ := fits_all_append.mp h
  rw [← List.append_assoc]
  exact leadIn_space (endsIn_word hs) hd hrest

/-- The forms without quotation marks around the specifier, or with other ones, and the lead-in of
what each captures. -/
def unquoted : List (Pattern × Bool × Option Char) :=
  [(inclusion, false, some 'e'), (useName, true, some 'e'), (fromModule, true, some 'm'),
    (dottedModule, true, some 't')]

theorem capturesIn_unquoted {form : Pattern × Bool × Option Char} (h : form ∈ unquoted) :
    form.1.CapturesIn fun before _ _ => leadIn before = some form.2 := by
  simp only [unquoted, List.mem_cons, List.not_mem_nil, or_false] at h
  rcases h with rfl | rfl | rfl | rfl
  · exact capturesIn_inclusion
  · exact capturesIn_line rfl (by decide) _ (by simp [Plain])
  · exact capturesIn_line rfl (by decide) _ (by simp [space, some1, Plain, plain_word])
  · exact capturesIn_line rfl (by decide) _ (by simp)

/-- Every form captures quoted specifiers, or specifiers with a lead-in of its own. -/
theorem forms_cases {p : Pattern} (hp : p ∈ forms) :
    p.CapturesIn Quoted ∨ ∃ form ∈ unquoted, p = form.1 := by
  simp only [forms, List.mem_cons, List.not_mem_nil, or_false] at hp
  rcases hp with rfl | rfl | rfl | rfl | rfl | rfl | rfl
  · exact Or.inl capturesIn_moduleImport
  · exact Or.inl (capturesIn_call "require")
  · exact Or.inl (capturesIn_call "import")
  · exact Or.inr ⟨(inclusion, false, some 'e'), by simp [unquoted], rfl⟩
  · exact Or.inr ⟨(useName, true, some 'e'), by simp [unquoted], rfl⟩
  · exact Or.inr ⟨(fromModule, true, some 'm'), by simp [unquoted], rfl⟩
  · exact Or.inr ⟨(dottedModule, true, some 't'), by simp [unquoted], rfl⟩

/-! ## Captures of a text -/

/-- A capture stands in the text at its offset, and is quoted or has the lead-in of its form. -/
theorem mem_captures_cases {code : String} {c : Capture} (hc : c ∈ captures code) :
    ∃ before post rest, code.toList = before ++ c.text ++ (post ++ rest) ∧
      c.offset = size before ∧ c.text ≠ [] ∧ (Quoted before c.text post ∨
        ∃ form ∈ unquoted, c ∈ form.1.captures code.toList ∧ leadIn before = some form.2) := by
  obtain ⟨p, hp, hc⟩ := List.mem_flatMap.mp hc
  rcases forms_cases hp with hquoted | ⟨form, hform, rfl⟩
  · obtain ⟨before, post, rest, hcode, hoffset, hne, h⟩ := exists_of_mem_captures hquoted hc
    exact ⟨before, post, rest, hcode, hoffset, hne, Or.inl h⟩
  · obtain ⟨before, post, rest, hcode, hoffset, hne, h⟩ :=
      exists_of_mem_captures (capturesIn_unquoted hform) hc
    exact ⟨before, post, rest, hcode, hoffset, hne, Or.inr ⟨form, hform, hc, h⟩⟩

/-- No quoted specifier has the lead-in of another form. -/
theorem not_quoted_of_unquoted {before text post : List Char} (h : Quoted before text post)
    {form : Pattern × Bool × Option Char} (hform : form ∈ unquoted)
    (hlead : leadIn before = some form.2) : False := by
  obtain ⟨⟨lead, hmem, heq⟩, -⟩ := h
  have hdisjoint : ∀ lead ∈ quotedLeadIns, lead ∉ unquoted.map Prod.snd := by decide
  rw [heq, Option.some.injEq] at hlead
  exact hdisjoint lead hmem (hlead ▸ List.mem_map_of_mem hform)

/-- Captures at one place of a text are the same text, whichever forms they come from. -/
theorem text_eq_of_offset_eq {code : String} {c d : Capture} (hc : c ∈ captures code)
    (hd : d ∈ captures code) (h : c.offset = d.offset) : c.text = d.text := by
  obtain ⟨before, post, rest, hcode, hoffset, -, hcases⟩ := mem_captures_cases hc
  obtain ⟨before', post', rest', hcode', hoffset', -, hcases'⟩ := mem_captures_cases hd
  -- the same offset means the same text before, and so the same lead-in
  rw [hcode, List.append_assoc, List.append_assoc] at hcode'
  obtain ⟨rfl, htext⟩ := eq_of_size_eq hcode' (by rw [← hoffset, h, hoffset'])
  rcases hcases with hquoted | ⟨form, hform, hmem, hlead⟩ <;>
    rcases hcases' with hquoted' | ⟨form', hform', hmem', hlead'⟩
  · exact hquoted.text_eq hquoted' htext
  · exact (not_quoted_of_unquoted hquoted hform' hlead').elim
  · exact (not_quoted_of_unquoted hquoted' hform hlead).elim
  · -- the lead-in tells the forms apart, and one form captures once at each place
    have hnodup : (unquoted.map Prod.snd).Nodup := by decide
    have hsame : form.2 = form'.2 := Option.some.inj (hlead.symm.trans hlead')
    obtain rfl := List.inj_on_of_nodup_map hnodup hform hform' hsame
    rw [eq_of_offset_eq (capturesIn_unquoted hform) hmem hmem' h]

end ImportScout.Import
