import Mathlib.Data.List.Nodup
import Mathlib.Data.List.Perm.Basic
import Mathlib.Order.Bounds.Basic
import ImportScout.Proofs.Import.Extract
import ImportScout.Proofs.Import.Recognition

/-! # Nothing is missed, nothing is made up

In a program of import statements the forms capture the specifier of every statement
(`mem_captures_of_follows`), whatever stands on the lines around it, and besides that only the name
in front of `from` (`captures_cases`), which is no project file. So the project imports of the
program are those that its statements name, each at the first statement that names it
(`extractLocal_program`).
-/

namespace ImportScout.Import

open Text Pattern

/-! ## The quoting forms -/

theorem isQuote_of_isBlank {c : Char} (h : isBlank c = true) : isQuote c = false := by
  by_contra hquote
  rw [isBlank_of_isQuote (by simpa using hquote)] at h
  exact absurd h (by decide)

theorem isQuote_of_isClause {c : Char} (h : isClause c = true) : isQuote c = false := by
  by_contra hquote
  rw [Bool.not_eq_false, isQuote, Bool.or_eq_true, beq_iff_eq, beq_iff_eq] at hquote
  rcases hquote with rfl | rfl
  all_goals
    revert h
    decide

theorem isPathChar_of_isBlank {c : Char} (h : isBlank c = true) : isPathChar c = false := by
  simp [isPathChar, h]

/-- What ends in blanks ends in a character that no path has. -/
theorem exists_concat_of_space (ps : List Pattern) {front pre : List Char}
    {cap cap' : Option Capture} (h : (all (ps ++ [space])).Fits front pre cap cap') :
    ∃ init c, pre = init ++ [c] ∧ isPathChar c = false := by
  obtain ⟨head, tail, mid, rfl, -, htail⟩ := fits_all_append.mp h
  obtain ⟨hne, hblank, -⟩ := fits_some1.mp (fits_all_singleton.mp htail)
  refine ⟨head ++ tail.dropLast, tail.getLast hne, ?_, ?_⟩
  · rw [List.append_assoc, List.dropLast_append_getLast]
  · exact isPathChar_of_isBlank (hblank _ (List.getLast_mem hne))

theorem quoting_moduleImport : Quoting moduleImport
    [word "import", space, maybe (all [some1 isClause, space, word "from", space])] [] where
  eq := rfl
  plain_before := by simp [space, some1, all, Plain, plain_word]
  plain_after := by simp
  opens front pre h := by
    obtain ⟨head, tail, mid, rfl, hhead, htail⟩ :=
      (@fits_all_append [word "import", space] _ _ _ _ _).mp h
    rcases fits_all_singleton.mp htail with hclause | ⟨rfl, -⟩
    · obtain ⟨init, c, rfl, hc⟩ :=
        exists_concat_of_space [some1 isClause, space, word "from"] hclause
      exact ⟨head ++ init, c, by rw [List.append_assoc], hc⟩
    · rw [List.append_nil]
      exact exists_concat_of_space [word "import"] hhead
  unquoted := by
    have hspace : space.Avoids isQuote := ⟨fun _ => isQuote_of_isBlank, fun _ => isQuote_of_isBlank⟩
    have hclause : (some1 isClause).Avoids isQuote :=
      ⟨fun _ => isQuote_of_isClause, fun _ => isQuote_of_isClause⟩
    have himport : (word "import").Avoids isQuote := avoids_word (by simp [isQuote])
    have hfrom : (word "from").Avoids isQuote := avoids_word (by simp [isQuote])
    exact ⟨himport, hspace, ⟨hclause, hspace, hfrom, hspace, trivial⟩, trivial⟩
  closes front post cap h := by
    obtain ⟨rfl, -⟩ := h
    simp

theorem quoting_call {name : String} (hname : ∀ c ∈ name.toList, isQuote c = false) :
    Quoting (call name) [word name, gap, one (· == '('), gap] [gap, one (· == ')')] where
  eq := rfl
  plain_before := by simp [gap, Plain, plain_word]
  plain_after := by simp [gap, Plain]
  opens front pre h := by
    obtain ⟨head, tail, mid, rfl, -, htail⟩ :=
      (@fits_all_append [word name, gap] [one (· == '('), gap] _ _ _ _).mp h
    obtain ⟨paren, blanks, mid', rfl, ⟨⟨c, hc, rfl⟩, -⟩, hblanks, -⟩ := fits_all_pair.mp htail
    rw [beq_iff_eq] at hc
    subst hc
    rcases List.eq_nil_or_concat blanks with rfl | ⟨init, b, rfl⟩
    · exact ⟨head, '(', rfl, by decide⟩
    · refine ⟨head ++ '(' :: init, b, by simp, isPathChar_of_isBlank (hblanks b ?_)⟩
      simp
  unquoted := by
    have hgap : gap.Avoids isQuote := fun _ => isQuote_of_isBlank
    have hparen : (one (· == '(')).Avoids isQuote := by
      intro c hc
      rw [beq_iff_eq.mp hc]
      decide
    exact ⟨avoids_word hname, hgap, hparen, hgap, trivial⟩
  closes front post cap h := by
    obtain ⟨blanks, paren, mid, rfl, ⟨hblanks, -⟩, ⟨c, hc, rfl⟩, -⟩ := fits_all_pair.mp h
    intro d hd
    rcases List.mem_append.mp hd with hd | hd
    · exact Or.inl (hblanks d hd)
    · rw [List.mem_singleton.mp hd, beq_iff_eq.mp hc]
      exact Or.inr rfl

/-! ## What a statement itself matches -/

/-- Behind the lines of statements a line starts. -/
theorem lineStart_texts (ss : List Statement) :
    texts ss = [] ∨ (texts ss).getLast? = some '\n' := by
  rcases List.eq_nil_or_concat ss with rfl | ⟨above, s, rfl⟩
  · exact Or.inl rfl
  · obtain ⟨body, hbody, -⟩ := text_eq_concat s
    rw [List.concat_eq_append, texts_append, texts_cons, hbody]
    simp [texts]

section Fits

variable {front head tail : List Char} {cap mid cap' : Option Capture} {p : Pattern}
  {ps : List Pattern}

theorem fits_all_nil : (all []).Fits front [] cap cap :=
  ⟨rfl, rfl⟩

theorem fits_all_cons (hp : p.Fits front head cap mid)
    (hps : (all ps).Fits (front ++ head) tail mid cap') :
    (all (p :: ps)).Fits front (head ++ tail) cap cap' :=
  ⟨head, tail, mid, rfl, hp, hps⟩

theorem fits_letters (w : String) : (word w).Fits front w.toList cap cap :=
  fits_word.mpr ⟨rfl, rfl⟩

theorem fits_gap_nil : gap.Fits front [] cap cap :=
  ⟨by simp, rfl⟩

theorem fits_gap : gap.Fits front [' '] cap cap :=
  ⟨by simp [isBlank], rfl⟩

theorem fits_space : space.Fits front [' '] cap cap :=
  fits_some1.mpr ⟨by simp, by simp [isBlank], rfl⟩

theorem fits_one {accepts : Char → Bool} {c : Char} (hc : accepts c = true) :
    (one accepts).Fits front [c] cap cap :=
  ⟨⟨c, hc, rfl⟩, rfl⟩

theorem fits_captured {accepts : Char → Bool} {text : List Char} (hne : text ≠ [])
    (htext : ∀ c ∈ text, accepts c = true) :
    (captured (some1 accepts)).Fits front text cap (some ⟨text, size front⟩) :=
  ⟨⟨cap, fits_some1.mpr ⟨hne, htext, rfl⟩⟩, rfl⟩

variable (s : Statement)

theorem fits_quoted :
    quoted.Fits front (['\''] ++ (s.specifier.toList ++ (['\''] ++ []))) cap
      (some ⟨s.specifier.toList, size (front ++ ['\''])⟩) := by
  have hspec : ∀ c ∈ s.specifier.toList, (c != '\'' && c != '"') = true := by
    intro c hc
    have := isQuote_of_accepts (s.accepted c hc)
    simpa [isQuote] using this
  exact fits_all_cons (fits_one rfl) (fits_all_cons (fits_captured (specifier_toList_ne s) hspec)
    (fits_all_cons (fits_one rfl) fits_all_nil))

theorem exists_fits_moduleImport {clause : List Char}
    (hclause : clause = [] ∨ clause = "x from ".toList) (front : List Char) :
    ∃ cap, moduleImport.Fits front
      ("import ".toList ++ clause ++ ['\''] ++ s.specifier.toList ++ ['\'']) none cap := by
  have hparts : "import ".toList ++ clause ++ ['\''] ++ s.specifier.toList ++ ['\''] =
      "import".toList ++ ([' '] ++ (clause ++
        ((['\''] ++ (s.specifier.toList ++ (['\''] ++ []))) ++ []))) := by
    simp
  have hfrom : (maybe (all [some1 isClause, space, word "from", space])).Fits
      (front ++ "import".toList ++ [' ']) clause none none := by
    rcases hclause with rfl | rfl
    · exact Or.inr ⟨rfl, rfl⟩
    · have hwords : "x from ".toList = ['x'] ++ ([' '] ++ ("from".toList ++ ([' '] ++ []))) := by
        simp
      have hx (front : List Char) : (some1 isClause).Fits front ['x'] none none :=
        fits_some1.mpr ⟨by simp, List.forall_mem_singleton.mpr (by decide), rfl⟩
      rw [hwords]
      exact Or.inl (fits_all_cons (hx _) (fits_all_cons fits_space (fits_all_cons (fits_letters _)
        (fits_all_cons fits_space fits_all_nil))))
  rw [hparts]
  exact ⟨_, fits_all_cons (fits_letters _) (fits_all_cons fits_space (fits_all_cons hfrom
    (fits_all_cons (fits_quoted s) fits_all_nil)))⟩

theorem exists_fits_call (name : String) (front : List Char) :
    ∃ cap, (call name).Fits front
      (name.toList ++ "('".toList ++ s.specifier.toList ++ "')".toList) none cap := by
  have hparts : name.toList ++ "('".toList ++ s.specifier.toList ++ "')".toList =
      name.toList ++ ([] ++ (['('] ++ ([] ++ ((['\''] ++ (s.specifier.toList ++ (['\''] ++ []))) ++
        ([] ++ ([')'] ++ [])))))) := by
    simp
  rw [hparts]
  exact ⟨_, fits_all_cons (fits_letters _) (fits_all_cons fits_gap_nil (fits_all_cons (fits_one rfl)
    (fits_all_cons fits_gap_nil (fits_all_cons (fits_quoted s) (fits_all_cons fits_gap_nil
      (fits_all_cons (fits_one rfl) fits_all_nil))))))⟩

theorem exists_fits_inclusion (hform : s.form = .header) (above : List Statement) :
    ∃ cap, inclusion.Fits (texts above)
      ("#include \"".toList ++ s.specifier.toList ++ ['"']) none cap := by
  have hspec : ∀ c ∈ s.specifier.toList, (c != '"' && c != '<' && c != '>') = true := by
    intro c hc
    have haccepts := s.accepted c hc
    rw [hform] at haccepts
    obtain ⟨-, hquote, -, -, hless, hgreater⟩ := isPathChar_iff.mp haccepts
    simp [isQuote] at hquote
    simp [hquote, hless, hgreater]
  have hparts : "#include \"".toList ++ s.specifier.toList ++ ['"'] =
      [] ++ ([] ++ ("#include".toList ++ ([' '] ++ (['"'] ++ (s.specifier.toList ++
        (['"'] ++ [])))))) := by
    simp
  rw [hparts]
  exact ⟨_, fits_all_cons ⟨lineStart_texts above, rfl, rfl⟩ (fits_all_cons fits_gap_nil
    (fits_all_cons (fits_letters _) (fits_all_cons fits_gap (fits_all_cons (fits_one rfl)
      (fits_all_cons (fits_captured (specifier_toList_ne s) hspec)
        (fits_all_cons (fits_one rfl) fits_all_nil))))))⟩

/-- A form at the start of a line fits a word, a blank, the specifier and what goes with it. -/
theorem exists_fits_name {w : String} {accepts : Char → Bool} {ps : List Pattern}
    (hspec : ∀ c ∈ s.specifier.toList, accepts c = true)
    (hps : ∀ front cap, (all ps).Fits front tail cap cap) (above : List Statement) :
    ∃ cap', (all (lineStart :: gap :: word w :: space :: captured (some1 accepts) :: ps)).Fits
      (texts above) (w.toList ++ [' '] ++ s.specifier.toList ++ tail) none cap' := by
  have hparts : w.toList ++ [' '] ++ s.specifier.toList ++ tail =
      [] ++ ([] ++ (w.toList ++ ([' '] ++ (s.specifier.toList ++ tail)))) := by
    simp
  rw [hparts]
  exact ⟨_, fits_all_cons ⟨lineStart_texts above, rfl, rfl⟩ (fits_all_cons fits_gap_nil
    (fits_all_cons (fits_letters w) (fits_all_cons fits_space
      (fits_all_cons (fits_captured (specifier_toList_ne s) hspec) (hps _ _)))))⟩

end Fits

/-- Everything that a form captures in a program is captured in one of the forms. -/
theorem mem_captures_program {ss : List Statement} {c : Capture} :
    c ∈ captures (program ss) ↔ ∃ p ∈ forms, c ∈ p.captures (texts ss) := by
  rw [captures, program, String.toList_ofList, List.mem_flatMap]

section Captures

variable {ss above : List Statement} {s : Statement}

theorem mem_captures_moduleImport (hs : Follows ss above s) (hform : s.form.isQuoted = true)
    {clause : List Char} (hclause : clause = [] ∨ clause = "x from ".toList)
    (hlead : s.form.lead.toList = "import ".toList ++ clause ++ ['\''])
    (htrail : ['\''] <+: s.form.trail.toList) :
    captureOf above s ∈ moduleImport.captures (texts ss) := by
  obtain ⟨cap, hfits⟩ := exists_fits_moduleImport s hclause (texts above ++ [])
  refine quoting_moduleImport.mem_captures capturesIn_moduleImport hs hform (u := []) (c := 'i')
    (v := "mport ".toList ++ clause ++ ['\'']) (by simpa using hlead) (by decide) ?_ hfits
  simpa using htrail

theorem mem_captures_call {name : String} {c : Char} {letters : List Char}
    (hs : Follows ss above s) (hform : s.form.isQuoted = true)
    (hname : ∀ c ∈ name.toList, isQuote c = false) (hletters : name.toList = c :: letters)
    (hc : isBlank c = false ∧ c ≠ ')')
    (hlead : s.form.lead.toList = "const x = ".toList ++ name.toList ++ "('".toList)
    (htrail : "')".toList <+: s.form.trail.toList) :
    captureOf above s ∈ (call name).captures (texts ss) := by
  obtain ⟨cap, hfits⟩ := exists_fits_call s name (texts above ++ "const x = ".toList)
  refine (quoting_call hname).mem_captures (capturesIn_call name) hs hform
    (v := letters ++ "('".toList) (by simp [hlead, hletters]) hc ?_ hfits
  simpa [hletters] using htrail

end Captures

/-- The specifier of every statement is captured. -/
theorem mem_captures_of_follows {ss above : List Statement} {s : Statement}
    (hs : Follows ss above s) : captureOf above s ∈ captures (program ss) := by
  rw [mem_captures_program]
  have hspec := s.accepted
  cases hform : s.form <;> rw [hform] at hspec
  case nameFrom =>
    refine ⟨moduleImport, by simp [forms], mem_captures_moduleImport hs (by rw [hform]; rfl)
      (Or.inr rfl) ?_ ?_⟩
    all_goals simp [hform, Statement.Form.lead, Statement.Form.trail]
  case effect =>
    refine ⟨moduleImport, by simp [forms], mem_captures_moduleImport hs (by rw [hform]; rfl)
      (Or.inl rfl) ?_ ?_⟩
    all_goals simp [hform, Statement.Form.lead, Statement.Form.trail]
  case required =>
    refine ⟨call "require", by simp [forms], mem_captures_call (c := 'r') hs (by rw [hform]; rfl)
      (by simp [isQuote]) (by simp; rfl) (by decide) ?_ ?_⟩
    all_goals simp [hform, Statement.Form.lead, Statement.Form.trail]
  case awaited =>
    refine ⟨call "import", by simp [forms], mem_captures_call (c := 'i') hs (by rw [hform]; rfl)
      (by simp [isQuote]) (by simp; rfl) (by decide) ?_ ?_⟩
    all_goals simp [hform, Statement.Form.lead, Statement.Form.trail]
  case header =>
    obtain ⟨cap, hfits⟩ := exists_fits_inclusion s hform above
    refine ⟨inclusion, by simp [forms], lineBound_inclusion.mem_captures capturesIn_inclusion hs
      (by simp [hform]) ?_ hfits⟩
    simp [Statement.text, hform, Statement.Form.lead, Statement.Form.trail]
  case used =>
    have hend (front : List Char) (cap : Option Capture) :
        (all [one (· == ';')]).Fits front [';'] cap cap :=
      fits_all_cons (fits_one rfl) fits_all_nil
    obtain ⟨cap, hfits⟩ := exists_fits_name s (w := "use") hspec hend above
    refine ⟨useName, by simp [forms], lineBound_useName.mem_captures
      (capturesIn_line rfl (by decide) _ (by simp [Plain])) hs (by simp [hform]) ?_ hfits⟩
    simp [Statement.text, hform, Statement.Form.lead, Statement.Form.trail]
  case fromModule =>
    have hend (front : List Char) (cap : Option Capture) :
        (all [space, word "import"]).Fits front ([' '] ++ ("import".toList ++ [])) cap cap :=
      fits_all_cons fits_space (fits_all_cons (fits_letters _) fits_all_nil)
    obtain ⟨cap, hfits⟩ := exists_fits_name s (w := "from") hspec hend above
    refine ⟨fromModule, by simp [forms], lineBound_fromModule.mem_captures
      (capturesIn_line rfl (by decide) _ (by simp [space, some1, Plain, plain_word])) hs
      (by simp [hform]) ?_ hfits⟩
    simp [Statement.text, hform, Statement.Form.lead, Statement.Form.trail]
  case wholeModule =>
    obtain ⟨cap, hfits⟩ := exists_fits_name s (w := "import") hspec (fun _ _ => fits_all_nil) above
    refine ⟨dottedModule, by simp [forms], lineBound_dottedModule.mem_captures
      (capturesIn_line rfl (by decide) _ (by simp)) hs (by simp [hform]) ?_ hfits⟩
    simp [Statement.text, hform, Statement.Form.lead, Statement.Form.trail]

/-- What a quoting form captures in a program is the specifier of a statement. -/
theorem Quoting.exists_of_mem_captures {p : Pattern} {ps qs : List Pattern} (hp : Quoting p ps qs)
    {ss : List Statement} {c : Capture} (hc : c ∈ p.captures (texts ss)) :
    ∃ above s, Follows ss above s ∧ c = captureOf above s := by
  obtain ⟨before, taken, after, htext, hprefers⟩ := exists_prefers_of_mem_captures hc
  obtain ⟨above, s, -, -, -, -, hs, -, -, -, hcap, -⟩ := hp.exists_of_fits hprefers.fits htext
  exact ⟨above, s, hs, Option.some.inj hcap⟩

theorem LineBound.exists_of_mem_captures {p : Pattern} (hp : LineBound p) {ss : List Statement}
    {c : Capture} (hc : c ∈ p.captures (texts ss)) :
    (∃ above s, Follows ss above s ∧ c = captureOf above s) ∨ c.text = ['x'] := by
  obtain ⟨before, taken, after, htext, hprefers⟩ := exists_prefers_of_mem_captures hc
  obtain ⟨above, s, hs, -, -, hcapture | ⟨-, hname⟩⟩ := hp _ _ _ _ _ htext hprefers
  · exact Or.inl ⟨above, s, hs, hcapture⟩
  · exact Or.inr hname

/-- What is captured is the specifier of a statement or the name in front of `from`. -/
theorem captures_cases {ss : List Statement} {c : Capture} (hc : c ∈ captures (program ss)) :
    (∃ above s, Follows ss above s ∧ c = captureOf above s) ∨ c.text = ['x'] := by
  obtain ⟨p, hp, hc⟩ := mem_captures_program.mp hc
  simp only [forms, List.mem_cons, List.not_mem_nil, or_false] at hp
  rcases hp with rfl | rfl | rfl | rfl | rfl | rfl | rfl
  · exact Or.inl (quoting_moduleImport.exists_of_mem_captures hc)
  · exact Or.inl ((quoting_call (by simp [isQuote])).exists_of_mem_captures hc)
  · exact Or.inl ((quoting_call (by simp [isQuote])).exists_of_mem_captures hc)
  · exact lineBound_inclusion.exists_of_mem_captures hc
  · exact lineBound_useName.exists_of_mem_captures hc
  · exact lineBound_fromModule.exists_of_mem_captures hc
  · exact lineBound_dottedModule.exists_of_mem_captures hc

/-! ## The imports of a program -/

/-- A specifier of a project file is captured just where a statement mentions it. -/
theorem offsetsOf_captures_program {ss : List Statement} {spec : String}
    (hlocal : Specifier.isProjectLocal spec = true) :
    offsetsOf (captures (program ss)) spec = {n | ⟨spec, n⟩ ∈ mentions 0 ss} := by
  ext n
  rw [offsetsOf, Set.mem_ofPred_eq, Set.mem_ofPred_eq, mem_mentions_iff]
  simp only [Nat.zero_add, Import.mk.injEq]
  constructor
  · intro hc
    rcases captures_cases hc with ⟨above, s, hs, hcapture⟩ | hname
    · rw [captureOf, Capture.mk.injEq] at hcapture
      exact ⟨above, s, hs, String.toList_injective hcapture.1, hcapture.2⟩
    · obtain rfl : spec = "x" := String.toList_injective (by simpa using hname)
      exact absurd hlocal (by decide +kernel)
  · rintro ⟨above, s, hs, rfl, rfl⟩
    exact mem_captures_of_follows hs

/-- The imports of a list without those whose specifier has been imported before. -/
def firsts : List Import → List Import
  | [] => []
  | imp :: imps => imp :: (firsts imps).filter fun other => other.specifier != imp.specifier

theorem firsts_sublist (imps : List Import) : (firsts imps).Sublist imps := by
  induction imps with
  | nil => exact List.Sublist.slnil
  | cons imp imps ih => exact (List.filter_sublist.trans ih).cons_cons imp

/-- In a list in the order of the offsets the first import of a specifier is the one with the least
offset. -/
theorem mem_firsts_iff {imps : List Import} (hsorted : imps.Pairwise fun a b => a.offset < b.offset)
    {imp : Import} :
    imp ∈ firsts imps ↔ IsLeast {n | ⟨imp.specifier, n⟩ ∈ imps} imp.offset := by
  induction imps with
  | nil => exact iff_of_false List.not_mem_nil fun h => absurd h.1 List.not_mem_nil
  | cons first imps ih =>
    obtain ⟨hfirst, hsorted⟩ := List.pairwise_cons.mp hsorted
    rw [firsts, List.mem_cons, List.mem_filter, bne_iff_ne]
    by_cases hspec : imp.specifier = first.specifier
    · have hleast : IsLeast {n | ⟨imp.specifier, n⟩ ∈ first :: imps} first.offset := by
        constructor
        · rw [Set.mem_ofPred_eq, hspec]
          exact List.mem_cons_self
        · intro n hn
          rcases List.mem_cons.mp hn with hn | hn
          · rw [← hn]
          · exact (hfirst _ hn).le
      constructor
      · rintro (rfl | ⟨-, hne⟩)
        · exact hleast
        · exact absurd hspec hne
      · intro h
        left
        cases imp
        cases first
        rw [Import.mk.injEq]
        exact ⟨hspec, h.unique hleast⟩
    · have hrest : {n | (⟨imp.specifier, n⟩ : Import) ∈ first :: imps} =
          {n | ⟨imp.specifier, n⟩ ∈ imps} := by
        ext n
        rw [Set.mem_ofPred_eq, Set.mem_ofPred_eq, List.mem_cons, or_iff_right]
        rintro rfl
        exact hspec rfl
      rw [hrest, ← ih hsorted, and_iff_left hspec, or_iff_right]
      rintro rfl
      exact hspec rfl

/-- The project imports of a program are those that its statements mention, each at the first
statement that mentions it, in the order of the statements. -/
theorem extractLocal_program (ss : List Statement) :
    extractLocal (program ss) =
      firsts ((mentions 0 ss).filter fun imp => Specifier.isProjectLocal imp.specifier) := by
  have table := tabulates_found (program ss)
  have hperm := extract_perm (program ss)
  have hsorted := (pairwise_mentions ss 0).filter fun imp => Specifier.isProjectLocal imp.specifier
  have hfirsts := hsorted.sublist (firsts_sublist _)
  have hnodup : (extractLocal (program ss)).Nodup :=
    (hperm.nodup_iff.mpr table.nodup.of_map).filter _
  have hmem (imp : Import) : imp ∈ extractLocal (program ss) ↔
      imp ∈ firsts ((mentions 0 ss).filter fun imp => Specifier.isProjectLocal imp.specifier) := by
    rw [extractLocal, List.mem_filter, hperm.mem_iff, table.mem_iff, mem_firsts_iff hsorted]
    simp only [List.mem_filter]
    by_cases hlocal : Specifier.isProjectLocal imp.specifier = true
    · rw [offsetsOf_captures_program hlocal]
      simp only [hlocal, and_true]
    · exact iff_of_false (fun h => hlocal h.2) fun h => hlocal h.1.2
  -- both lists are in the order of the offsets, which are all different on the right
  refine List.Perm.eq_of_pairwise ?_ ((pairwise_extract _).filter _) (hfirsts.imp Nat.le_of_lt)
    ((List.perm_ext_iff_of_nodup hnodup ?_).mpr hmem)
  · intro a b ha hb hab hba
    exact eq_of_mem_found (hperm.mem_iff.mp (List.mem_of_mem_filter ha))
      (hperm.mem_iff.mp (List.mem_of_mem_filter ((hmem b).mpr hb))) (Nat.le_antisymm hab hba)
  · exact hfirsts.imp fun h heq => absurd h (by rw [heq]; exact Nat.lt_irrefl _)

end ImportScout.Import
