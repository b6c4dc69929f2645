import Mathlib.Data.List.Induction
import Mathlib.Data.List.TakeWhile
import ImportScout.Json.Token

/-! # Words of a JSON text

Reading a word that was written gives the word back, whatever follows it. Only behind a number the
text must stop being one (`Stops`). `tokens?_quote` says so of strings, all of whose characters
survive being escaped, and `tokens?_decimal` of the natural numbers that fit into 64 bits.
-/

namespace ImportScout.Json

open Text

/-! ## Escaping -/

/-- A character is written as a backslash and a letter, by its number, or as it is. -/
theorem escape_cases (c : Char) :
    (∃ d, escape c = ['\\', d] ∧ unescape? d = some c ∧ d ≠ 'u') ∨
      (c.toNat < 0x20 ∧
        escape c = ['\\', 'u', '0', '0', hexDigit (c.toNat / 16), hexDigit (c.toNat % 16)]) ∨
      (escape c = [c] ∧ c ≠ '"' ∧ c ≠ '\\' ∧ ¬c.toNat < 0x20) := by
  by_cases hmark : c ∈ ['"', '\\', '\x08', '\t', '\n', '\x0c', '\r']
  · left
    simp only [List.mem_cons, List.not_mem_nil, or_false] at hmark
    rcases hmark with rfl | rfl | rfl | rfl | rfl | rfl | rfl <;> exact ⟨_, rfl, rfl, by decide⟩
  · right
    simp only [List.mem_cons, List.not_mem_nil, or_false, not_or] at hmark
    obtain ⟨hquote, hbackslash, hb, ht, hn, hf, hr⟩ := hmark
    rw [escape, if_neg hquote, if_neg hbackslash, if_neg hb, if_neg ht, if_neg hn, if_neg hf,
      if_neg hr]
    by_cases hcontrol : c.toNat < 0x20
    · exact .inl ⟨hcontrol, if_pos hcontrol⟩
    · exact .inr ⟨if_neg hcontrol, hquote, hbackslash, hcontrol⟩

theorem hexDigit_ne {n : Nat} (h : n < 16) : hexDigit n ≠ '"' ∧ hexDigit n ≠ '\\' := by
  have : ∀ n < 16, hexDigit n ≠ '"' ∧ hexDigit n ≠ '\\' := by decide
  exact this n h

theorem quotedBody_plain {c : Char} (hquote : c ≠ '"') (hbackslash : c ≠ '\\') (cs : List Char) :
    quotedBody (c :: cs) = (quotedBody cs).map fun (raw, after) => (c :: raw, after) := by
  rw [quotedBody]
  · exact hquote
  · intro d rest h
    exact absurd h hbackslash

theorem quotedBody_escape (c : Char) (cs : List Char) :
    quotedBody (escape c ++ cs) =
      (quotedBody cs).map fun (raw, after) => (escape c ++ raw, after) := by
  rcases escape_cases c with ⟨d, hc, -, -⟩ | ⟨hcontrol, hc⟩ | ⟨hc, hquote, hbackslash, -⟩
  · rw [hc]
    rfl
  · obtain ⟨hquote, hbackslash⟩ := hexDigit_ne (n := c.toNat / 16) (by omega)
    obtain ⟨hquote', hbackslash'⟩ := hexDigit_ne (n := c.toNat % 16) (by omega)
    rw [hc, List.cons_append, List.cons_append, quotedBody]
    simp only [List.cons_append, List.nil_append, quotedBody_plain hquote hbackslash,
      quotedBody_plain hquote' hbackslash', quotedBody_plain (c := '0') (by decide) (by decide),
      Option.map_map]
    rfl
  · rw [hc]
    exact quotedBody_plain hquote hbackslash cs

/-- The closing quote is found behind the escaped characters. -/
theorem quotedBody_escaped (cs rest : List Char) :
    quotedBody (cs.flatMap escape ++ '"' :: rest) = some (cs.flatMap escape, rest) := by
  induction cs with
  | nil => rfl
  | cons c cs ih =>
    rw [List.flatMap_cons, List.append_assoc, quotedBody_escape, ih]
    rfl

theorem unquote?_escape (c : Char) (cs : List Char) :
    unquote? none (escape c ++ cs) = (unquote? none cs).map (c :: ·) := by
  rcases escape_cases c with ⟨d, hc, hd, hu⟩ | ⟨hcontrol, hc⟩ | ⟨hc, -, hbackslash, hcontrol⟩
  · rw [hc]
    simp [unquote?, hd, hu]
  · have hzero : hexValue? '0' = some 0 := rfl
    have hcode : hexNumber? ['0', '0', hexDigit (c.toNat / 16), hexDigit (c.toNat % 16)] =
        some c.toNat := by
      simp [hexNumber?, hzero, hexValue?_hexDigit (n := c.toNat / 16) (by omega),
        hexValue?_hexDigit (n := c.toNat % 16) (by omega)]
      omega
    -- control characters are no halves of others
    have hhigh : isHighHalf c.toNat = false := by simp [isHighHalf]; omega
    have hlow : isLowHalf c.toNat = false := by simp [isLowHalf]; omega
    rw [hc]
    simp [unquote?, hcode, hhigh, hlow]
  · rw [hc]
    simp [unquote?, hbackslash, hcontrol]

theorem unquote?_escaped (cs : List Char) : unquote? none (cs.flatMap escape) = some cs := by
  induction cs with
  | nil => rfl
  | cons c cs ih =>
    rw [List.flatMap_cons, unquote?_escape, ih]
    rfl

/-! ## Numbers -/

theorem decimalValue_concat (digits : List Char) (c : Char) :
    decimalValue (digits ++ [c]) = 10 * decimalValue digits + digitValue c := by
  rw [decimalValue, List.foldl_append]
  rfl

/-- All digits of a number that fits into 64 bits are leading ones. -/
theorem Number.leading_eq {digits : List Char} (h : decimalValue digits < Nat.pow 2 64) :
    leading digits = (decimalValue digits, 0) := by
  induction digits using List.reverseRecOn with
  | nil => rfl
  | append_singleton digits c ih =>
    rw [decimalValue_concat] at h
    rw [leading, List.foldl_append, ← leading, ih (by omega), decimalValue_concat]
    exact if_pos (decide_eq_true h)

theorem Number.isHuge_ofNat {n : Nat} (h : n < Nat.pow 2 64) : (ofNat n).isHuge = false := by
  have hlead : leading (decimal n) = (n, 0) := by
    rw [leading_eq (by rwa [decimalValue_decimal]), decimalValue_decimal]
  simp [isHuge, ofNat, hlead]

theorem digits?_decimal (n : Nat) : digits? (decimal n) = some (decimal n, []) := by
  have hall : ∀ c ∈ decimal n, isDigit c = true := fun c => isDigit_of_mem_decimal
  rw [digits?, List.takeWhile_eq_self_iff.mpr hall, List.dropWhile_eq_nil_iff.mpr hall]
  split
  · rename_i hnil
    exact absurd hnil Nat.toDigits_ne_nil
  · rfl

theorem number?_decimal {n : Nat} (h : n < Nat.pow 2 64) :
    number? (decimal n) = some (.ofNat n) := by
  have hsign : ∀ cs, decimal n ≠ '-' :: cs := fun cs hcs =>
    absurd (isDigit_of_mem_decimal (hcs ▸ List.mem_cons_self)) (by decide)
  have hzero : ((decimal n).length > 1 && (decimal n).head? == some '0') = false := by
    rcases Nat.eq_zero_or_pos n with rfl | hpos
    · rfl
    · simp [head?_decimal_ne hpos]
  rw [number?]
  · simp only [digits?_decimal, hzero, fraction?, exponent?, Option.bind_eq_bind, Option.bind_some]
    have hhuge := Number.isHuge_ofNat h
    rw [Number.ofNat] at hhuge
    simp [hhuge, Number.ofNat]
  · exact hsign

/-! ## Words -/

/-- A text that is no number at its start. -/
def Stops (rest : List Char) : Prop :=
  ∀ c ∈ rest.head?, isNumeric c = false

theorem stops_nil : Stops [] := by simp [Stops]

theorem stops_cons {c : Char} (h : isNumeric c = false) (cs : List Char) : Stops (c :: cs) := by
  simp [Stops, h]

theorem Stops.takeWhile_append {cs rest : List Char} (h : Stops rest)
    (hnumeric : ∀ c ∈ cs, isNumeric c = true) : (cs ++ rest).takeWhile isNumeric = cs := by
  rw [List.takeWhile_append_of_pos hnumeric]
  cases rest with
  | nil => exact List.append_nil cs
  | cons c rest => simp [h c rfl]

theorem Stops.dropWhile_append {cs rest : List Char} (h : Stops rest)
    (hnumeric : ∀ c ∈ cs, isNumeric c = true) : (cs ++ rest).dropWhile isNumeric = rest := by
  rw [List.dropWhile_append_of_pos hnumeric]
  cases rest with
  | nil => rfl
  | cons c rest => simp [h c rfl]

theorem tokens?_blank {c : Char} (h : c = ' ' ∨ c = '\n') (cs : List Char) :
    tokens? (c :: cs) = tokens? cs := by
  rw [tokens?.eq_def]
  rcases h with rfl | rfl <;> rfl

/-- Every punctuation mark passes a check that those there are pass. -/
theorem of_punctuation? {p : Char → Bool} (hall : ['[', ']', '\x7b', '\x7d', ':', ','].all p = true)
    {c : Char} {t : Token} (h : punctuation? c = some t) : p c = true := by
  have hmem : c ∈ ['[', ']', '\x7b', '\x7d', ':', ','] := by
    rw [punctuation?.eq_def] at h
    split at h <;> simp_all
  exact List.all_eq_true.mp hall c hmem

theorem tokens?_mark {c : Char} {t : Token} (h : punctuation? c = some t) (cs : List Char) :
    tokens? (c :: cs) = (tokens? cs).map (t :: ·) := by
  have hblank : (!(c = ' ' || c = '\t' || c = '\n' || c = '\r')) = true :=
    of_punctuation? (p := fun d => !(d = ' ' || d = '\t' || d = '\n' || d = '\r')) rfl h
  rw [tokens?.eq_def]
  dsimp only
  rw [if_neg (by simpa using hblank), h]

theorem tokens?_quote (s : String) (rest : List Char) :
    tokens? (quote s ++ rest) = (tokens? rest).map (.string s :: ·) := by
  have hbody := quotedBody_escaped s.toList rest
  rw [quote, List.cons_append, List.append_assoc, List.singleton_append, tokens?.eq_def]
  dsimp only
  have hmark : punctuation? '"' = none := rfl
  rw [if_neg (by decide), hmark]
  dsimp only
  rw [if_pos rfl]
  split
  · rename_i hnone
    rw [hbody] at hnone
    exact absurd hnone (Option.some_ne_none _)
  · rename_i raw after hsome
    rw [hbody] at hsome
    obtain ⟨rfl, rfl⟩ := Prod.mk.inj (Option.some.inj hsome)
    rw [unquote?_escaped]
    dsimp only
    rw [String.ofList_toList]

theorem tokens?_null (rest : List Char) :
    tokens? (Token.null.text ++ rest) = (tokens? rest).map (.null :: ·) := by
  rw [tokens?.eq_def]
  rfl

theorem tokens?_bool (b : Bool) (rest : List Char) :
    tokens? ((Token.bool b).text ++ rest) = (tokens? rest).map (.bool b :: ·) := by
  rw [tokens?.eq_def]
  cases b <;> rfl

theorem punctuation?_eq_none_of_isDigit {c : Char} (h : isDigit c = true) :
    punctuation? c = none := by
  rw [Option.eq_none_iff_forall_not_mem]
  intro t ht
  have hdigit : (!isDigit c) = true := of_punctuation? (p := fun d => !isDigit d) rfl ht
  rw [h] at hdigit
  exact Bool.false_ne_true hdigit

theorem tokens?_decimal {n : Nat} (h : n < Nat.pow 2 64) {rest : List Char} (hrest : Stops rest) :
    tokens? (decimal n ++ rest) = (tokens? rest).map (.number (.ofNat n) :: ·) := by
  have hread := number?_decimal h
  have hall : ∀ c ∈ decimal n, isDigit c = true := fun c => isDigit_of_mem_decimal
  obtain ⟨c, cs, hcons⟩ := List.exists_cons_of_ne_nil (Nat.toDigits_ne_nil (n := n) (b := 10))
  rw [← decimal] at hcons
  rw [hcons] at hread hall ⊢
  have hdigit : isDigit c = true := hall c List.mem_cons_self
  have hother {d : Char} (hd : isDigit d = false) : c ≠ d := by
    rintro rfl
    exact Bool.false_ne_true (hd.symm.trans hdigit)
  have hnumeric : ∀ d ∈ cs, isNumeric d = true := fun d hd => by
    simp [isNumeric, hall d (List.mem_cons_of_mem c hd)]
  have hblank : ¬(c = ' ' || c = '\t' || c = '\n' || c = '\r') = true := by
    simp [hother (d := ' ') rfl, hother (d := '\t') rfl, hother (d := '\n') rfl,
      hother (d := '\r') rfl]
  rw [List.cons_append, tokens?.eq_def]
  dsimp only
  rw [if_neg hblank, punctuation?_eq_none_of_isDigit hdigit]
  dsimp only
  rw [if_neg (hother rfl), if_pos (by simp [hdigit]), hrest.takeWhile_append hnumeric,
    hrest.dropWhile_append hnumeric, hread]

end ImportScout.Json
