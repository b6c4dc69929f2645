import ImportScout.Proofs.Text.Utf8

/-! # Decoding bytes

The bytes of a character are a first byte and as many more as it announces (`exists_announced`), and
any bytes of this shape are those of a character (`utf8EncodeChar_codeOf`). So decoding gives a text
back from its bytes (`decodeLossy_bytes`). Whatever the bytes are, each character that decoding
gives stands for its own bytes or is the replacement character (`reads_decodeLossy`).
-/

namespace ImportScout.Text

/-! ## The bytes of a character -/

theorem utf8EncodeChar_inj {c d : Char} :
    String.utf8EncodeChar c = String.utf8EncodeChar d ↔ c = d := by
  refine ⟨fun h => ?_, congrArg _⟩
  have hbytes : bytesOf (String.singleton c) = bytesOf (String.singleton d) := by
    simpa [bytesOf, bytes] using h
  simpa using congrArg String.toList (bytesOf_inj.mp hbytes)

/-- What a byte announces, told by its value. -/
theorem announced_eq (a : UInt8) :
    announced a =
      if a.toNat < 0x80 then some (0, 0x80, 0xBF)
      else if 0xC2 ≤ a.toNat ∧ a.toNat ≤ 0xDF then some (1, 0x80, 0xBF)
      else if 0xE0 ≤ a.toNat ∧ a.toNat ≤ 0xEF then
        some (2, if a.toNat = 0xE0 then 0xA0 else 0x80, if a.toNat = 0xED then 0x9F else 0xBF)
      else if 0xF0 ≤ a.toNat ∧ a.toNat ≤ 0xF4 then
        some (3, if a.toNat = 0xF0 then 0x90 else 0x80, if a.toNat = 0xF4 then 0x8F else 0xBF)
      else none := by
  simp only [announced, UInt8.lt_iff_toNat_lt, UInt8.le_iff_toNat_le, beq_iff_eq, ← UInt8.toNat_inj,
    Bool.and_eq_true, decide_eq_true_eq, UInt8.reduceToNat]
  generalize a.toNat = n
  split_ifs <;> first | rfl | omega

/-- Whether `bs` are the bytes that a character still owes, the first one between `lo` and `hi`. -/
def Pays : (owed : ℕ) → (lo hi : UInt8) → (bs : Bytes) → Prop
  | 0, _, _, bs => bs = []
  | owed + 1, lo, hi, bs =>
    ∃ b rest, bs = b :: rest ∧ (lo.toNat ≤ b.toNat ∧ b.toNat ≤ hi.toNat) ∧ Pays owed 0x80 0xBF rest

/-- A character is a byte and what this byte announces. -/
theorem exists_announced (c : Char) :
    ∃ a rest more lo hi, String.utf8EncodeChar c = a :: rest ∧ announced a = some (more, lo, hi) ∧
      Pays more lo hi rest := by
  have hvalid : c.val.toNat < 0xD800 ∨ 0xDFFF < c.val.toNat ∧ c.val.toNat < 0x110000 := c.valid
  have htoNat {n : ℕ} (hn : n < 256) : (UInt8.ofNat n).toNat = n := UInt8.toNat_ofNat_of_lt' hn
  rw [String.utf8EncodeChar]
  generalize c.val.toNat = v at *
  split_ifs
  · have hfirst := announced_eq (UInt8.ofNat v)
    rw [htoNat (by omega), if_pos (by omega)] at hfirst
    exact ⟨_, _, _, _, _, rfl, hfirst, rfl⟩
  · have hfirst := announced_eq (UInt8.ofNat (v / 64 % 32 + 192))
    rw [htoNat (by omega), if_neg (by omega), if_pos (by omega)] at hfirst
    refine ⟨_, _, _, _, _, rfl, hfirst, _, _, rfl, ?_, rfl⟩
    simp (disch := omega) only [htoNat, UInt8.reduceToNat]
    omega
  · have hfirst := announced_eq (UInt8.ofNat (v / 4096 % 16 + 224))
    rw [htoNat (by omega), if_neg (by omega), if_neg (by omega), if_pos (by omega)] at hfirst
    refine ⟨_, _, _, _, _, rfl, hfirst, _, _, rfl, ?_, _, _, rfl, ?_, rfl⟩ <;>
      simp (disch := omega) only [htoNat, apply_ite UInt8.toNat, UInt8.reduceToNat]
    · split_ifs <;> omega
    · omega
  · have hfirst := announced_eq (UInt8.ofNat (v / 262144 % 8 + 240))
    rw [htoNat (by omega), if_neg (by omega), if_neg (by omega), if_neg (by omega),
      if_pos (by omega)] at hfirst
    refine ⟨_, _, _, _, _, rfl, hfirst, _, _, rfl, ?_, _, _, rfl, ?_, _, _, rfl, ?_, rfl⟩ <;>
      simp (disch := omega) only [htoNat, apply_ite UInt8.toNat, UInt8.reduceToNat]
    · split_ifs <;> omega
    · omega
    · omega

/-- The code point with the payload bits of `bs` behind `code`. -/
def codeOf (code : ℕ) (bs : Bytes) : ℕ :=
  bs.foldl (fun code b => code * 64 + b.toNat % 64) code

section Shapes

variable {a b c d : UInt8}

theorem toNat_val_ofNat {n : ℕ} (h : n < 0xD800 ∨ 0xDFFF < n ∧ n < 0x110000) :
    (Char.ofNat n).val.toNat = n := by
  rw [Char.ofNat, dif_pos (show n.isValidChar from h)]
  rfl

theorem ofNat_eq_iff {n : ℕ} (hn : n < 256) : UInt8.ofNat n = a ↔ n = a.toNat := by
  rw [← UInt8.toNat_inj, UInt8.toNat_ofNat_of_lt' hn]

theorem utf8EncodeChar_one (ha : a.toNat < 0x80) :
    String.utf8EncodeChar (Char.ofNat a.toNat) = [a] := by
  rw [String.utf8EncodeChar, toNat_val_ofNat (by omega), if_pos (by omega), UInt8.ofNat_toNat]

variable (hb : 0x80 ≤ b.toNat ∧ b.toNat ≤ 0xBF) (hc : 0x80 ≤ c.toNat ∧ c.toNat ≤ 0xBF)
  (hd : 0x80 ≤ d.toNat ∧ d.toNat ≤ 0xBF)

include hb

theorem utf8EncodeChar_two (ha : 0xC2 ≤ a.toNat ∧ a.toNat ≤ 0xDF) :
    String.utf8EncodeChar (Char.ofNat (codeOf (a.toNat % 32) [b])) = [a, b] := by
  simp only [codeOf, List.foldl_cons, List.foldl_nil]
  rw [String.utf8EncodeChar, toNat_val_ofNat (by omega), if_neg (by omega), if_pos (by omega)]
  simp (disch := omega) only [List.cons.injEq, ofNat_eq_iff, and_true]
  omega

include hc

theorem utf8EncodeChar_three (ha : 0xE0 ≤ a.toNat ∧ a.toNat ≤ 0xEF)
    (hlow : a.toNat = 0xE0 → 0xA0 ≤ b.toNat) (hsurrogate : a.toNat = 0xED → b.toNat ≤ 0x9F) :
    String.utf8EncodeChar (Char.ofNat (codeOf (a.toNat % 16) [b, c])) = [a, b, c] := by
  simp only [codeOf, List.foldl_cons, List.foldl_nil]
  rw [String.utf8EncodeChar, toNat_val_ofNat (by omega), if_neg (by omega), if_neg (by omega),
    if_pos (by omega)]
  simp (disch := omega) only [List.cons.injEq, ofNat_eq_iff, and_true]
  omega

include hd

theorem utf8EncodeChar_four (ha : 0xF0 ≤ a.toNat ∧ a.toNat ≤ 0xF4)
    (hlow : a.toNat = 0xF0 → 0x90 ≤ b.toNat) (hhigh : a.toNat = 0xF4 → b.toNat ≤ 0x8F) :
    String.utf8EncodeChar (Char.ofNat (codeOf (a.toNat % 8) [b, c, d])) = [a, b, c, d] := by
  simp only [codeOf, List.foldl_cons, List.foldl_nil]
  rw [String.utf8EncodeChar, toNat_val_ofNat (by omega), if_neg (by omega), if_neg (by omega),
    if_neg (by omega)]
  simp (disch := omega) only [List.cons.injEq, ofNat_eq_iff, and_true]
  omega

end Shapes

/-- A byte and what it announces are the bytes of a character. -/
theorem utf8EncodeChar_codeOf {a lo hi : UInt8} {more : ℕ} {rest : Bytes}
    (h : announced a = some (more, lo, hi)) (hrest : Pays more lo hi rest) :
    String.utf8EncodeChar (Char.ofNat (codeOf (leadBits a more) rest)) = a :: rest := by
  rw [announced_eq] at h
  split at h
  · rename_i ha
    cases h
    obtain rfl := hrest
    exact utf8EncodeChar_one ha
  split at h
  · rename_i ha
    cases h
    obtain ⟨b, _, rfl, hb, rfl⟩ := hrest
    exact utf8EncodeChar_two hb ha
  split at h
  · rename_i ha
    cases h
    obtain ⟨b, _, rfl, hb, c, _, rfl, hc, rfl⟩ := hrest
    simp only [apply_ite UInt8.toNat, UInt8.reduceToNat] at hb
    split_ifs at hb <;> exact utf8EncodeChar_three (by omega) hc ha (by omega) (by omega)
  split at h
  · rename_i ha
    cases h
    obtain ⟨b, _, rfl, hb, c, _, rfl, hc, d, _, rfl, hd, rfl⟩ := hrest
    simp only [apply_ite UInt8.toNat, UInt8.reduceToNat] at hb
    split_ifs at hb <;> exact utf8EncodeChar_four (by omega) hc hd ha (by omega) (by omega)
  · exact absurd h (by simp)

/-- An ASCII byte stands for its own character and for no part of another one. -/
theorem mem_utf8EncodeChar_iff {a : UInt8} (ha : a.toNat < 0x80) {c : Char} :
    a ∈ String.utf8EncodeChar c ↔ c = Char.ofNat a.toNat := by
  constructor
  · contrapose!
    intro hc
    have hval : c.val.toNat ≠ a.toNat := by
      rintro hval
      exact hc (by rw [← hval]; exact (Char.ofNat_toNat c).symm)
    rw [String.utf8EncodeChar]
    generalize c.val.toNat = v at hval
    split_ifs <;> simp [← UInt8.toNat_inj] <;> omega
  · rintro rfl
    rw [utf8EncodeChar_one ha]
    exact List.mem_singleton_self a

/-! ## Decoding -/

/-- Bytes that are owed come to one character. -/
theorem decodeFrom_append {code owed : ℕ} {lo hi : UInt8} {bs : Bytes} (howed : owed ≠ 0)
    (h : Pays owed lo hi bs) (rest : Bytes) :
    decodeFrom code owed lo hi (bs ++ rest) =
      Char.ofNat (codeOf code bs) :: decodeFrom 0 0 0 0 rest := by
  induction owed generalizing code lo hi bs with
  | zero => exact absurd rfl howed
  | succ owed ih =>
    obtain ⟨b, bs, rfl, hb, hbs⟩ := h
    rw [← UInt8.le_iff_toNat_le, ← UInt8.le_iff_toNat_le] at hb
    rw [List.cons_append, decodeFrom]
    simp only [hb.1, hb.2, ne_eq, howed, not_false_eq_true, decide_true, Bool.and_true, if_true,
      Nat.add_eq_right, Nat.add_sub_cancel]
    split_ifs with hlast
    · subst hlast
      obtain rfl := hbs
      rfl
    · exact ih hlast hbs

/-- The bytes of a character are decoded to this character. -/
theorem decodeFrom_utf8EncodeChar (c : Char) (rest : Bytes) :
    decodeFrom 0 0 0 0 (String.utf8EncodeChar c ++ rest) = c :: decodeFrom 0 0 0 0 rest := by
  obtain ⟨a, more, owed, lo, hi, hbytes, hannounced, hpays⟩ := exists_announced c
  have hcode := utf8EncodeChar_codeOf hannounced hpays
  rw [← hbytes, utf8EncodeChar_inj] at hcode
  rw [hbytes, List.cons_append, decodeFrom, hannounced]
  cases owed with
  | zero =>
    obtain rfl := hpays
    exact congrArg (· :: _) hcode
  | succ owed =>
    simp [decodeFrom_append owed.succ_ne_zero hpays, hcode]

/-- The bytes of a text are decoded to this text. -/
theorem decodeLossy_bytes (cs : List Char) : decodeLossy (bytes cs) = cs := by
  induction cs with
  | nil => rfl
  | cons c cs ih =>
    rw [decodeLossy] at ih
    rw [bytes, List.flatMap_cons, decodeLossy, decodeFrom_utf8EncodeChar, ← bytes, ih]

/-- Whether the characters `cs` spell `bs` one after the other, where the replacement character
stands for any bytes. -/
inductive Reads : List Char → Bytes → Prop
  | nil : Reads [] []
  | char {cs : List Char} {bs : Bytes} (c : Char) (h : Reads cs bs) :
      Reads (c :: cs) (String.utf8EncodeChar c ++ bs)
  | broken {cs : List Char} {bs : Bytes} (skipped : Bytes) (h : Reads cs bs) :
      Reads (replacement :: cs) (skipped ++ bs)

/-- Whether `start` begins a character of which so many bytes are owed: it has come to `code`, and
whatever pays what is owed makes it a character. -/
def Begun (start : Bytes) (code owed : ℕ) (lo hi : UInt8) : Prop :=
  if owed = 0 then start = []
  else ∀ bs, Pays owed lo hi bs → String.utf8EncodeChar (Char.ofNat (codeOf code bs)) = start ++ bs

theorem Begun.next {start : Bytes} {code owed : ℕ} {lo hi b : UInt8}
    (h : Begun start code (owed + 2) lo hi) (hb : lo.toNat ≤ b.toNat ∧ b.toNat ≤ hi.toNat) :
    Begun (start ++ [b]) (code * 64 + b.toNat % 64) (owed + 1) 0x80 0xBF := by
  intro bs hbs
  rw [List.append_assoc]
  exact h (b :: bs) ⟨b, bs, rfl, hb, hbs⟩

theorem begun_of_announced {b lo hi : UInt8} {more : ℕ}
    (h : announced b = some (more + 1, lo, hi)) :
    Begun [b] (leadBits b (more + 1)) (more + 1) lo hi :=
  fun _ hrest => utf8EncodeChar_codeOf h hrest

/-- A byte that is not owed is read afresh. -/
theorem decodeFrom_afresh {code owed : ℕ} {lo hi b : UInt8} (howed : owed ≠ 0)
    (hb : ¬(lo.toNat ≤ b.toNat ∧ b.toNat ≤ hi.toNat)) (bs : Bytes) :
    decodeFrom code owed lo hi (b :: bs) = replacement :: decodeFrom 0 0 0 0 (b :: bs) := by
  rw [← UInt8.le_iff_toNat_le, ← UInt8.le_iff_toNat_le] at hb
  simp [decodeFrom, howed, hb]

/-- Decoding reads the bytes. -/
theorem reads_decodeFrom {start : Bytes} {code owed : ℕ} {lo hi : UInt8}
    (h : Begun start code owed lo hi) (bs : Bytes) :
    Reads (decodeFrom code owed lo hi bs) (start ++ bs) := by
  induction bs generalizing start code owed lo hi with
  | nil =>
    rw [decodeFrom]
    split_ifs with howed
    · subst howed
      obtain rfl := h
      exact .nil
    · exact .broken start .nil
  | cons b bs ih =>
    have hrest : Reads (decodeFrom 0 0 0 0 bs) bs := @ih [] 0 0 0 0 rfl
    have hafresh : Reads (decodeFrom 0 0 0 0 (b :: bs)) (b :: bs) := by
      simp only [decodeFrom, ne_eq, not_true_eq_false, decide_false, Bool.false_and,
        Bool.false_eq_true, if_false, if_true]
      rcases hannounced : announced b with _ | ⟨_ | more, lo', hi'⟩
      · exact .broken [b] hrest
      · have hchar := hrest.char (Char.ofNat b.toNat)
        rwa [show String.utf8EncodeChar (Char.ofNat b.toNat) = [b] from
          utf8EncodeChar_codeOf hannounced rfl] at hchar
      · exact ih (begun_of_announced hannounced)
    obtain _ | owed := owed
    · obtain rfl := h
      simpa [decodeFrom] using hafresh
    by_cases hb : lo.toNat ≤ b.toNat ∧ b.toNat ≤ hi.toNat
    · -- the byte is owed, and it is the last one or more are to come
      have hpaid : (lo ≤ b) ∧ b ≤ hi := hb.imp UInt8.le_iff_toNat_le.mpr UInt8.le_iff_toNat_le.mpr
      obtain _ | owed := owed
      · have hchar := hrest.char (Char.ofNat (code * 64 + b.toNat % 64))
        rw [show String.utf8EncodeChar (Char.ofNat (code * 64 + b.toNat % 64)) = start ++ [b] from
          h [b] ⟨b, [], rfl, hb, rfl⟩, List.append_assoc] at hchar
        simpa [decodeFrom, hpaid] using hchar
      · have hmore := ih (h.next hb)
        rw [List.append_assoc] at hmore
        simpa [decodeFrom, hpaid] using hmore
    · rw [decodeFrom_afresh owed.succ_ne_zero hb]
      exact .broken start hafresh

theorem reads_decodeLossy (bs : Bytes) : Reads (decodeLossy bs) bs := by
  have hnothing : Begun [] 0 0 0 0 := rfl
  exact reads_decodeFrom hnothing bs

theorem Reads.bytes_eq {cs : List Char} {bs : Bytes} (h : Reads cs bs) (hno : replacement ∉ cs) :
    bytes cs = bs := by
  induction h with
  | nil => rfl
  | char c _ ih =>
    rw [bytes, List.flatMap_cons, ← bytes, ih fun hmem => hno (List.mem_cons_of_mem c hmem)]
  | broken => exact absurd List.mem_cons_self hno

theorem Reads.subset {cs : List Char} {bs : Bytes} (h : Reads cs bs) {c : Char} (hc : c ∈ cs)
    (hne : c ≠ replacement) : String.utf8EncodeChar c ⊆ bs := by
  induction h with
  | nil => exact absurd hc List.not_mem_nil
  | char d _ ih =>
    rcases List.mem_cons.mp hc with rfl | hc
    · exact List.subset_append_left _ _
    · exact List.subset_append_of_subset_right _ (ih hc)
  | broken skipped _ ih =>
    exact List.subset_append_of_subset_right skipped (ih ((List.mem_cons.mp hc).resolve_left hne))

end ImportScout.Text
