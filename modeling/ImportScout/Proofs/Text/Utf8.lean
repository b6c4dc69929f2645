import Mathlib.Data.List.Lex
import Mathlib.Data.String.Basic
import ImportScout.Text.Utf8

/-! # The order of bytes

The bytes of a text are those of its characters one after the other (`bytes_append`), and UTF-8
keeps the order of texts: a text that comes before another one, character by character, comes before
it byte by byte (`bytesOf_lt_bytesOf`). So different texts have different bytes (`bytesOf_inj`).
-/

namespace ImportScout.Text

theorem bytes_append (front back : List Char) : bytes (front ++ back) = bytes front ++ bytes back :=
  List.flatMap_append

theorem ofNat_cons_lt_iff {a b : ℕ} (ha : a < 256) (hb : b < 256) (xs ys : Bytes) :
    UInt8.ofNat a :: xs < UInt8.ofNat b :: ys ↔ a < b ∨ (a = b ∧ xs < ys) := by
  rw [List.cons_lt_cons_iff, UInt8.lt_iff_toNat_lt, ← UInt8.toNat_inj,
    UInt8.toNat_ofNat_of_lt' ha, UInt8.toNat_ofNat_of_lt' hb]

/-- Where two texts first differ, the bytes of the smaller character come first. -/
theorem utf8EncodeChar_append_lt {c d : Char} (h : c < d) (xs ys : Bytes) :
    String.utf8EncodeChar c ++ xs < String.utf8EncodeChar d ++ ys := by
  have hval : c.val.toNat < d.val.toNat := h
  have hd : d.val.toNat < 0x110000 := by
    rcases d.valid with hlow | hhigh
    · exact lt_trans hlow (by decide)
    · exact hhigh.2
  -- the bytes then are digits to the base 64, the first one with the number of digits on top
  have hshift (v : ℕ) : v / 4096 = v / 64 / 64 ∧ v / 262144 = v / 64 / 64 / 64 := by
    omega
  rw [String.utf8EncodeChar, String.utf8EncodeChar]
  generalize c.val.toNat = v at *
  generalize d.val.toNat = w at *
  rw [(hshift v).1, (hshift v).2, (hshift w).1, (hshift w).2]
  split_ifs <;>
    simp (disch := omega) only [List.cons_append, List.nil_append, ofNat_cons_lt_iff] <;>
    omega

theorem bytes_lt_bytes {cs ds : List Char} (h : cs < ds) : bytes cs < bytes ds := by
  induction cs generalizing ds with
  | nil =>
    cases ds with
    | nil => exact absurd h (List.not_lt_nil _)
    | cons d ds =>
      obtain ⟨b, bs, hd⟩ := List.exists_cons_of_ne_nil (String.utf8EncodeChar_ne_nil (c := d))
      rw [bytes, bytes, List.flatMap_nil, List.flatMap_cons, hd]
      exact List.nil_lt_cons _ _
  | cons c cs ih =>
    cases ds with
    | nil => exact absurd h (List.not_lt_nil _)
    | cons d ds =>
      rw [bytes, bytes, List.flatMap_cons, List.flatMap_cons]
      rcases List.cons_lt_cons_iff.mp h with hlt | ⟨rfl, hlt⟩
      · exact utf8EncodeChar_append_lt hlt _ _
      · exact List.append_left_lt (ih hlt)

/-- UTF-8 keeps the order of texts. -/
theorem bytesOf_lt_bytesOf {p q : String} (h : p < q) : bytesOf p < bytesOf q :=
  bytes_lt_bytes (String.lt_iff_toList_lt.mp h)

theorem bytesOf_inj {p q : String} : bytesOf p = bytesOf q ↔ p = q := by
  refine ⟨fun h => ?_, congrArg bytesOf⟩
  rcases lt_trichotomy p q with hlt | heq | hlt
  · exact absurd (h ▸ bytesOf_lt_bytesOf hlt) (List.lt_irrefl _)
  · exact heq
  · exact absurd (h ▸ bytesOf_lt_bytesOf hlt) (List.lt_irrefl _)

end ImportScout.Text
