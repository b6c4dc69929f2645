/-! # Texts as bytes

Offsets, file contents and glob patterns are about the UTF-8 bytes of a text. This module gives
the bytes of a text, their number, and two ways back: a strict one that refuses bytes which are
no text, and a lossy one that puts the replacement character in their place.
-/

namespace ImportScout.Text

/-- A run of bytes. -/
abbrev Bytes := List UInt8

/-- The UTF-8 bytes of a list of characters. -/
def bytes (cs : List Char) : Bytes :=
  cs.flatMap String.utf8EncodeChar

/-- The UTF-8 bytes of a text. -/
def bytesOf (s : String) : Bytes :=
  bytes s.toList

/-- How many bytes a list of characters takes. -/
def size (cs : List Char) : Nat :=
  cs.foldl (fun n c => n + c.utf8Size) 0

/-- The text that `content` spells, or nothing if it is not UTF-8. -/
def decode? (content : ByteArray) : Option String :=
  String.fromUTF8? content

/-! ## Lossy decoding -/

/-- The character U+FFFD, which stands for bytes that are no text. -/
def replacement : Char := '\uFFFD'

/-- What a first byte announces: how many more bytes follow it, and the least and the greatest
value of the next one. A byte that starts no character announces nothing. -/
def announced (b : UInt8) : Option (Nat × UInt8 × UInt8) :=
  if b < 0x80 then some (0, 0x80, 0xBF)
  else if 0xC2 ≤ b && b ≤ 0xDF then some (1, 0x80, 0xBF)
  else if b == 0xE0 then some (2, 0xA0, 0xBF)
  else if b == 0xED then some (2, 0x80, 0x9F)
  else if 0xE1 ≤ b && b ≤ 0xEF then some (2, 0x80, 0xBF)
  else if b == 0xF0 then some (3, 0x90, 0xBF)
  else if 0xF1 ≤ b && b ≤ 0xF3 then some (3, 0x80, 0xBF)
  else if b == 0xF4 then some (3, 0x80, 0x8F)
  else none

/-- The payload bits of a first byte that `more` bytes follow. -/
def leadBits (b : UInt8) (more : Nat) : Nat :=
  match more with
  | 0 => b.toNat
  | 1 => b.toNat % 32
  | 2 => b.toNat % 16
  | _ => b.toNat % 8

/-- Decode with the code point so far in `code`, `owed` bytes still to come and the next one due
between `lo` and `hi`. A character that breaks off becomes one replacement character, and the
byte that broke it is read afresh. -/
def decodeFrom (code owed : Nat) (lo hi : UInt8) : Bytes → List Char
  | [] => if owed = 0 then [] else [replacement]
  | b :: bs =>
    if owed ≠ 0 && lo ≤ b && b ≤ hi then
      let code := code * 64 + b.toNat % 64
      if owed = 1 then Char.ofNat code :: decodeFrom 0 0 0 0 bs
      else decodeFrom code (owed - 1) 0x80 0xBF bs
    else
      let rest :=
        match announced b with
        | none => replacement :: decodeFrom 0 0 0 0 bs
        | some (0, _, _) => Char.ofNat b.toNat :: decodeFrom 0 0 0 0 bs
        | some (more, lo, hi) => decodeFrom (leadBits b more) more lo hi bs
      if owed = 0 then rest else replacement :: rest

/-- The text of `content`, each longest run of bytes that begins a character but does not end
it, and each byte that begins none, read as the replacement character. -/
def decodeLossy (content : Bytes) : List Char :=
  decodeFrom 0 0 0 0 content

end ImportScout.Text
