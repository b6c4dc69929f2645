import ImportScout.Toml.Value
import ImportScout.Text.Decimal
/-! # Quoted text in TOML

Text stands between double quotes, where backslashes escape, or between single quotes, where
nothing does. Three quotes open text of several lines, whose first line break does not count.
-/

namespace ImportScout.Toml

open Text

/-- The character of a code point, if it is one. -/
def charAt? (code : Nat) : Option Char :=
  if code < 0xD800 || (0xE000 ≤ code && code < 0x110000) then some (Char.ofNat code) else none

/-- The escape after a backslash, and what follows it. -/
def escape? : Reader Char
  | 'b' :: cs => some ('\x08', cs)
  | 't' :: cs => some ('\t', cs)
  | 'n' :: cs => some ('\n', cs)
  | 'f' :: cs => some ('\x0c', cs)
  | 'r' :: cs => some ('\r', cs)
  | '"' :: cs => some ('"', cs)
  | '\\' :: cs => some ('\\', cs)
  | 'u' :: cs => code 4 cs
  | 'U' :: cs => code 8 cs
  | _ => none
where
  /-- The code point in so many hexadecimal digits. -/
  code (digits : Nat) (cs : List Char) : Option (Char × List Char) :=
    if digits ≤ cs.length then
      ((hexNumber? (cs.take digits)).bind charAt?).map fun c => (c, cs.drop digits)
    else none

/-- An escape takes at least one character. -/
theorem length_lt_of_escape? {cs rest : List Char} {c : Char} (h : escape? cs = some (c, rest)) :
    rest.length < cs.length := by
  unfold escape? at h
  split at h
  all_goals first
    | (simp only [Option.some.injEq, Prod.mk.injEq] at h; simp [← h.2])
    | (simp only [escape?.code] at h
       split at h
       · obtain ⟨d, -, heq⟩ := Option.map_eq_some_iff.1 h
         obtain ⟨-, rfl⟩ := Prod.mk.inj heq
         simp only [List.length_drop, List.length_cons]
         omega
       · simp at h)
    | simp at h

/-! ## Double quotes -/

/-- The text up to the closing double quote on the same line. -/
def basicText : Reader (List Char)
  | [] => none
  | '"' :: cs => some ([], cs)
  | '\\' :: cs =>
    match h : escape? cs with
    | none => none
    | some (c, rest) =>
      have := length_lt_of_escape? h
      (basicText rest).map fun (text, after) => (c :: text, after)
  | c :: cs =>
    if isPlain c then (basicText cs).map fun (text, after) => (c :: text, after) else none
  termination_by cs => cs.length

/-- Whether nothing but spaces stands before the next line break. -/
def atLineEnd (cs : List Char) : Bool :=
  (newline? (skipSpaces cs)).isSome

/-- The text up to three closing double quotes, which one or two quotes of the text may precede.
A backslash at the end of a line takes away the break and all blanks after it; while `skips` is
set, such blanks are being taken away. -/
def longBasicText (skips : Bool) : Reader (List Char)
  | [] => none
  | c :: cs =>
    if skips && isSpace c then longBasicText true cs
    else
      match c, cs with
      | '\n', cs =>
        if skips then longBasicText true cs
        else (longBasicText false cs).map fun (text, after) => ('\n' :: text, after)
      | '\r', '\n' :: cs =>
        if skips then longBasicText true cs
        else (longBasicText false cs).map fun (text, after) => ('\n' :: text, after)
      | '"', '"' :: '"' :: '"' :: '"' :: after => some (['"', '"'], after)
      | '"', '"' :: '"' :: '"' :: after => some (['"'], after)
      | '"', '"' :: '"' :: after => some ([], after)
      | '\\', cs =>
        if atLineEnd cs then longBasicText true cs
        else
          match h : escape? cs with
          | none => none
          | some (c, rest) =>
            have := length_lt_of_escape? h
            (longBasicText false rest).map fun (text, after) => (c :: text, after)
      | c, cs =>
        if isPlain c then (longBasicText false cs).map fun (text, after) => (c :: text, after)
        else none
  termination_by cs => cs.length

/-! ## Single quotes -/

/-- The text up to the closing single quote on the same line. -/
def literalText : Reader (List Char)
  | [] => none
  | '\'' :: cs => some ([], cs)
  | c :: cs =>
    if isPlain c then (literalText cs).map fun (text, after) => (c :: text, after) else none

/-- The text up to three closing single quotes, which one or two quotes of the text may precede. -/
def longLiteralText : Reader (List Char)
  | [] => none
  | '\'' :: '\'' :: '\'' :: '\'' :: '\'' :: after => some (['\'', '\''], after)
  | '\'' :: '\'' :: '\'' :: '\'' :: after => some (['\''], after)
  | '\'' :: '\'' :: '\'' :: after => some ([], after)
  | '\r' :: '\n' :: cs => (longLiteralText cs).map fun (text, after) => ('\n' :: text, after)
  | c :: cs =>
    if isPlain c || c == '\n' then
      (longLiteralText cs).map fun (text, after) => (c :: text, after)
    else none

/-! ## Either -/

/-- `cs` without the line break that it starts with, if it does. -/
def dropNewline (cs : List Char) : List Char :=
  (newline? cs).getD cs

/-- A quoted text on one line. -/
def shortQuoted : Reader String
  | '"' :: cs => (basicText cs).map fun (text, after) => (String.ofList text, after)
  | '\'' :: cs => (literalText cs).map fun (text, after) => (String.ofList text, after)
  | _ => none

/-- A quoted text on one line or several. -/
def quoted : Reader String
  | '"' :: '"' :: '"' :: cs =>
    (longBasicText false (dropNewline cs)).map fun (text, after) => (String.ofList text, after)
  | '\'' :: '\'' :: '\'' :: cs =>
    (longLiteralText (dropNewline cs)).map fun (text, after) => (String.ofList text, after)
  | cs => shortQuoted cs

end ImportScout.Toml
