import ImportScout.Json.Value
/-! # JSON tokens

The words of a JSON text: punctuation, literals, numbers and quoted strings. `Token.text` writes
one, `tokens?` reads a whole text, skipping the four blanks that JSON knows.
-/

namespace ImportScout.Json

open Text

/-- A word of a JSON text. -/
inductive Token where
  | openArray
  | closeArray
  | openObject
  | closeObject
  | colon
  | comma
  | null
  | bool (b : Bool)
  | number (n : Number)
  | string (s : String)
  deriving DecidableEq, Repr

/-! ## Writing -/

/-- A character inside quotes: quotes, backslashes and control characters are escaped. -/
def escape (c : Char) : List Char :=
  if c = '"' then ['\\', '"']
  else if c = '\\' then ['\\', '\\']
  else if c = '\x08' then ['\\', 'b']
  else if c = '\t' then ['\\', 't']
  else if c = '\n' then ['\\', 'n']
  else if c = '\x0c' then ['\\', 'f']
  else if c = '\r' then ['\\', 'r']
  else if c.toNat < 0x20 then
    ['\\', 'u', '0', '0', hexDigit (c.toNat / 16), hexDigit (c.toNat % 16)]
  else [c]

/-- A quoted string. -/
def quote (s : String) : List Char :=
  '"' :: (s.toList.flatMap escape ++ ['"'])

/-- A number as it is written. -/
def Number.text (n : Number) : List Char :=
  (if n.negative then ['-'] else []) ++ n.whole ++
    (match n.fraction with
      | none => []
      | some digits => '.' :: digits) ++
    (match n.exponent with
      | none => []
      | some (negative, digits) => 'e' :: ((if negative then ['-'] else []) ++ digits))

/-- A word as it is written. -/
def Token.text : Token → List Char
  | openArray => ['[']
  | closeArray => [']']
  | openObject => ['\x7b']
  | closeObject => ['\x7d']
  | colon => [':']
  | comma => [',']
  | null => "null".toList
  | bool true => "true".toList
  | bool false => "false".toList
  | number n => n.text
  | string s => quote s

/-! ## Reading -/

/-- The raw text up to the closing quote, and what follows it. -/
def quotedBody : List Char → Option (List Char × List Char)
  | [] => none
  | '"' :: rest => some ([], rest)
  | '\\' :: c :: rest => (quotedBody rest).map fun (raw, after) => ('\\' :: c :: raw, after)
  | c :: rest => (quotedBody rest).map fun (raw, after) => (c :: raw, after)

/-- What follows a closing quote is shorter than what the quote closes. -/
theorem length_lt_of_quotedBody {cs raw after : List Char}
    (h : quotedBody cs = some (raw, after)) : after.length < cs.length := by
  fun_induction quotedBody cs generalizing raw after with
  | case1 => simp at h
  | case2 rest => simp_all
  | case3 c rest ih =>
    obtain ⟨⟨raw', after'⟩, h', heq⟩ := Option.map_eq_some_iff.1 h
    obtain ⟨-, rfl⟩ := Prod.mk.inj heq
    have := ih h'
    simp only [List.length_cons]
    omega
  | case4 c rest _ _ ih =>
    obtain ⟨⟨raw', after'⟩, h', heq⟩ := Option.map_eq_some_iff.1 h
    obtain ⟨-, rfl⟩ := Prod.mk.inj heq
    have := ih h'
    simp only [List.length_cons]
    omega

/-- The character that a letter after a backslash stands for. -/
def unescape? : Char → Option Char
  | '"' => some '"'
  | '\\' => some '\\'
  | '/' => some '/'
  | 'b' => some '\x08'
  | 'f' => some '\x0c'
  | 'n' => some '\n'
  | 'r' => some '\r'
  | 't' => some '\t'
  | _ => none

/-- Whether a 16-bit unit is the first or the second half of a character. -/
def isHighHalf (unit : Nat) : Bool := 0xD800 ≤ unit && unit < 0xDC00

/-- Whether a 16-bit unit is the second half of a character. -/
def isLowHalf (unit : Nat) : Bool := 0xDC00 ≤ unit && unit < 0xE000

/-- The characters that raw quoted text stands for. A first half of a character in `pending` has
to be followed by a second half, which must not stand alone; control characters must be
escaped. -/
def unquote? : (pending : Option Nat) → List Char → Option (List Char)
  | none, [] => some []
  | pending, '\\' :: 'u' :: a :: b :: c :: d :: rest =>
    match hexNumber? [a, b, c, d], pending with
    | none, _ => none
    | some unit, none =>
      if isHighHalf unit then unquote? (some unit) rest
      else if isLowHalf unit then none
      else (unquote? none rest).map (Char.ofNat unit :: ·)
    | some unit, some high =>
      if isLowHalf unit then
        let code := 0x10000 + (high - 0xD800) * 0x400 + (unit - 0xDC00)
        (unquote? none rest).map (Char.ofNat code :: ·)
      else none
  | none, '\\' :: c :: rest =>
    match unescape? c with
    | none => none
    | some c => (unquote? none rest).map (c :: ·)
  | none, c :: rest =>
    if c.toNat < 0x20 || c = '\\' then none else (unquote? none rest).map (c :: ·)
  | some _, _ => none

/-- The longest run of digits at the start, which must not be empty, and what follows. -/
def digits? (cs : List Char) : Option (List Char × List Char) :=
  match cs.takeWhile isDigit with
  | [] => none
  | digits => some (digits, cs.dropWhile isDigit)

/-- The exponent at the start of `cs`, if there is one, and what follows. -/
def exponent? : List Char → Option (Option (Bool × List Char) × List Char)
  | c :: cs =>
    if c = 'e' || c = 'E' then
      let (negative, cs) :=
        match cs with
        | '-' :: cs => (true, cs)
        | '+' :: cs => (false, cs)
        | cs => (false, cs)
      (digits? cs).map fun (digits, after) => (some (negative, digits), after)
    else some (none, c :: cs)
  | [] => some (none, [])

/-- The fraction at the start of `cs`, if there is one, and what follows. -/
def fraction? : List Char → Option (Option (List Char) × List Char)
  | '.' :: cs => (digits? cs).map fun (digits, after) => (some digits, after)
  | cs => some (none, cs)

/-- The number that `lexeme` spells. Its whole part has no needless zero in front, and it must be
in the range of double precision. -/
def number? (lexeme : List Char) : Option Number := do
  let (negative, cs) :=
    match lexeme with
    | '-' :: cs => (true, cs)
    | cs => (false, cs)
  let (whole, cs) ← digits? cs
  if whole.length > 1 && whole.head? == some '0' then none
  let (fraction, cs) ← fraction? cs
  let (exponent, cs) ← exponent? cs
  let n : Number := ⟨negative, whole, fraction, exponent⟩
  if cs.isEmpty && !n.isHuge then some n else none

/-- Whether `c` may stand inside a number. -/
def isNumeric (c : Char) : Bool :=
  isDigit c || c == '-' || c == '+' || c == '.' || c == 'e' || c == 'E'

/-- The punctuation mark that a character is. -/
def punctuation? : Char → Option Token
  | '[' => some .openArray
  | ']' => some .closeArray
  | '\x7b' => some .openObject
  | '\x7d' => some .closeObject
  | ':' => some .colon
  | ',' => some .comma
  | _ => none

/-- The words of a JSON text, or nothing if some stretch of it is no word. -/
def tokens? : List Char → Option (List Token)
  | [] => some []
  | c :: cs =>
    if c = ' ' || c = '\t' || c = '\n' || c = '\r' then tokens? cs
    else
      match punctuation? c with
      | some t => (tokens? cs).map (t :: ·)
      | none =>
        if c = '"' then
          match h : quotedBody cs with
          | none => none
          | some (raw, after) =>
            have := length_lt_of_quotedBody h
            match unquote? none raw with
            | none => none
            | some s => (tokens? after).map (.string (String.ofList s) :: ·)
        else if c = '-' || isDigit c then
          match number? (c :: cs.takeWhile isNumeric) with
          | none => none
          | some n =>
            have := (List.dropWhile_suffix (l := cs) isNumeric).length_le
            (tokens? (cs.dropWhile isNumeric)).map (.number n :: ·)
        else
          match c, cs with
          | 'n', 'u' :: 'l' :: 'l' :: after => (tokens? after).map (.null :: ·)
          | 't', 'r' :: 'u' :: 'e' :: after => (tokens? after).map (.bool true :: ·)
          | 'f', 'a' :: 'l' :: 's' :: 'e' :: after => (tokens? after).map (.bool false :: ·)
          | _, _ => none
  termination_by cs => cs.length
  decreasing_by all_goals simp_all; try omega

end ImportScout.Json
