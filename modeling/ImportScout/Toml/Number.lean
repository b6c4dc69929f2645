import ImportScout.Toml.Value
import ImportScout.Text.Split
import ImportScout.Text.Decimal
/-! # Numbers, dates and times in TOML

Integers are written in base ten, or without a sign in base sixteen, eight or two, and must fit
into 64 bits. A single underscore may stand between two digits. Of fractions only the range
matters here: one that rounds to infinity in double precision is refused. Of dates and times it
only matters that there are such a day and such a time.
-/

namespace ImportScout.Toml

open Text

/-! ## Digits -/

/-- Further digits, each perhaps after an underscore, and what follows them. -/
def moreDigits (isDigit : Char → Bool) : List Char → List Char × List Char
  | '_' :: c :: cs =>
    if isDigit c then
      let (digits, rest) := moreDigits isDigit cs
      (c :: digits, rest)
    else ([], '_' :: c :: cs)
  | c :: cs =>
    if isDigit c then
      let (digits, rest) := moreDigits isDigit cs
      (c :: digits, rest)
    else ([], c :: cs)
  | [] => ([], [])

/-- One digit or more. -/
def digits (isDigit : Char → Bool) : Reader (List Char)
  | [] => none
  | c :: cs =>
    if isDigit c then
      let (more, rest) := moreDigits isDigit cs
      some (c :: more, rest)
    else none

/-- A sign, if there is one: whether it is a minus, and what follows. -/
def sign : List Char → Bool × List Char
  | '-' :: cs => (true, cs)
  | '+' :: cs => (false, cs)
  | cs => (false, cs)

/-- The digits of a whole number, which start with a zero only if that is all. -/
def wholeDigits : Reader (List Char)
  | '0' :: cs => some (['0'], cs)
  | cs => digits isDigit cs

/-! ## Integers -/

/-- Whether a number fits into 64 bits with a sign. -/
def isWord (n : Int) : Bool :=
  -Int.pow 2 63 ≤ n && n < Int.pow 2 63

/-- The digits of a base, and what they stand for together. -/
def natural (base : Nat) : Reader Nat := fun cs =>
  (digits (fun c => (hexValue? c).any (· < base)) cs).map fun (ds, rest) =>
    (ds.foldl (fun n c => base * n + (hexValue? c).getD 0) 0, rest)

/-- An integer. -/
def integer? : Reader Toml := fun cs => do
  let (n, rest) ←
    match cs with
    | '0' :: 'x' :: cs => (natural 16 cs).map fun (n, rest) => ((n : Int), rest)
    | '0' :: 'o' :: cs => (natural 8 cs).map fun (n, rest) => ((n : Int), rest)
    | '0' :: 'b' :: cs => (natural 2 cs).map fun (n, rest) => ((n : Int), rest)
    | cs => do
      let (negative, cs) := sign cs
      let (ds, rest) ← wholeDigits cs
      let size : Int := decimalValue ds
      some (if negative then -size else size, rest)
  if isWord n then some (.integer n, rest) else none

/-! ## Fractions -/

/-- Whether `significand` times ten to the `power` rounds to infinity in double precision, which
is so from half a unit above the greatest number on. -/
def isInfinite (significand : Nat) (power : Int) : Bool :=
  let bound := Nat.pow 2 1024 - Nat.pow 2 970
  let size : Int := (decimal significand).length
  if significand = 0 || size + power ≤ 308 then false
  else if 310 ≤ size + power then true
  else if 0 ≤ power then significand * Nat.pow 10 power.toNat ≥ bound
  else significand ≥ bound * Nat.pow 10 (-power).toNat

/-- The digits after a point; there are none without a point. -/
def fraction? : Reader (List Char)
  | '.' :: cs => digits isDigit cs
  | cs => some ([], cs)

/-- The exponent after an `e`; it is zero without one. -/
def exponent? : Reader Int
  | [] => some (0, [])
  | c :: cs =>
    if c = 'e' || c = 'E' then
      let (negative, cs) := sign cs
      (digits isDigit cs).map fun (ds, rest) =>
        let size : Int := decimalValue ds
        (if negative then -size else size, rest)
    else some (0, c :: cs)

/-- A number with a point or an exponent. -/
def decimalFloat? : Reader Toml := fun cs => do
  let (negative, cs) := sign cs
  let (whole, cs) ← wholeDigits cs
  match cs with
  | '.' :: _ | 'e' :: _ | 'E' :: _ =>
    let (fraction, cs) ← fraction? cs
    let (power, rest) ← exponent? cs
    if !negative && isInfinite (decimalValue (whole ++ fraction)) (power - fraction.length) then
      none
    else some (.float, rest)
  | _ => none

/-- Infinity or the absence of a number, spelled out. -/
def spelledFloat? : Reader Toml := fun cs =>
  let (_, cs) := sign cs
  match cs with
  | 'i' :: 'n' :: 'f' :: rest | 'n' :: 'a' :: 'n' :: rest => some (.float, rest)
  | _ => none

/-! ## Dates and times -/

/-- Exactly `count` digits, and the number they stand for if it lies between `low` and `high`. -/
def fixedDigits (count low high : Nat) : Reader Nat := fun cs =>
  let ds := cs.take count
  let n := decimalValue ds
  if ds.length = count && ds.all isDigit && low ≤ n && n ≤ high then some (n, cs.drop count)
  else none

/-- The number of days of a month. -/
def daysIn (year month : Nat) : Nat :=
  if month = 2 then
    if year % 4 = 0 && (year % 100 ≠ 0 || year % 400 = 0) then 29 else 28
  else if month = 4 || month = 6 || month = 9 || month = 11 then 30
  else 31

/-- What follows a date. -/
def skipDate? (cs : List Char) : Option (List Char) := do
  let (year, cs) ← fixedDigits 4 0 9999 cs
  let (month, cs) ← fixedDigits 2 1 12 (← dropStart? ['-'] cs)
  let (_, rest) ← fixedDigits 2 1 (daysIn year month) (← dropStart? ['-'] cs)
  some rest

/-- What follows a fraction of a second, if there is one. -/
def skipSubsecond : List Char → List Char
  | '.' :: c :: cs => if isDigit c then cs.dropWhile isDigit else '.' :: c :: cs
  | cs => cs

/-- What follows a time of day. A leap second is a second. -/
def skipTime? (cs : List Char) : Option (List Char) := do
  let (_, cs) ← fixedDigits 2 0 23 cs
  let (_, cs) ← fixedDigits 2 0 59 (← dropStart? [':'] cs)
  let (_, cs) ← fixedDigits 2 0 60 (← dropStart? [':'] cs)
  some (skipSubsecond cs)

/-- What follows an offset from universal time. -/
def skipOffset? : List Char → Option (List Char)
  | 'Z' :: cs | 'z' :: cs => some cs
  | '+' :: cs | '-' :: cs => do
    let (_, cs) ← fixedDigits 2 0 23 cs
    let (_, rest) ← fixedDigits 2 0 59 (← dropStart? [':'] cs)
    some rest
  | _ => none

/-- What follows the time that comes after a date, if one does. -/
def skipDayTime (cs : List Char) : List Char :=
  match cs with
  | 'T' :: time | 't' :: time | ' ' :: time =>
    match skipTime? time with
    | some rest => (skipOffset? rest).getD rest
    | none => cs
  | _ => cs

/-- A date, perhaps with a time and an offset, or a time alone. -/
def moment? : Reader Toml := fun cs =>
  match skipDate? cs with
  | some rest => some (.moment, skipDayTime rest)
  | none => (skipTime? cs).map fun rest => (.moment, rest)

/-- A number, a date or a time. What can be read as several of these is the first of them in the
order date, fraction, integer. -/
def number? : Reader Toml := fun cs =>
  moment? cs <|> decimalFloat? cs <|> spelledFloat? cs <|> integer? cs

end ImportScout.Toml
