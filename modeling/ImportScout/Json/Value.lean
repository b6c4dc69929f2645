import ImportScout.Text.Decimal
/-! # JSON values

The data of a JSON document. Numbers are kept as they are written, and an object keeps its
members in order, repeated names included.
-/

namespace ImportScout

open Text

namespace Json

/-- A number as it is written: a sign, the digits before the point, the digits after it, and the
sign and the digits of an exponent. -/
structure Number where
  negative : Bool := false
  whole : List Char
  fraction : Option (List Char) := none
  exponent : Option (Bool × List Char) := none
  deriving DecidableEq, Repr

namespace Number

/-- A natural number without point or exponent. -/
def ofNat (n : Nat) : Number :=
  { whole := decimal n }

/-- The number as a natural number of at most 64 bits, if it is written as one. -/
def natural? (n : Number) : Option Nat :=
  if n.negative || n.fraction.isSome || n.exponent.isSome then none
  else
    let value := decimalValue n.whole
    if value < Nat.pow 2 64 then some value else none

/-! ## Magnitude

Numbers that are not integers are read in double precision: the first digits, as many as fit into
64 bits, times a power of ten. A number that comes out infinite is refused. -/

/-- `n` rounded to 53 significant bits, ties to the even neighbour. -/
def round53 (n : Nat) : Nat :=
  let drop := n.log2 + 1 - 53
  let unit := Nat.pow 2 drop
  let low := n / unit
  let rest := n % unit
  if 2 * rest > unit || (2 * rest == unit && low % 2 == 1) then (low + 1) * unit else low * unit

/-- Whether the product of two numbers, each rounded to double precision, rounds to infinity. -/
def overflows (a b : Nat) : Bool :=
  round53 a * round53 b ≥ Nat.pow 2 1024 - Nat.pow 2 970

/-- The leading digits that fit into 64 bits, and how many digits follow them. -/
def leading (digits : List Char) : Nat × Nat :=
  digits.foldl (fun (value, dropped) c =>
    let longer := 10 * value + digitValue c
    if dropped = 0 && longer < Nat.pow 2 64 then (longer, 0) else (value, dropped + 1)) (0, 0)

/-- Extend `value` by the digits after the point as long as it fits into 64 bits, counting the
digits taken. -/
def extend : (value taken : Nat) → List Char → Nat × Nat
  | value, taken, [] => (value, taken)
  | value, taken, c :: digits =>
    let longer := 10 * value + digitValue c
    if longer < Nat.pow 2 64 then extend longer (taken + 1) digits else (value, taken)

/-- The largest exponent that is told apart from larger ones. -/
def exponentLimit : Nat := Nat.pow 2 31 - 1

/-- Whether the number is beyond the range of double precision. -/
def isHuge (n : Number) : Bool :=
  let (head, dropped) := leading n.whole
  let (significand, taken) := extend head 0 (n.fraction.getD [])
  let start : Int := (dropped : Int) - taken
  let power : Int :=
    match n.exponent with
    | none => start
    | some (negative, digits) =>
      let size := min (decimalValue digits) exponentLimit
      if negative then start - size else start + size
  let whole := n.fraction.isNone && n.exponent.isNone
  !(whole && dropped == 0) && significand != 0 && 0 ≤ power &&
    (308 < power || overflows significand (Nat.pow 10 power.toNat))

end Number

end Json

/-- A JSON value. -/
inductive Json where
  | null
  | bool (b : Bool)
  | number (n : Json.Number)
  | string (s : String)
  | array (items : List Json)
  | object (members : List (String × Json))
  deriving Repr

namespace Json

/-- A natural number as a value. -/
def nat (n : Nat) : Json :=
  .number (.ofNat n)

/-- A list of texts as a value. -/
def strings (ss : List String) : Json :=
  .array (ss.map .string)

/-- A value that may be missing: `null` stands for nothing. -/
def orNull {α : Type} (f : α → Json) : Option α → Json
  | none => .null
  | some a => f a

/-- The last member of that name in an object. -/
def member? (name : String) : Json → Option Json
  | .object members => (members.reverse.find? (·.1 == name)).map (·.2)
  | _ => none

end Json

end ImportScout
