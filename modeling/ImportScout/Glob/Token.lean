import ImportScout.Text.Utf8
/-! # Globs

A glob is a list of tokens that describes the bytes of a path. A star stays within a segment or
crosses slashes, as the separator rule says; the double star spans whole segments. Classes are
sets of bytes, so a character of several bytes in a class stands for each of its bytes.

`Token.advance` runs a token over a set of possible rests of the path, and `Glob.acceptsBytes` asks
whether the empty rest can be reached.
-/

namespace ImportScout

open Text

/-- Whether stars and question marks stay within a segment. -/
inductive Separator where
  /-- They stop at a slash. -/
  | stops
  /-- They cross slashes. -/
  | crossed
  deriving DecidableEq, Repr

namespace Glob

/-- A part of a glob. -/
inductive Token where
  /-- The character itself. -/
  | literal (c : Char)
  /-- Any one byte: `?`. -/
  | any
  /-- Any run of bytes: `*`. -/
  | star
  /-- Any number of whole segments at the start: `**/`. -/
  | leading
  /-- Everything below a folder: `/**` at the end. -/
  | trailing
  /-- A slash and any number of whole segments: `/**/`. -/
  | between
  /-- A byte of a class, or outside it: `[a-z]`, `[!a-z]`. -/
  | oneOf (negated : Bool) (ranges : List (Char × Char))
  /-- One of several branches: `{a,b}`. -/
  | choice (branches : List (List Token))
  deriving Repr

/-- The byte of the slash. -/
def slash : UInt8 := 0x2F

/-! ## Classes -/

/-- Whether a range of characters holds a byte. Both ends give all their bytes; between two
different ends lie the bytes from the last of the lower to the first of the upper. -/
def rangeHolds (lo hi : Char) (b : UInt8) : Bool :=
  let low := String.utf8EncodeChar lo
  let high := String.utf8EncodeChar hi
  low.contains b || high.contains b ||
    (lo != hi && (low.getLast?.any (· ≤ b)) && (high.head?.any (b ≤ ·)))

/-- Whether a class accepts a byte. -/
def classAccepts (negated : Bool) (ranges : List (Char × Char)) (b : UInt8) : Bool :=
  negated != ranges.any fun (lo, hi) => rangeHolds lo hi b

/-! ## Rests -/

/-- All rests of a text, from the whole of it to nothing. -/
def rests : Bytes → List Bytes
  | [] => [[]]
  | b :: bs => (b :: bs) :: rests bs

/-- All rests after a run of accepted bytes. -/
def restsWhile (accepts : UInt8 → Bool) : Bytes → List Bytes
  | [] => [[]]
  | b :: bs => (b :: bs) :: if accepts b then restsWhile accepts bs else []

/-- All rests that follow a slash. -/
def restsAfterSlash : Bytes → List Bytes
  | [] => []
  | b :: bs => if b = slash then bs :: restsAfterSlash bs else restsAfterSlash bs

/-- Keep one of several entries with the same number. -/
def distinctNumbers {α : Type} : List (Nat × α) → List (Nat × α)
  | [] => []
  | entry :: rest => entry :: (distinctNumbers rest).filter fun other => other.1 != entry.1

/-- Keep one of several equal rests. Rests of one text are equal if they are equally long. -/
def distinct (left : List Bytes) : List Bytes :=
  (distinctNumbers (left.map fun bs => (bs.length, bs))).map (·.2)

/-- The rests after a token that is neither a class nor a choice. -/
def simpleRests (sep : Separator) : Token → Bytes → List Bytes
  | .literal c, bs =>
    let spelled := String.utf8EncodeChar c
    if spelled.isPrefixOf bs then [bs.drop spelled.length] else []
  | .any, b :: bs => if sep = .crossed || b != slash then [bs] else []
  | .star, bs => if sep = .crossed then rests bs else restsWhile (· != slash) bs
  | .leading, bs => bs :: restsAfterSlash bs
  | .trailing, b :: bs => if b = slash then rests bs else []
  | .between, b :: bs => if b = slash then bs :: restsAfterSlash bs else []
  | .oneOf negated ranges, b :: bs => if classAccepts negated ranges b then [bs] else []
  | _, _ => []

mutual

/-- Whether a token describes nothing at all: a choice without a branch that says anything. -/
def Token.isVoid : Token → Bool
  | .choice branches => allVoid branches
  | _ => false

/-- Whether no token of a branch says anything. -/
def isVoidBranch : List Token → Bool
  | [] => true
  | t :: ts => t.isVoid && isVoidBranch ts

/-- Whether no branch says anything. -/
def allVoid : List (List Token) → Bool
  | [] => true
  | b :: bs => isVoidBranch b && allVoid bs

end

mutual

/-- The rests that a token can leave of the given rests. -/
def Token.advance (sep : Separator) : Token → List Bytes → List Bytes
  | .choice branches, left =>
    if allVoid branches then left else distinct (advanceAny sep branches left)
  | t, left => distinct (left.flatMap (simpleRests sep t))

/-- The rests that the tokens, one after the other, can leave of the given rests. -/
def advanceAll (sep : Separator) : List Token → List Bytes → List Bytes
  | [], left => left
  | t :: ts, left => advanceAll sep ts (t.advance sep left)

/-- The rests that one of the branches can leave; branches that say nothing are passed over. -/
def advanceAny (sep : Separator) : List (List Token) → List Bytes → List Bytes
  | [], _ => []
  | b :: bs, left =>
    (if isVoidBranch b then [] else advanceAll sep b left) ++ advanceAny sep bs left

end

end Glob

/-- A glob that has been read: its tokens and its separator rule. -/
structure Glob where
  separator : Separator
  tokens : List Glob.Token
  deriving Repr

namespace Glob

/-- Whether the glob describes the whole of a path, which need not be text. A glob that is nothing
but leading segments describes every path. -/
def acceptsBytes (g : Glob) (path : Bytes) : Bool :=
  match g.tokens with
  | [.leading] => true
  | ts => (advanceAll g.separator ts [path]).any List.isEmpty

/-- Whether the glob describes the whole of `path`. -/
def accepts (g : Glob) (path : String) : Bool :=
  g.acceptsBytes (bytesOf path)

end Glob

end ImportScout
