import ImportScout.Text.Utf8
/-! # Patterns in text

A pattern describes a stretch of text by classes of characters, one after the other. Where
several stretches fit, runs are taken as long as the rest of the pattern allows and optional
parts are taken if they can be; one part of the pattern may be marked as captured.

`Pattern.ends` lists all ways to match, best first; `Pattern.run` finds the best one without
listing the others, and `run_eq_findSome?_ends` says that the two agree. `Pattern.scan` collects
the captures of all matches from left to right, none overlapping another.
-/

namespace ImportScout.Text

/-- A place in a text: the bytes before it, the character before it, and what follows. -/
structure Cursor where
  offset : Nat := 0
  before : Option Char := none
  rest : List Char

/-- The place after the character `c`, which `rest` follows. -/
def Cursor.step (cur : Cursor) (c : Char) (rest : List Char) : Cursor :=
  ⟨cur.offset + c.utf8Size, some c, rest⟩

/-- Whether a line starts here: at the start of the text or after a line feed. -/
def Cursor.startsLine (cur : Cursor) : Bool :=
  cur.before == none || cur.before == some '\n'

/-- The characters between `start` and a later place `stop` of the same text. -/
def Cursor.upTo (start stop : Cursor) : List Char :=
  start.rest.take (start.rest.length - stop.rest.length)

/-- A captured stretch of text and the number of bytes before it. -/
structure Capture where
  text : List Char
  offset : Nat
  deriving DecidableEq, Repr

/-- A description of stretches of text. -/
inductive Pattern where
  /-- No character. -/
  | nothing
  /-- One character of a class. -/
  | one (accepts : Char → Bool)
  /-- A run of characters of a class, as long as possible, perhaps empty. -/
  | many (accepts : Char → Bool)
  /-- A stretch that may be missing, but is taken where it can be. -/
  | maybe (p : Pattern)
  /-- One stretch and then another. -/
  | andThen (p q : Pattern)
  /-- A stretch to be captured. -/
  | captured (p : Pattern)
  /-- No character, at the start of a line. -/
  | lineStart

namespace Pattern

/-- The patterns of a list, one after the other. -/
def all (ps : List Pattern) : Pattern :=
  ps.foldr andThen nothing

/-- The given characters. -/
def word (s : String) : Pattern :=
  all (s.toList.map fun c => one (· == c))

/-- A run of at least one character of a class. -/
def some1 (accepts : Char → Bool) : Pattern :=
  andThen (one accepts) (many accepts)

/-! ## Matching -/

/-- The places after a run of accepted characters, the longest run first. -/
def runEnds (accepts : Char → Bool) (offset : Nat) (before : Option Char) :
    (rest : List Char) → List Cursor
  | [] => [⟨offset, before, []⟩]
  | c :: rest =>
    (if accepts c then runEnds accepts (offset + c.utf8Size) (some c) rest else []) ++
      [⟨offset, before, c :: rest⟩]

/-- All ways to match from a place, best first: where the match ends, and what is captured by
then, `cap` being what was captured before. -/
def ends : Pattern → Cursor → Option Capture → List (Cursor × Option Capture)
  | nothing, cur, cap => [(cur, cap)]
  | one accepts, cur, cap =>
    match cur.rest with
    | [] => []
    | c :: rest => if accepts c then [(cur.step c rest, cap)] else []
  | many accepts, cur, cap =>
    (runEnds accepts cur.offset cur.before cur.rest).map fun stop => (stop, cap)
  | maybe p, cur, cap => p.ends cur cap ++ [(cur, cap)]
  | andThen p q, cur, cap => (p.ends cur cap).flatMap fun e => q.ends e.1 e.2
  | captured p, cur, cap =>
    (p.ends cur cap).map fun e => (e.1, some ⟨cur.upTo e.1, cur.offset⟩)
  | lineStart, cur, cap => if cur.startsLine then [(cur, cap)] else []

/-- The first answer of `next` after a run of accepted characters, the longest run first. -/
def runFirst {α : Type} (accepts : Char → Bool) (next : Cursor → Option α) (offset : Nat)
    (before : Option Char) : (rest : List Char) → Option α
  | [] => next ⟨offset, before, []⟩
  | c :: rest =>
    if accepts c then
      match runFirst accepts next (offset + c.utf8Size) (some c) rest with
      | some a => some a
      | none => next ⟨offset, before, c :: rest⟩
    else next ⟨offset, before, c :: rest⟩

/-- The first answer that `next` gives to the end of a match, in the order of `ends`. -/
def run {α : Type} : Pattern → (next : Cursor → Option Capture → Option α) → Cursor →
    Option Capture → Option α
  | nothing, next, cur, cap => next cur cap
  | one accepts, next, cur, cap =>
    match cur.rest with
    | [] => none
    | c :: rest => if accepts c then next (cur.step c rest) cap else none
  | many accepts, next, cur, cap =>
    runFirst accepts (fun stop => next stop cap) cur.offset cur.before cur.rest
  | maybe p, next, cur, cap =>
    match p.run next cur cap with
    | some a => some a
    | none => next cur cap
  | andThen p q, next, cur, cap => p.run (fun stop cap => q.run next stop cap) cur cap
  | captured p, next, cur, cap =>
    p.run (fun stop _ => next stop (some ⟨cur.upTo stop, cur.offset⟩)) cur cap
  | lineStart, next, cur, cap => if cur.startsLine then next cur cap else none

theorem runFirst_eq_findSome? {α : Type} (accepts : Char → Bool) (next : Cursor → Option α)
    (offset : Nat) (before : Option Char) (rest : List Char) :
    runFirst accepts next offset before rest =
      (runEnds accepts offset before rest).findSome? next := by
  induction rest generalizing offset before with
  | nil => simp [runFirst, runEnds]
  | cons c rest ih =>
    by_cases h : accepts c
    · simp only [runFirst, runEnds, h, if_true, ih, List.findSome?_append,
        List.findSome?_singleton]
      cases List.findSome? next _ <;> rfl
    · simp [runFirst, runEnds, h]

/-- Running a pattern finds the best way to match that `next` agrees with. -/
theorem run_eq_findSome?_ends {α : Type} (p : Pattern)
    (next : Cursor → Option Capture → Option α) (cur : Cursor) (cap : Option Capture) :
    p.run next cur cap = (p.ends cur cap).findSome? fun e => next e.1 e.2 := by
  induction p generalizing next cur cap with
  | nothing => simp [run, ends]
  | one accepts =>
    simp only [run, ends]
    cases cur.rest with
    | nil => rfl
    | cons c rest => by_cases h : accepts c <;> simp [h]
  | many accepts =>
    simp [run, ends, runFirst_eq_findSome?, List.findSome?_map, Function.comp_def]
  | maybe p ih =>
    simp only [run, ends, ih, List.findSome?_append, List.findSome?_singleton]
    cases List.findSome? _ (p.ends cur cap) <;> rfl
  | andThen p q ihp ihq =>
    simp only [run, ends, ihp, ihq]
    induction p.ends cur cap with
    | nil => rfl
    | cons e es ih =>
      rw [List.findSome?_cons, List.flatMap_cons, List.findSome?_append, ih]
      cases List.findSome? _ (q.ends e.1 e.2) <;> rfl
  | captured p ih => simp [run, ends, ih, List.findSome?_map, Function.comp_def]
  | lineStart => by_cases h : cur.startsLine <;> simp [run, ends, h]

/-- The best match from a place: where it ends and what it captures. -/
def first? (p : Pattern) (cur : Cursor) : Option (Cursor × Option Capture) :=
  p.run (fun stop cap => some (stop, cap)) cur none

/-- The captures of the matches in the text that follows `cur`: the leftmost match, then the
leftmost one after its end, and so on. A match without characters is passed over. -/
def scan (p : Pattern) (cur : Cursor) : List Capture :=
  match _h : cur.rest with
  | [] => []
  | c :: rest =>
    match p.first? cur with
    | some (stop, cap) =>
      if stop.rest.length ≤ rest.length then cap.toList ++ p.scan stop
      else p.scan (cur.step c rest)
    | none => p.scan (cur.step c rest)
  termination_by cur.rest.length
  decreasing_by all_goals simp_all [Cursor.step]; try omega

/-- What `p` captures in a text. -/
def captures (p : Pattern) (text : List Char) : List Capture :=
  p.scan { rest := text }

end Pattern

end ImportScout.Text
