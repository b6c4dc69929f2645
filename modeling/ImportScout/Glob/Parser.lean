import ImportScout.Glob.Token
/-! # Reading globs

A glob is read from left to right. Braces open groups, which nest; a comma starts the next
branch of the innermost group and is an ordinary character outside of groups. A double star is
special only where it spans whole segments.
-/

namespace ImportScout.Glob

/-- Why a text is no glob. -/
inductive Cause where
  /-- A bracket opens a class that nothing closes. -/
  | unclosedClass
  /-- The first end of a range lies behind the second. -/
  | invalidRange (lo hi : Char)
  /-- A closing brace without an opening one. -/
  | unopenedGroup
  /-- An opening brace without a closing one. -/
  | unclosedGroup
  /-- A backslash at the end escapes nothing. -/
  | danglingEscape
  deriving DecidableEq, Repr

/-- The wording of a cause. -/
def Cause.message : Cause → String
  | .unclosedClass => "unclosed character class; missing ']'"
  | .invalidRange lo hi => s!"invalid range; '{lo}' > '{hi}'"
  | .unopenedGroup =>
    "unopened alternate group; missing '\x7b' (maybe escape '\x7d' with '[\x7d]'?)"
  | .unclosedGroup =>
    "unclosed alternate group; missing '\x7d' (maybe escape '\x7b' with '[\x7b]'?)"
  | .danglingEscape => "dangling '\\'"

/-- A text that is no glob, and why. -/
structure Fault where
  pattern : String
  cause : Cause
  deriving DecidableEq, Repr

/-- The wording of a fault. -/
def Fault.message (f : Fault) : String :=
  s!"error parsing glob '{f.pattern}': {f.cause.message}"

/-- How globs are read: the separator rule, and whether a bracket that nothing closes stands for
itself. -/
structure Style where
  separator : Separator
  looseBrackets : Bool := false
  deriving DecidableEq, Repr

/-! ## Classes -/

/-- The ranges of a class up to its closing bracket, the latest first, and what follows; nothing
if no bracket closes it. A bracket or a hyphen that comes `first` stands for itself, and so does
a hyphen at the end. With `inRange` the next character ends the latest range. -/
def classBody (ranges : List (Char × Char)) (first inRange : Bool) :
    List Char → Except Cause (Option (List (Char × Char) × List Char))
  | [] => .ok none
  | c :: cs =>
    if c = ']' && !first then .ok (some (if inRange then ('-', '-') :: ranges else ranges, cs))
    else if c = '-' && !first && !inRange then classBody ranges false true cs
    else
      match inRange, ranges with
      | true, (lo, _) :: others =>
        if c < lo then .error (.invalidRange lo c)
        else classBody ((lo, c) :: others) false false cs
      | _, _ => classBody ((c, c) :: ranges) false false cs

/-- A class takes at least its closing bracket. -/
theorem length_lt_of_classBody {ranges : List (Char × Char)} {first inRange : Bool}
    {cs : List Char} {found : List (Char × Char)} {rest : List Char}
    (h : classBody ranges first inRange cs = .ok (some (found, rest))) :
    rest.length < cs.length := by
  fun_induction classBody ranges first inRange cs with
  | case1 => simp at h
  | case2 =>
    simp only [Except.ok.injEq, Option.some.injEq, Prod.mk.injEq] at h
    simp [h.2]
  | case3 _ _ _ _ _ _ _ ih => exact Nat.lt_succ_of_lt (ih h)
  | case4 => simp at h
  | case5 _ _ _ _ _ _ _ _ _ ih => exact Nat.lt_succ_of_lt (ih h)
  | case6 _ _ _ _ _ _ _ _ ih => exact Nat.lt_succ_of_lt (ih h)

/-- Whether a class starts with the mark of negation, and the class after it. -/
def negation : List Char → Bool × List Char
  | '!' :: cs => (true, cs)
  | '^' :: cs => (true, cs)
  | cs => (false, cs)

theorem length_negation_le (cs : List Char) : (negation cs).2.length ≤ cs.length := by
  unfold negation
  split <;> simp

/-! ## Groups -/

/-- A group that is still open: its finished branches, and the tokens before it, the latest
first. -/
structure Group where
  finished : List (List Token) := []
  outer : List Token

/-- How far a glob has been read: the character before, the tokens of the current branch with
the latest first, the open groups with the innermost first, and whether brackets have turned out
to stand for themselves. -/
structure Progress where
  before : Option Char := none
  branch : List Token := []
  groups : List Group := []
  plainBrackets : Bool := false

namespace Progress

/-- Add a token that ends with the character `last`. -/
def push (p : Progress) (t : Token) (last : Char) : Progress :=
  { p with before := some last, branch := t :: p.branch }

/-- Add a double star that spans nothing special. -/
def pushStars (p : Progress) : Progress :=
  { p with before := some '*', branch := .star :: .star :: p.branch }

/-- Add a double star that spans whole segments in place of the slash before it. A double star
that came just before that slash already spans them. -/
def absorb (p : Progress) (t : Token) (last : Char) : Progress :=
  let branch :=
    match p.branch with
    | .leading :: ts => .leading :: ts
    | .trailing :: ts => .trailing :: ts
    | _ :: ts => t :: ts
    | [] => [t]
  { p with before := some last, branch }

/-- Whether whole segments may end before a double star that does not start its branch. -/
def endsSegment (p : Progress) : Bool :=
  p.before == some '/' || (!p.groups.isEmpty && (p.before == some ',' || p.before == some '\x7b'))

/-- Start a group. -/
def openGroup (p : Progress) : Progress :=
  { p with before := some '\x7b', branch := [], groups := ⟨[], p.branch⟩ :: p.groups }

/-- End the innermost group. -/
def closeGroup (p : Progress) : Except Cause Progress :=
  match p.groups with
  | [] => .error .unopenedGroup
  | g :: gs =>
    let group := Token.choice (g.finished ++ [p.branch.reverse])
    .ok { p with before := some '\x7d', branch := group :: g.outer, groups := gs }

/-- Start the next branch of the innermost group, or take the comma as it is. -/
def comma (p : Progress) : Progress :=
  match p.groups with
  | [] => p.push (.literal ',') ','
  | g :: gs =>
    let g := { g with finished := g.finished ++ [p.branch.reverse] }
    { p with before := some ',', branch := [], groups := g :: gs }

/-- Read two stars, which `after` follows: how the glob goes on, and what is left to read. -/
def doubleStar (p : Progress) (after : List Char) : Progress × List Char :=
  if p.branch.isEmpty then
    match after with
    | [] => (p.push .leading '*', [])
    | '/' :: rest => (p.push .leading '/', rest)
    | _ => (p.pushStars, after)
  else if p.endsSegment then
    match after with
    | [] => (p.absorb .trailing '*', [])
    | '/' :: rest => (p.absorb .between '/', rest)
    | c :: _ =>
      if !p.groups.isEmpty && (c == ',' || c == '\x7d') then (p.absorb .trailing '*', after)
      else (p.pushStars, after)
  else (p.pushStars, after)

theorem length_doubleStar_le (p : Progress) (after : List Char) :
    (p.doubleStar after).2.length ≤ after.length := by
  unfold doubleStar
  repeat' split
  all_goals simp

end Progress

/-- Read the rest of a glob. -/
def read (style : Style) (p : Progress) : List Char → Except Cause Progress
  | [] => .ok p
  | '?' :: cs => read style (p.push .any '?') cs
  | '*' :: '*' :: cs =>
    have := p.length_doubleStar_le cs
    read style (p.doubleStar cs).1 (p.doubleStar cs).2
  | '*' :: cs => read style (p.push .star '*') cs
  | '\x7b' :: cs => read style p.openGroup cs
  | '\x7d' :: cs =>
    match p.closeGroup with
    | .error cause => .error cause
    | .ok p => read style p cs
  | ',' :: cs => read style p.comma cs
  | ['\\'] => .error .danglingEscape
  | '\\' :: c :: cs => read style (p.push (.literal c) c) cs
  | '[' :: cs =>
    if p.plainBrackets then read style (p.push (.literal '[') '[') cs
    else
      match h : classBody [] true false (negation cs).2 with
      | .error cause => .error cause
      | .ok none =>
        if style.looseBrackets then
          read style { p.push (.literal '[') '[' with plainBrackets := true } cs
        else .error .unclosedClass
      | .ok (some (ranges, rest)) =>
        have : rest.length < cs.length := by
          have := length_lt_of_classBody h
          have := length_negation_le cs
          omega
        read style (p.push (.oneOf (negation cs).1 ranges.reverse) ']') rest
  | c :: cs => read style (p.push (.literal c) c) cs
  termination_by cs => cs.length

/-- The glob that `pattern` spells. -/
def parse (style : Style) (pattern : String) : Except Fault Glob :=
  match read style {} pattern.toList with
  | .error cause => .error ⟨pattern, cause⟩
  | .ok p =>
    if p.groups.isEmpty then .ok ⟨style.separator, p.branch.reverse⟩
    else .error ⟨pattern, .unclosedGroup⟩

/-- Whether `pattern` describes one path only and needs no matching. -/
def isLiteral (pattern : String) : Bool :=
  !pattern.toList.any fun c =>
    c == '*' || c == '?' || c == '[' || c == ']' || c == '\x7b' || c == '\x7d'

end ImportScout.Glob
