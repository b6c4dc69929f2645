import Mathlib.Data.List.Nodup
import ImportScout.Text.Utf8
import ImportScout.Text.Pattern

/-! # What patterns describe

`Pattern.Fits` says, part by part, which stretches of a text a pattern describes and what it
captures of them. `mem_ends_iff` shows that these are exactly the ways to match: nothing is matched
that does not fit, and nothing that fits is missed. `scans_iff_eq_captures` says how a whole text is
searched: the leftmost match, the best one at its place, then the next one behind it. From this the
captures of a text are located (`exists_of_mem_captures`) and told apart (`eq_of_offset_eq`).
-/

namespace ImportScout.Text

/-! ## Sizes -/

theorem size_append (front back : List Char) : size (front ++ back) = size front + size back := by
  -- the sum is taken from the left, so what is passed already comes along as a number
  have shift (n : ℕ) : back.foldl (fun n c => n + c.utf8Size) n = n + size back := by
    induction back generalizing n with
    | nil => rfl
    | cons c back ih =>
      rw [size, List.foldl_cons, List.foldl_cons, ih, ih (0 + c.utf8Size)]
      omega
  rw [size, List.foldl_append, shift]
  rfl

theorem size_singleton (c : Char) : size [c] = c.utf8Size :=
  Nat.zero_add _

theorem size_pos {cs : List Char} (h : cs ≠ []) : 0 < size cs := by
  obtain ⟨c, cs, rfl⟩ := List.exists_cons_of_ne_nil h
  have hc := c.utf8Size_pos
  rw [← List.singleton_append, size_append, size_singleton]
  omega

theorem utf8ByteSize_ofList (cs : List Char) : (String.ofList cs).utf8ByteSize = size cs := by
  induction cs with
  | nil => rfl
  | cons c cs ih =>
    rw [String.ofList_cons, String.utf8ByteSize_append, String.utf8ByteSize_singleton, ih,
      ← List.singleton_append, size_append, size_singleton]

/-- In one text there is only one place for each number of bytes before it. -/
theorem eq_of_size_eq {front front' back back' : List Char}
    (htext : front ++ back = front' ++ back') (hsize : size front = size front') :
    front = front' ∧ back = back' := by
  -- one of the two beginnings goes on with a gap, and the gap takes no bytes
  rcases List.append_eq_append_iff.mp htext with ⟨gap, rfl, rfl⟩ | ⟨gap, rfl, rfl⟩
  all_goals
    rw [size_append] at hsize
    have hgap : gap = [] := by
      by_contra hne
      have := size_pos hne
      omega
    rw [hgap]
    simp

/-! ## Places -/

namespace Cursor

/-- The place that `front` leads to, where `rest` follows. -/
def after (front rest : List Char) : Cursor :=
  ⟨size front, front.getLast?, rest⟩

theorem after_step (front : List Char) (c : Char) (rest : List Char) :
    (after front (c :: rest)).step c rest = after (front ++ [c]) rest := by
  rw [step, after, after, size_append, size_singleton, List.getLast?_append]
  rfl

theorem upTo_after (front taken rest : List Char) :
    (after front (taken ++ rest)).upTo (after (front ++ taken) rest) = taken := by
  simp [upTo, after]

theorem startsLine_after (front rest : List Char) :
    (after front rest).startsLine = true ↔ front = [] ∨ front.getLast? = some '\n' := by
  simp [startsLine, after]

/-- Whether `stop` lies behind the stretch `taken` of what follows `front`. -/
def Reaches (front rest taken : List Char) (stop : Cursor) : Prop :=
  ∃ rest', rest = taken ++ rest' ∧ stop = after (front ++ taken) rest'

variable {front rest taken : List Char} {stop : Cursor}

theorem reaches_nil : Reaches front rest [] stop ↔ stop = after front rest := by
  constructor
  · rintro ⟨rest', rfl, rfl⟩
    rw [List.append_nil]
  · rintro rfl
    exact ⟨rest, rfl, by rw [List.append_nil]⟩

theorem reaches_append {tail : List Char} :
    Reaches front rest (taken ++ tail) stop ↔
      ∃ rest', rest = taken ++ rest' ∧ Reaches (front ++ taken) rest' tail stop := by
  simp only [Reaches, List.append_assoc]
  constructor
  · rintro ⟨rest', rfl, rfl⟩
    exact ⟨_, rfl, rest', rfl, rfl⟩
  · rintro ⟨-, rfl, rest', rfl, rfl⟩
    exact ⟨rest', rfl, rfl⟩

theorem reaches_cons {c d : Char} :
    Reaches front (c :: rest) (d :: taken) stop ↔
      c = d ∧ Reaches (front ++ [d]) rest taken stop := by
  rw [← List.singleton_append (x := d), reaches_append]
  constructor
  · rintro ⟨rest', hrest, h⟩
    obtain ⟨rfl, rfl⟩ := List.cons.inj hrest
    exact ⟨rfl, h⟩
  · rintro ⟨rfl, h⟩
    exact ⟨rest, rfl, h⟩

end Cursor

/-! ## Stretches that fit -/

namespace Pattern

open Cursor

/-- Whether the pattern describes the stretch `taken` where `front` stands before it, `cap` being
captured by then and `cap'` afterwards. -/
def Fits : Pattern → (front taken : List Char) → (cap cap' : Option Capture) → Prop
  | nothing, _, taken, cap, cap' => taken = [] ∧ cap' = cap
  | one accepts, _, taken, cap, cap' => (∃ c, accepts c = true ∧ taken = [c]) ∧ cap' = cap
  | many accepts, _, taken, cap, cap' => (∀ c ∈ taken, accepts c = true) ∧ cap' = cap
  | maybe p, front, taken, cap, cap' => p.Fits front taken cap cap' ∨ (taken = [] ∧ cap' = cap)
  | andThen p q, front, taken, cap, cap' =>
    ∃ head tail mid, taken = head ++ tail ∧ p.Fits front head cap mid ∧
      q.Fits (front ++ head) tail mid cap'
  | captured p, front, taken, cap, cap' =>
    (∃ inner, p.Fits front taken cap inner) ∧ cap' = some ⟨taken, size front⟩
  | lineStart, front, taken, cap, cap' =>
    (front = [] ∨ front.getLast? = some '\n') ∧ taken = [] ∧ cap' = cap

theorem mem_runEnds_iff (accepts : Char → Bool) (front rest : List Char) (stop : Cursor) :
    stop ∈ runEnds accepts (size front) front.getLast? rest ↔
      ∃ taken, Reaches front rest taken stop ∧ ∀ c ∈ taken, accepts c = true := by
  induction rest generalizing front with
  | nil =>
    rw [runEnds, List.mem_singleton]
    constructor
    · rintro rfl
      exact ⟨[], reaches_nil.mpr rfl, by simp⟩
    · rintro ⟨taken, ⟨rest', hrest, rfl⟩, -⟩
      obtain ⟨rfl, rfl⟩ := List.append_eq_nil_iff.mp hrest.symm
      rw [List.append_nil]
      rfl
  | cons c rest ih =>
    have hstep : runEnds accepts (size front + c.utf8Size) (some c) rest =
        runEnds accepts (size (front ++ [c])) (front ++ [c]).getLast? rest := by
      rw [size_append, size_singleton, List.getLast?_concat]
    rw [runEnds, List.mem_append, List.mem_singleton, hstep]
    constructor
    · rintro (hrun | rfl)
      · by_cases hc : accepts c = true
        · rw [if_pos hc, ih] at hrun
          obtain ⟨taken, hreach, hall⟩ := hrun
          exact ⟨c :: taken, reaches_cons.mpr ⟨rfl, hreach⟩, List.forall_mem_cons.mpr ⟨hc, hall⟩⟩
        · rw [if_neg hc] at hrun
          exact absurd hrun List.not_mem_nil
      · exact ⟨[], reaches_nil.mpr rfl, by simp⟩
    · rintro ⟨taken, hreach, hall⟩
      cases taken with
      | nil => exact Or.inr (reaches_nil.mp hreach)
      | cons d taken =>
        obtain ⟨rfl, hreach⟩ := reaches_cons.mp hreach
        rw [List.forall_mem_cons] at hall
        rw [if_pos hall.1, ih]
        exact Or.inl ⟨taken, hreach, hall.2⟩

/-- A match that ends at once takes nothing and captures nothing. -/
theorem stays_iff (front rest : List Char) (cap cap' : Option Capture) (stop : Cursor) :
    (stop, cap') = (after front rest, cap) ↔
      ∃ taken, Reaches front rest taken stop ∧ taken = [] ∧ cap' = cap := by
  constructor
  · intro heq
    cases heq
    exact ⟨[], reaches_nil.mpr rfl, rfl, rfl⟩
  · rintro ⟨-, hreach, rfl, rfl⟩
    rw [reaches_nil.mp hreach]

theorem ends_one_cons (accepts : Char → Bool) (front : List Char) (c : Char) (rest : List Char)
    (cap : Option Capture) :
    (one accepts).ends (after front (c :: rest)) cap =
      if accepts c then [(after (front ++ [c]) rest, cap)] else [] := by
  rw [← after_step]
  rfl

/-- The ways to match are exactly the stretches that fit. -/
theorem mem_ends_iff (p : Pattern) (front rest : List Char) (cap cap' : Option Capture)
    (stop : Cursor) :
    (stop, cap') ∈ p.ends (after front rest) cap ↔
      ∃ taken, Reaches front rest taken stop ∧ p.Fits front taken cap cap' := by
  -- the place is general, as each part of a pattern starts where the part before it stops
  induction p generalizing front rest cap cap' stop with
  | nothing =>
    rw [ends, List.mem_singleton, stays_iff]
    rfl
  | one accepts =>
    constructor
    · intro h
      cases rest with
      | nil => exact absurd h List.not_mem_nil
      | cons c rest =>
        rw [ends_one_cons] at h
        split at h
        · rename_i hc
          cases List.mem_singleton.mp h
          exact ⟨[c], reaches_cons.mpr ⟨rfl, reaches_nil.mpr rfl⟩, ⟨c, hc, rfl⟩, rfl⟩
        · exact absurd h List.not_mem_nil
    · rintro ⟨-, ⟨rest', rfl, rfl⟩, ⟨c, hc, rfl⟩, rfl⟩
      rw [List.singleton_append, ends_one_cons, if_pos hc, List.mem_singleton]
  | many accepts =>
    have hruns := mem_runEnds_iff accepts front rest stop
    simp only [ends, Fits, List.mem_map, Prod.mk.injEq]
    constructor
    · rintro ⟨_, hrun, rfl, rfl⟩
      obtain ⟨taken, hreach, hall⟩ := hruns.mp hrun
      exact ⟨taken, hreach, hall, rfl⟩
    · rintro ⟨taken, hreach, hall, rfl⟩
      exact ⟨stop, hruns.mpr ⟨taken, hreach, hall⟩, rfl, rfl⟩
  | maybe p ih =>
    rw [ends, List.mem_append, List.mem_singleton, stays_iff, ih]
    simp only [Fits, and_or_left, exists_or]
  | andThen p q ihp ihq =>
    rw [ends, List.mem_flatMap]
    constructor
    · rintro ⟨⟨mid, capMid⟩, hp, hq⟩
      obtain ⟨head, ⟨rest', rfl, rfl⟩, hhead⟩ := (ihp _ _ _ _ _).mp hp
      obtain ⟨tail, hreach, htail⟩ := (ihq _ _ _ _ _).mp hq
      exact ⟨head ++ tail, reaches_append.mpr ⟨rest', rfl, hreach⟩, head, tail, capMid, rfl, hhead,
        htail⟩
    · rintro ⟨-, hreach, head, tail, capMid, rfl, hhead, htail⟩
      obtain ⟨rest', hrest, hreach⟩ := reaches_append.mp hreach
      refine ⟨(after (front ++ head) rest', capMid), ?_, ?_⟩
      · exact (ihp _ _ _ _ _).mpr ⟨head, ⟨rest', hrest, rfl⟩, hhead⟩
      · exact (ihq _ _ _ _ _).mpr ⟨tail, hreach, htail⟩
  | captured p ih =>
    rw [ends, List.mem_map]
    constructor
    · rintro ⟨⟨mid, inner⟩, hp, heq⟩
      obtain ⟨taken, ⟨rest', rfl, rfl⟩, hfits⟩ := (ih _ _ _ _ _).mp hp
      cases heq
      rw [upTo_after]
      exact ⟨taken, ⟨rest', rfl, rfl⟩, ⟨inner, hfits⟩, rfl⟩
    · rintro ⟨taken, ⟨rest', rfl, rfl⟩, ⟨inner, hfits⟩, rfl⟩
      refine ⟨(after (front ++ taken) rest', inner), ?_, ?_⟩
      · exact (ih _ _ _ _ _).mpr ⟨taken, ⟨rest', rfl, rfl⟩, hfits⟩
      · rw [upTo_after]
        rfl
  | lineStart =>
    have hstart := startsLine_after front rest
    simp only [ends, Fits]
    by_cases h : (after front rest).startsLine = true
    · rw [if_pos h, List.mem_singleton, stays_iff]
      simp only [hstart.mp h, true_and]
    · rw [if_neg h]
      simp only [mt hstart.mpr h, false_and, and_false, exists_false, List.not_mem_nil]

/-! ## Matches from left to right -/

/-- The best way to match behind `front` takes `taken` and captures `cap`. -/
def Prefers (p : Pattern) (front taken rest : List Char) (cap : Option Capture) : Prop :=
  (p.ends (after front (taken ++ rest)) none).head? = some (after (front ++ taken) rest, cap)

/-- The captures of the matches in `rest`: where the best match takes something its capture comes
first and the search goes on behind it, and where it takes nothing or there is none the search goes
on behind the next character. -/
inductive Scans (p : Pattern) : (front rest : List Char) → List Capture → Prop
  | done {front : List Char} : Scans p front [] []
  | found {front taken rest : List Char} {cap : Option Capture} {caps : List Capture} :
    p.Prefers front taken rest cap → taken ≠ [] → Scans p (front ++ taken) rest caps →
      Scans p front (taken ++ rest) (cap.toList ++ caps)
  | passed {front rest : List Char} {c : Char} {caps : List Capture} :
    (∀ taken rest' cap, c :: rest = taken ++ rest' → p.Prefers front taken rest' cap →
      taken = []) → Scans p (front ++ [c]) rest caps → Scans p front (c :: rest) caps

theorem first?_eq_head? (p : Pattern) (cur : Cursor) : p.first? cur = (p.ends cur none).head? := by
  rw [first?, run_eq_findSome?_ends]
  cases p.ends cur none <;> rfl

theorem Prefers.fits {p : Pattern} {front taken rest : List Char} {cap : Option Capture}
    (h : p.Prefers front taken rest cap) : p.Fits front taken none cap := by
  obtain ⟨taken', ⟨rest', htext, hstop⟩, hfits⟩ :=
    (mem_ends_iff _ _ _ _ _ _).mp (List.mem_of_mem_head? h)
  rw [after, after, Cursor.mk.injEq] at hstop
  rw [← hstop.2.2, List.append_cancel_right_eq] at htext
  rwa [htext]

theorem Prefers.first?_eq {p : Pattern} {front taken rest : List Char} {cap : Option Capture}
    (h : p.Prefers front taken rest cap) :
    p.first? (after front (taken ++ rest)) = some (after (front ++ taken) rest, cap) := by
  rw [first?_eq_head?]
  exact h

theorem exists_prefers {p : Pattern} {front rest : List Char} {stop : Cursor}
    {cap : Option Capture} (h : p.first? (after front rest) = some (stop, cap)) :
    ∃ taken rest', rest = taken ++ rest' ∧ stop = after (front ++ taken) rest' ∧
      p.Prefers front taken rest' cap := by
  rw [first?_eq_head?] at h
  obtain ⟨taken, ⟨rest', rfl, rfl⟩, -⟩ :=
    (mem_ends_iff _ _ _ _ _ _).mp (List.mem_of_mem_head? h)
  exact ⟨taken, rest', rfl, rfl, h⟩

/-- Scanning finds the matches from left to right. -/
theorem scans_scan (p : Pattern) (cur : Cursor) (front : List Char)
    (hcur : cur = after front cur.rest) : p.Scans front cur.rest (p.scan cur) := by
  fun_induction scan p cur generalizing front with
  | case1 cur hrest =>
    rw [hrest]
    exact .done
  | case2 cur c rest hrest stop cap hfirst hle ih =>
    rw [hcur] at hfirst
    obtain ⟨taken, rest', htext, rfl, hprefers⟩ := exists_prefers hfirst
    rw [htext]
    refine .found hprefers ?_ (ih _ rfl)
    -- a match that takes nothing leaves more than the search allows for
    rintro rfl
    rw [htext, List.nil_append] at hrest
    rw [after, hrest, List.length_cons] at hle
    omega
  | case3 cur c rest hrest stop cap hfirst hle ih =>
    rw [hrest] at hcur ⊢
    have hstep : cur.step c rest = after (front ++ [c]) rest := by rw [hcur, after_step]
    rw [hstep] at ih ⊢
    refine .passed ?_ (ih _ rfl)
    -- the best match is the one that was passed over for taking nothing
    intro taken rest' cap' htext hprefers
    rw [hcur, htext, hprefers.first?_eq, Option.some.injEq, Prod.mk.injEq] at hfirst
    rw [← hfirst.1] at hle
    change ¬rest'.length ≤ rest.length at hle
    have hlen := congrArg List.length htext
    rw [List.length_cons, List.length_append] at hlen
    exact List.length_eq_zero_iff.mp (by omega)
  | case4 cur c rest hrest hfirst ih =>
    rw [hrest] at hcur ⊢
    have hstep : cur.step c rest = after (front ++ [c]) rest := by rw [hcur, after_step]
    rw [hstep] at ih ⊢
    refine .passed ?_ (ih _ rfl)
    intro taken rest' cap' htext hprefers
    rw [hcur, htext, hprefers.first?_eq] at hfirst
    exact absurd hfirst (Option.some_ne_none _)

/-- There is only one way to go from left to right. -/
theorem Scans.unique {p : Pattern} {front rest : List Char} {caps caps' : List Capture}
    (h : p.Scans front rest caps) (h' : p.Scans front rest caps') : caps = caps' := by
  induction h generalizing caps' with
  | done =>
    generalize htext : [] = text at h'
    cases h' with
    | done => rfl
    | found _ hne _ => exact absurd (List.append_eq_nil_iff.mp htext.symm).1 hne
    | passed => exact absurd htext (List.cons_ne_nil _ _).symm
  | @found front taken rest cap caps hprefers hne _ ih =>
    generalize htext : taken ++ rest = text at h'
    cases h' with
    | done => exact absurd (List.append_eq_nil_iff.mp htext).1 hne
    | @found _ taken' rest' cap' caps' hprefers' _ hscans' =>
      have hfirst := hprefers.first?_eq
      rw [htext, hprefers'.first?_eq, Option.some.injEq, Prod.mk.injEq] at hfirst
      obtain ⟨hstop, rfl⟩ := hfirst
      obtain rfl : rest' = rest := congrArg Cursor.rest hstop
      obtain rfl := List.append_cancel_right htext
      rw [ih hscans']
    | passed hnone _ => exact absurd (hnone taken rest cap htext.symm hprefers) hne
  | @passed front rest c caps hnone _ ih =>
    generalize htext : c :: rest = text at h'
    cases h' with
    | done => exact absurd htext (List.cons_ne_nil _ _)
    | found hprefers' hne' _ => exact absurd (hnone _ _ _ htext hprefers') hne'
    | passed _ hscans' =>
      obtain ⟨rfl, rfl⟩ := List.cons.inj htext
      exact ih hscans'

/-- What a text yields are the captures of its matches from left to right. -/
theorem scans_iff_eq_captures (p : Pattern) (text : List Char) (caps : List Capture) :
    p.Scans [] text caps ↔ caps = p.captures text := by
  have hscans : p.Scans [] text (p.captures text) := p.scans_scan { rest := text } [] rfl
  constructor
  · intro h
    exact h.unique hscans
  · rintro rfl
    exact hscans

/-! ## Where captures stand -/

/-- Whether every match of the pattern captures something that is, with all that stands before it
and with what the match takes after it, as `P` says. -/
def CapturesIn (p : Pattern) (P : (before text post : List Char) → Prop) : Prop :=
  ∀ front taken cap, p.Fits front taken none cap →
    ∃ pre text post, taken = pre ++ text ++ post ∧ cap = some ⟨text, size (front ++ pre)⟩ ∧
      text ≠ [] ∧ P (front ++ pre) text post

section Captures

variable {p : Pattern} {P : (before text post : List Char) → Prop} {front rest : List Char}
  {caps : List Capture} {c : Capture}

/-- A capture stands in the text, at its offset, as the pattern says. -/
theorem Scans.exists_of_mem (h : p.Scans front rest caps) (hp : p.CapturesIn P) (hc : c ∈ caps) :
    ∃ before post rest', front ++ rest = before ++ c.text ++ (post ++ rest') ∧
      c.offset = size before ∧ c.text ≠ [] ∧ P before c.text post := by
  induction h with
  | done => exact absurd hc List.not_mem_nil
  | @found front taken rest cap caps hprefers _ _ ih =>
    rcases List.mem_append.mp hc with hcap | hcaps
    · obtain ⟨pre, text, post, rfl, rfl, hne, hP⟩ := hp _ _ _ hprefers.fits
      rw [Option.toList_some, List.mem_singleton] at hcap
      subst hcap
      exact ⟨front ++ pre, post, rest, by simp, rfl, hne, hP⟩
    · rw [← List.append_assoc]
      exact ih hcaps
  | passed _ _ ih =>
    rw [← List.singleton_append, ← List.append_assoc]
    exact ih hc

theorem Scans.size_le_offset (h : p.Scans front rest caps) (hp : p.CapturesIn P) (hc : c ∈ caps) :
    size front ≤ c.offset := by
  induction h with
  | done => exact absurd hc List.not_mem_nil
  | @found front taken rest cap caps hprefers _ _ ih =>
    rcases List.mem_append.mp hc with hcap | hcaps
    · obtain ⟨pre, text, post, rfl, rfl, -, -⟩ := hp _ _ _ hprefers.fits
      rw [Option.toList_some, List.mem_singleton] at hcap
      subst hcap
      rw [size_append]
      exact Nat.le_add_right _ _
    · have := ih hcaps
      rw [size_append] at this
      omega
  | passed _ _ ih =>
    have := ih hc
    rw [size_append] at this
    omega

/-- Each capture of a pattern starts after the ones before it. -/
theorem Scans.pairwise (h : p.Scans front rest caps) (hp : p.CapturesIn P) :
    caps.Pairwise fun c d => c.offset < d.offset := by
  induction h with
  | done => exact List.Pairwise.nil
  | @found front taken rest cap caps hprefers _ hscans ih =>
    obtain ⟨pre, text, post, rfl, rfl, hne, -⟩ := hp _ _ _ hprefers.fits
    refine List.pairwise_cons.mpr ⟨?_, ih⟩
    intro d hd
    have hle := hscans.size_le_offset hp hd
    have htext := size_pos hne
    simp only [size_append] at hle ⊢
    omega
  | passed _ _ ih => exact ih

theorem exists_of_mem_captures {text : List Char} (hp : p.CapturesIn P)
    (hc : c ∈ p.captures text) :
    ∃ before post rest, text = before ++ c.text ++ (post ++ rest) ∧ c.offset = size before ∧
      c.text ≠ [] ∧ P before c.text post :=
  ((p.scans_iff_eq_captures text _).mpr rfl).exists_of_mem hp hc

/-- No two captures of a pattern start at one place. -/
theorem eq_of_offset_eq {text : List Char} {d : Capture} (hp : p.CapturesIn P)
    (hc : c ∈ p.captures text) (hd : d ∈ p.captures text) (h : c.offset = d.offset) : c = d := by
  have nodup : ((p.captures text).map Capture.offset).Nodup := by
    rw [List.nodup_iff_pairwise_ne, List.pairwise_map]
    exact (((p.scans_iff_eq_captures text _).mpr rfl).pairwise hp).imp Nat.ne_of_lt
  exact List.inj_on_of_nodup_map nodup hc hd h

end Captures

/-! ## Patterns one after the other -/

/-- Whether the pattern captures nothing. -/
def Plain : Pattern → Prop
  | maybe p => p.Plain
  | andThen p q => p.Plain ∧ q.Plain
  | captured _ => False
  | _ => True

theorem Fits.eq_of_plain {p : Pattern} {front taken : List Char} {cap cap' : Option Capture}
    (h : p.Fits front taken cap cap') (hp : p.Plain) : cap' = cap := by
  induction p generalizing front taken cap cap' with
  | nothing => exact h.2
  | one accepts => exact h.2
  | many accepts => exact h.2
  | maybe p ih =>
    rcases h with h | ⟨-, heq⟩
    · exact ih h hp
    · exact heq
  | andThen p q ihp ihq =>
    obtain ⟨head, tail, mid, -, hhead, htail⟩ := h
    rw [ihq htail hp.2, ihp hhead hp.1]
  | captured p => exact absurd hp id
  | lineStart => exact h.2.2

theorem fits_all_append {ps qs : List Pattern} {front taken : List Char}
    {cap cap' : Option Capture} :
    (all (ps ++ qs)).Fits front taken cap cap' ↔
      ∃ head tail mid, taken = head ++ tail ∧ (all ps).Fits front head cap mid ∧
        (all qs).Fits (front ++ head) tail mid cap' := by
  induction ps generalizing front taken cap with
  | nil =>
    constructor
    · intro h
      exact ⟨[], taken, cap, rfl, ⟨rfl, rfl⟩, by rwa [List.append_nil]⟩
    · rintro ⟨head, tail, mid, rfl, ⟨rfl, rfl⟩, h⟩
      rwa [List.append_nil] at h
  | cons p ps ih =>
    constructor
    · rintro ⟨head, rest, mid, rfl, hhead, hrest⟩
      obtain ⟨head', tail, mid', rfl, hhead', htail⟩ := ih.mp hrest
      refine ⟨head ++ head', tail, mid', by rw [List.append_assoc], ?_, ?_⟩
      · exact ⟨head, head', mid, rfl, hhead, hhead'⟩
      · rwa [← List.append_assoc]
    · rintro ⟨front', tail, mid', rfl, ⟨head, head', mid, rfl, hhead, hhead'⟩, htail⟩
      refine ⟨head, head' ++ tail, mid, by rw [List.append_assoc], hhead, ?_⟩
      exact ih.mpr ⟨head', tail, mid', rfl, hhead', by rwa [← List.append_assoc] at htail⟩

theorem plain_all {ps : List Pattern} (h : ∀ p ∈ ps, p.Plain) : (all ps).Plain := by
  induction ps with
  | nil => trivial
  | cons p ps ih =>
    rw [List.forall_mem_cons] at h
    exact ⟨h.1, ih h.2⟩

theorem fits_word {s : String} {front taken : List Char} {cap cap' : Option Capture} :
    (word s).Fits front taken cap cap' ↔ taken = s.toList ∧ cap' = cap := by
  rw [word]
  induction s.toList generalizing front taken with
  | nil => rfl
  | cons c cs ih =>
    constructor
    · rintro ⟨-, tail, mid, rfl, ⟨⟨d, hd, rfl⟩, rfl⟩, htail⟩
      obtain ⟨rfl, rfl⟩ := ih.mp htail
      rw [beq_iff_eq] at hd
      rw [hd]
      exact ⟨rfl, rfl⟩
    · rintro ⟨rfl, rfl⟩
      refine ⟨[c], cs, _, rfl, ⟨⟨c, beq_self_eq_true c, rfl⟩, rfl⟩, ih.mpr ⟨rfl, rfl⟩⟩

theorem fits_some1 {accepts : Char → Bool} {front taken : List Char} {cap cap' : Option Capture} :
    (some1 accepts).Fits front taken cap cap' ↔
      taken ≠ [] ∧ (∀ c ∈ taken, accepts c = true) ∧ cap' = cap := by
  constructor
  · rintro ⟨-, tail, mid, rfl, ⟨⟨c, hc, rfl⟩, rfl⟩, htail, rfl⟩
    exact ⟨List.cons_ne_nil _ _, List.forall_mem_cons.mpr ⟨hc, htail⟩, rfl⟩
  · rintro ⟨hne, hall, rfl⟩
    obtain ⟨c, tail, rfl⟩ := List.exists_cons_of_ne_nil hne
    rw [List.forall_mem_cons] at hall
    exact ⟨[c], tail, _, rfl, ⟨⟨c, hall.1, rfl⟩, rfl⟩, hall.2, rfl⟩

theorem fits_all_singleton {p : Pattern} {front taken : List Char} {cap cap' : Option Capture} :
    (all [p]).Fits front taken cap cap' ↔ p.Fits front taken cap cap' := by
  constructor
  · rintro ⟨head, tail, mid, rfl, hhead, rfl, rfl⟩
    rwa [List.append_nil]
  · intro h
    exact ⟨taken, [], cap', by rw [List.append_nil], h, rfl, rfl⟩

theorem fits_all_pair {p q : Pattern} {front taken : List Char} {cap cap' : Option Capture} :
    (all [p, q]).Fits front taken cap cap' ↔
      ∃ head tail mid, taken = head ++ tail ∧ p.Fits front head cap mid ∧
        q.Fits (front ++ head) tail mid cap' := by
  rw [← List.singleton_append, fits_all_append]
  simp only [fits_all_singleton]

/-- Where one part of a sequence captures what it takes and the other parts capture nothing, a match
captures just that. -/
theorem fits_all_captured {ps qs : List Pattern} {r : Pattern} (hps : ∀ p ∈ ps, p.Plain)
    (hqs : ∀ q ∈ qs, q.Plain) {front taken : List Char} {cap : Option Capture}
    (h : (all (ps ++ captured r :: qs)).Fits front taken none cap) :
    ∃ pre text post inner, taken = pre ++ text ++ post ∧
      cap = some ⟨text, size (front ++ pre)⟩ ∧ (all ps).Fits front pre none none ∧
        r.Fits (front ++ pre) text none inner ∧
          (all qs).Fits (front ++ pre ++ text) post cap cap := by
  obtain ⟨pre, rest, mid, rfl, hpre, text, post, mid', rfl, ⟨⟨inner, htext⟩, rfl⟩, hpost⟩ :=
    fits_all_append.mp h
  obtain rfl := hpre.eq_of_plain (plain_all hps)
  obtain rfl := hpost.eq_of_plain (plain_all hqs)
  exact ⟨pre, text, post, inner, by rw [List.append_assoc], rfl, hpre, htext, hpost⟩

end Pattern

end ImportScout.Text
