import Mathlib.Data.List.Infix
import ImportScout.Glob.Cache
import ImportScout.Proofs.Text.Utf8

/-! # Globs that spell a name

A literal token takes the bytes of its character from the front of a rest, so a list of them leaves
what follows the bytes of a whole text (`mem_advanceAll_literals`). Alone it describes the path that
is this text (`accepts_literals`), and with leading segments in front the paths that end in it, as a
whole or behind a slash (`acceptsBytes_leading_literals`). Whatever a token leaves is an end of the
path, which is why keeping one rest of each length loses none (`mem_distinct_iff`). A text without
wildcards and backslashes is read as such a list, so it is a glob that describes itself and no other
path (`exists_glob_of_isLiteral`).
-/

namespace ImportScout.Glob

open Text

variable {sep : Separator} {text bs rest : Bytes} {left : List Bytes} {cs : List Char}
  {path : String}

/-! ## One rest of each length -/

section Numbers

variable {α : Type} {entries : List (ℕ × α)} {entry : ℕ × α}

theorem mem_of_mem_distinctNumbers (h : entry ∈ distinctNumbers entries) : entry ∈ entries := by
  induction entries with
  | nil => exact h
  | cons first others ih =>
    rcases List.mem_cons.mp h with rfl | h
    · exact List.mem_cons_self
    · exact List.mem_cons_of_mem first (ih (List.mem_filter.mp h).1)

/-- Each number is kept with one of its entries. -/
theorem exists_mem_distinctNumbers (h : entry ∈ entries) :
    ∃ kept ∈ distinctNumbers entries, kept.1 = entry.1 := by
  induction entries with
  | nil => exact absurd h List.not_mem_nil
  | cons first others ih =>
    by_cases hfirst : first.1 = entry.1
    · exact ⟨first, List.mem_cons_self, hfirst⟩
    · have hothers : entry ∈ others := by
        rcases List.mem_cons.mp h with rfl | hothers
        · exact absurd rfl hfirst
        · exact hothers
      obtain ⟨kept, hkept, hnumber⟩ := ih hothers
      exact ⟨kept, List.mem_cons_of_mem first (List.mem_filter.mpr
        ⟨hkept, by simpa [hnumber] using Ne.symm hfirst⟩), hnumber⟩

end Numbers

/-- Of the ends of one text none is lost. -/
theorem mem_distinct_iff (hleft : ∀ bs ∈ left, bs <:+ text) :
    rest ∈ distinct left ↔ rest ∈ left := by
  constructor
  · intro h
    obtain ⟨entry, hentry, rfl⟩ := List.mem_map.mp h
    obtain ⟨bs, hbs, rfl⟩ := List.mem_map.mp (mem_of_mem_distinctNumbers hentry)
    exact hbs
  · intro h
    obtain ⟨kept, hkept, hnumber⟩ := exists_mem_distinctNumbers
      (List.mem_map_of_mem (f := fun bs : Bytes => (bs.length, bs)) h)
    obtain ⟨bs, hbs, rfl⟩ := List.mem_map.mp (mem_of_mem_distinctNumbers hkept)
    have hsuffix := List.suffix_of_suffix_length_le (hleft bs hbs) (hleft rest h) hnumber.le
    exact List.mem_map.mpr ⟨_, hkept, hsuffix.eq_of_length hnumber⟩

/-! ## What a token leaves -/

theorem suffix_of_mem_rests (h : rest ∈ rests text) : rest <:+ text := by
  induction text with
  | nil => simp_all [rests]
  | cons b bs ih =>
    rcases List.mem_cons.mp h with rfl | h
    · exact List.suffix_rfl
    · exact (ih h).trans (List.suffix_cons b bs)

theorem suffix_of_mem_restsWhile {accepts : UInt8 → Bool} (h : rest ∈ restsWhile accepts text) :
    rest <:+ text := by
  induction text with
  | nil => simp_all [restsWhile]
  | cons b bs ih =>
    rcases List.mem_cons.mp h with rfl | h
    · exact List.suffix_rfl
    · split at h
      · exact (ih h).trans (List.suffix_cons b bs)
      · exact absurd h List.not_mem_nil

theorem mem_restsAfterSlash_iff : rest ∈ restsAfterSlash text ↔ slash :: rest <:+ text := by
  induction text with
  | nil => simp [restsAfterSlash]
  | cons b bs ih =>
    rw [restsAfterSlash, List.suffix_cons_iff, ← ih]
    split
    · simp_all
    · simp_all [eq_comm]

theorem suffix_of_mem_restsAfterSlash (h : rest ∈ restsAfterSlash text) : rest <:+ text :=
  (List.suffix_cons slash rest).trans (mem_restsAfterSlash_iff.mp h)

/-- A literal token takes the bytes of its character. -/
theorem mem_simpleRests_literal {c : Char} :
    rest ∈ simpleRests sep (.literal c) bs ↔ String.utf8EncodeChar c ++ rest = bs := by
  simp only [simpleRests, List.isPrefixOf_iff_prefix]
  split
  · rename_i h
    obtain ⟨others, rfl⟩ := h
    simp
  · rename_i h
    exact ⟨fun hrest => absurd hrest List.not_mem_nil, fun hrest => absurd ⟨rest, hrest⟩ h⟩

/-- Every rest that a token leaves is an end of what it was given. -/
theorem suffix_of_mem_simpleRests {t : Token} (h : rest ∈ simpleRests sep t bs) : rest <:+ bs := by
  cases t with
  | literal c => exact mem_simpleRests_literal.mp h ▸ List.suffix_append _ rest
  | star =>
    rw [simpleRests] at h
    split at h
    · exact suffix_of_mem_rests h
    · exact suffix_of_mem_restsWhile h
  | leading =>
    rcases List.mem_cons.mp h with rfl | h
    · exact List.suffix_rfl
    · exact suffix_of_mem_restsAfterSlash h
  | choice branches => exact absurd h List.not_mem_nil
  | any | oneOf negated ranges =>
    cases bs with
    | nil => exact absurd h List.not_mem_nil
    | cons b bs =>
      obtain ⟨-, h⟩ := List.mem_ite_nil_right.mp h
      exact List.mem_singleton.mp h ▸ List.suffix_cons b bs
  | trailing =>
    cases bs with
    | nil => exact absurd h List.not_mem_nil
    | cons b bs =>
      obtain ⟨-, h⟩ := List.mem_ite_nil_right.mp h
      exact (suffix_of_mem_rests h).trans (List.suffix_cons b bs)
  | between =>
    cases bs with
    | nil => exact absurd h List.not_mem_nil
    | cons b bs =>
      obtain ⟨-, h⟩ := List.mem_ite_nil_right.mp h
      rcases List.mem_cons.mp h with rfl | h
      · exact List.suffix_cons b _
      · exact (suffix_of_mem_restsAfterSlash h).trans (List.suffix_cons b bs)

/-- The rests of a token that is no choice are those it leaves of each rest. -/
theorem mem_advance {t : Token} (ht : ∀ branches, t ≠ .choice branches)
    (hleft : ∀ bs ∈ left, bs <:+ text) :
    rest ∈ t.advance sep left ↔ ∃ bs ∈ left, rest ∈ simpleRests sep t bs := by
  have hrests : ∀ r ∈ left.flatMap (simpleRests sep t), r <:+ text := by
    intro r hr
    obtain ⟨bs, hbs, hr⟩ := List.mem_flatMap.mp hr
    exact (suffix_of_mem_simpleRests hr).trans (hleft bs hbs)
  have hadvance : t.advance sep left = distinct (left.flatMap (simpleRests sep t)) := by
    cases t with
    | choice branches => exact absurd rfl (ht branches)
    | _ => simp [Token.advance]
  rw [hadvance, mem_distinct_iff hrests, List.mem_flatMap]

/-! ## What literal tokens describe -/

/-- Literal tokens take the bytes of the text that they spell. -/
theorem mem_advanceAll_literals (hleft : ∀ bs ∈ left, bs <:+ text) :
    rest ∈ advanceAll sep (cs.map .literal) left ↔ bytes cs ++ rest ∈ left := by
  induction cs generalizing left with
  | nil => simp [advanceAll, bytes]
  | cons c cs ih =>
    have hmem : ∀ r, r ∈ (Token.literal c).advance sep left ↔
        String.utf8EncodeChar c ++ r ∈ left := fun r => by
      simp [mem_advance (t := .literal c) (by simp) hleft, mem_simpleRests_literal]
    have hrests : ∀ r ∈ (Token.literal c).advance sep left, r <:+ text := fun r hr =>
      (List.suffix_append _ r).trans (hleft _ ((hmem r).mp hr))
    rw [List.map_cons, advanceAll, ih hrests, hmem]
    simp [bytes]

/-- A glob describes a path if nothing of it can be left. -/
theorem acceptsBytes_iff {ts : List Token} (hts : ts ≠ [.leading]) :
    (Glob.mk sep ts).acceptsBytes text = true ↔ [] ∈ advanceAll sep ts [text] := by
  have haccepts : (Glob.mk sep ts).acceptsBytes text =
      (advanceAll sep ts [text]).any List.isEmpty := by
    rw [acceptsBytes]
    split
    · rename_i hleading
      exact absurd hleading hts
    · rfl
  simp_rw [haccepts, List.any_eq_true, List.isEmpty_iff, exists_eq_right]

/-- Literal tokens describe the one path that they spell. -/
theorem accepts_literals :
    (Glob.mk sep (cs.map .literal)).accepts path = true ↔ path = String.ofList cs := by
  have hpath : ∀ bs ∈ [bytesOf path], bs <:+ bytesOf path := by simp
  rw [accepts, acceptsBytes_iff (by cases cs <;> simp), mem_advanceAll_literals hpath,
    List.append_nil, List.mem_singleton, eq_comm, ← bytesOf_inj, bytesOf, bytesOf,
    String.toList_ofList]

/-- Literal tokens behind leading segments describe the paths that end in the text they spell, as
the whole path or behind a slash. -/
theorem acceptsBytes_leading_literals (hcs : cs ≠ []) :
    (Glob.mk sep (.leading :: cs.map .literal)).acceptsBytes text = true ↔
      text = bytes cs ∨ slash :: bytes cs <:+ text := by
  have hmem : ∀ r, r ∈ Token.leading.advance sep [text] ↔ r = text ∨ slash :: r <:+ text :=
    fun r => by
      have hpath : ∀ bs ∈ [text], bs <:+ text := by simp
      rw [mem_advance (t := .leading) (by simp) hpath]
      simp [simpleRests, mem_restsAfterSlash_iff]
  have hrests : ∀ r ∈ Token.leading.advance sep [text], r <:+ text := by
    intro r hr
    rcases (hmem r).mp hr with rfl | hr
    · exact List.suffix_rfl
    · exact (List.suffix_cons slash r).trans hr
  rw [acceptsBytes_iff (by simpa using hcs), advanceAll, mem_advanceAll_literals hrests,
    List.append_nil, hmem, eq_comm]

/-! ## Reading them -/

/-- Without wildcards and backslashes each character is read as it is. -/
theorem read_of_isLiteral (style : Style) {p : Progress} (hgroups : p.groups = [])
    (hliteral : isLiteral (String.ofList cs) = true) (hbackslash : '\\' ∉ cs) :
    ∃ q, read style p cs = .ok q ∧ q.groups = [] ∧
      q.branch = (cs.map Token.literal).reverse ++ p.branch := by
  induction cs generalizing p with
  | nil => exact ⟨p, by rw [read], hgroups, rfl⟩
  | cons c cs ih =>
    obtain ⟨hc, hcs⟩ :
        isLiteral (String.ofList [c]) = true ∧ isLiteral (String.ofList cs) = true := by
      simpa [isLiteral] using hliteral
    have hread : read style p (c :: cs) = read style (p.push (.literal c) c) cs := by
      simp only [isLiteral, String.toList_ofList, List.any_cons, List.any_nil, Bool.or_false,
        Bool.not_eq_true', Bool.or_eq_false_iff, beq_eq_false_iff_ne] at hc
      rw [read.eq_def]
      split <;> simp_all [Progress.comma]
    obtain ⟨q, hq, hqgroups, hbranch⟩ := ih (p := p.push (.literal c) c) hgroups hcs
      fun h => hbackslash (List.mem_cons_of_mem c h)
    exact ⟨q, hread.trans hq, hqgroups, by simp [hbranch, Progress.push]⟩

/-- A double star in front of a name is read as leading segments. -/
theorem parse_leading {style : Style} (hliteral : isLiteral (String.ofList cs) = true)
    (hbackslash : '\\' ∉ cs) :
    parse style (String.ofList ('*' :: '*' :: '/' :: cs)) =
      .ok ⟨style.separator, .leading :: cs.map .literal⟩ := by
  obtain ⟨q, hq, hgroups, hbranch⟩ := read_of_isLiteral style
    (p := Progress.push {} .leading '/') rfl hliteral hbackslash
  have hread : read style {} ('*' :: '*' :: '/' :: cs) = .ok q := by
    rw [read]
    exact hq
  rw [parse, String.toList_ofList, hread]
  simp [hgroups, hbranch, Progress.push]

theorem parse_literals {style : Style} (hliteral : isLiteral (String.ofList cs) = true)
    (hbackslash : '\\' ∉ cs) :
    parse style (String.ofList cs) = .ok ⟨style.separator, cs.map .literal⟩ := by
  obtain ⟨q, hq, hgroups, hbranch⟩ :=
    read_of_isLiteral style (p := {}) rfl hliteral hbackslash
  rw [parse, String.toList_ofList, hq]
  simp [hgroups, hbranch]

/-- A path without wildcards and backslashes is a glob that describes this path alone. -/
theorem exists_glob_of_isLiteral {pattern : String} (hliteral : isLiteral pattern = true)
    (hbackslash : '\\' ∉ pattern.toList) :
    ∃ glob, parse searchStyle pattern = .ok glob ∧
      ∀ path, glob.accepts path = true ↔ path = pattern := by
  rw [← String.ofList_toList (s := pattern)] at hliteral ⊢
  exact ⟨_, parse_literals hliteral hbackslash, fun path => accepts_literals⟩

end ImportScout.Glob
