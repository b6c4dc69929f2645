import ImportScout.Command.Basic
import ImportScout.Path.Root
import ImportScout.Proofs.Text.Replace

/-! # Filling the places of a command

An argument is made of places for the file, places for the offset and other characters, and reads as
such in one way from left to right (`pieces`). Filling the places of one kind after the other fills
them all at once, unless the path of the file brings in a new place of the offset, by itself or with
what stands around it: exactly then the two differ (`expand_eq_expandAtOnce_iff`). A path that
starts with a slash and has no opening brace brings in none.
-/

namespace ImportScout.Command

open Text

/-- What an argument is made of. -/
inductive Piece where
  | plain (c : Char)
  | file
  | offset
  deriving DecidableEq

/-- The pieces of an argument, read from left to right. -/
def pieces : List Char → List Piece
  | '\x7b' :: 'f' :: 'i' :: 'l' :: 'e' :: '\x7d' :: cs => .file :: pieces cs
  | '\x7b' :: 'o' :: 'f' :: 'f' :: 's' :: 'e' :: 't' :: '\x7d' :: cs => .offset :: pieces cs
  | c :: cs => .plain c :: pieces cs
  | [] => []

/-- What is put for a piece. -/
def Piece.fill (file offset : List Char) : Piece → List Char
  | .plain c => [c]
  | .file => file
  | .offset => offset

/-- The text that pieces are filled to. -/
def fillAll (file offset : List Char) (ps : List Piece) : List Char :=
  ps.flatMap (Piece.fill file offset)

@[simp] theorem fillAll_nil (file offset : List Char) : fillAll file offset [] = [] := rfl

@[simp] theorem fillAll_cons (file offset : List Char) (p : Piece) (ps : List Piece) :
    fillAll file offset (p :: ps) = p.fill file offset ++ fillAll file offset ps :=
  List.flatMap_cons

/-- A command with the places in its arguments filled, those of the file and those of the offset in
one pass over each argument. -/
def expandAtOnce (c : Command) (file : String) (offset : ℕ) : Command :=
  { c with args := c.args.map fun arg =>
      String.ofList (fillAll file.toList (decimal offset) (pieces arg.toList)) }

variable {file offset cs front : List Char} {ps : List Piece}

/-! ## Pieces -/

@[simp] theorem pieces_file (cs : List Char) : pieces (filePlace ++ cs) = .file :: pieces cs := rfl

@[simp] theorem pieces_offset (cs : List Char) :
    pieces (offsetPlace ++ cs) = .offset :: pieces cs := rfl

/-- A text ends, starts with a place, or starts with a character that starts no place. -/
theorem pieces_induction {motive : List Char → Prop} (nil : motive [])
    (file : ∀ cs, motive cs → motive (filePlace ++ cs))
    (offset : ∀ cs, motive cs → motive (offsetPlace ++ cs))
    (plain : ∀ c cs, ¬filePlace <+: c :: cs → ¬offsetPlace <+: c :: cs →
      pieces (c :: cs) = .plain c :: pieces cs → motive cs → motive (c :: cs))
    (cs : List Char) : motive cs := by
  induction cs using pieces.induct with
  | case1 cs ih => exact file cs ih
  | case2 cs ih => exact offset cs ih
  | case3 c cs hfile hoffset ih =>
    have hfile' : ¬filePlace <+: c :: cs := by
      rintro ⟨rest, hrest⟩
      obtain ⟨rfl, rfl⟩ := List.cons.inj hrest
      exact hfile rest rfl rfl
    have hoffset' : ¬offsetPlace <+: c :: cs := by
      rintro ⟨rest, hrest⟩
      obtain ⟨rfl, rfl⟩ := List.cons.inj hrest
      exact hoffset rest rfl rfl
    refine plain c cs hfile' hoffset' ?_ ih
    rw [pieces] <;> assumption
  | case4 => exact nil

/-! ## The first pass -/

theorem not_filePlace_prefix (cs : List Char) : ¬filePlace <+: offsetPlace ++ cs := by
  simp [filePlace, offsetPlace]

theorem not_offsetPlace_prefix (cs : List Char) : ¬offsetPlace <+: filePlace ++ cs := by
  simp [filePlace, offsetPlace]

/-- The first pass fills the places of the file and leaves those of the offset. -/
theorem replaceAll_filePlace (file cs : List Char) :
    replaceAll filePlace file cs = fillAll file offsetPlace (pieces cs) := by
  induction cs using pieces_induction with
  | nil => simp [pieces, replaceAll]
  | file cs ih =>
    rw [pieces_file, fillAll_cons, ← ih, filePlace, replaceAll_self_append]
    rfl
  | offset cs ih =>
    have hkept : replaceAll filePlace file (offsetPlace ++ cs) =
        offsetPlace ++ replaceAll filePlace file cs := by
      have hfile := not_filePlace_prefix cs
      rw [offsetPlace, List.cons_append] at hfile ⊢
      rw [replaceAll_cons hfile, filePlace, replaceAll_append_of_not_mem (by decide)]
      rfl
    rw [pieces_offset, fillAll_cons, hkept, ih]
    rfl
  | plain c cs hfile hoffset hpieces ih =>
    rw [hpieces, fillAll_cons, replaceAll_cons hfile, ih]
    rfl

/-- The places of the offset are where the offset occurs. -/
theorem occurrences_offsetPlace (cs : List Char) :
    occurrences offsetPlace cs = (pieces cs).count .offset := by
  induction cs using pieces_induction with
  | nil => rfl
  | file cs ih =>
    have hoffset := not_offsetPlace_prefix cs
    rw [pieces_file, List.count_cons_of_ne (by decide), ← ih]
    rw [filePlace, List.cons_append] at hoffset ⊢
    rw [occurrences_cons, if_neg hoffset, offsetPlace, occurrences_append_of_not_mem (by decide),
      Nat.add_zero]
  | offset cs ih =>
    rw [pieces_offset, List.count_cons_self, ← ih, offsetPlace,
      occurrences_self_append (by decide)]
  | plain c cs hfile hoffset hpieces ih =>
    rw [hpieces, List.count_cons_of_ne (by simp), ← ih, occurrences_cons, if_neg hoffset,
      Nat.add_zero]

/-! ## The second pass -/

/-- Filling the places of the file loses no place of the offset. -/
theorem count_offset_le (file : List Char) (ps : List Piece) :
    ps.count .offset ≤ occurrences offsetPlace (fillAll file offsetPlace ps) := by
  induction ps with
  | nil => exact Nat.zero_le _
  | cons p ps ih =>
    rw [fillAll_cons]
    cases p with
    | plain c =>
      rw [List.count_cons_of_ne (by simp)]
      exact ih.trans (occurrences_le_append _ _ _)
    | file =>
      rw [List.count_cons_of_ne (by decide)]
      exact ih.trans (occurrences_le_append _ _ _)
    | offset =>
      rw [List.count_cons_self, Piece.fill, offsetPlace, occurrences_self_append (by decide)]
      exact Nat.succ_le_succ ih

/-- If the file brings in no new place of the offset, the second pass fills those that the argument
has. -/
theorem replaceAll_offsetPlace
    (h : occurrences offsetPlace (fillAll file offsetPlace ps) = ps.count .offset) :
    replaceAll offsetPlace offset (fillAll file offsetPlace ps) = fillAll file offset ps := by
  induction ps with
  | nil => simp [replaceAll]
  | cons p ps ih =>
    have hle := count_offset_le file ps
    rw [fillAll_cons] at h
    -- what is filled for the other pieces stays as it is
    have hkept (hfill : p.fill file offsetPlace = p.fill file offset)
        (hcount : (p :: ps).count .offset = ps.count .offset) :
        replaceAll offsetPlace offset (fillAll file offsetPlace (p :: ps)) =
          fillAll file offset (p :: ps) := by
      rw [hcount] at h
      have hsame := le_antisymm (h.trans_le hle) (occurrences_le_append _ _ _)
      rw [fillAll_cons, fillAll_cons, replaceAll_append_of_occurrences_eq hsame,
        ih (hsame.symm.trans h), hfill]
    cases p with
    | plain c => exact hkept rfl (List.count_cons_of_ne (by simp))
    | file => exact hkept rfl (List.count_cons_of_ne (by decide))
    | offset =>
      rw [List.count_cons_self, Piece.fill, offsetPlace, occurrences_self_append (by decide),
        Nat.add_right_cancel_iff] at h
      rw [fillAll_cons, fillAll_cons, ← ih h, Piece.fill, offsetPlace, replaceAll_self_append]
      rfl

/-- Each place of the offset that is filled takes a brace away. -/
theorem count_brace_fillAll (hoffset : '\x7b' ∉ offset) (file : List Char) (ps : List Piece) :
    (fillAll file offset ps).count '\x7b' + ps.count .offset =
      (fillAll file offsetPlace ps).count '\x7b' := by
  induction ps with
  | nil => rfl
  | cons p ps ih =>
    rw [fillAll_cons, fillAll_cons, List.count_append, List.count_append, ← ih]
    cases p with
    | plain c =>
      rw [List.count_cons_of_ne (by simp), Piece.fill, Piece.fill]
      omega
    | file =>
      rw [List.count_cons_of_ne (by decide), Piece.fill, Piece.fill]
      omega
    | offset =>
      have hone : offsetPlace.count '\x7b' = 1 := by decide
      rw [List.count_cons_self, Piece.fill, Piece.fill, hone, List.count_eq_zero.mpr hoffset]
      omega

/-- Two passes do what one does exactly if the first brings in no new place for the second. -/
theorem replaceAll_replaceAll_eq_iff (hoffset : '\x7b' ∉ offset) (file cs : List Char) :
    replaceAll offsetPlace offset (replaceAll filePlace file cs) =
        fillAll file offset (pieces cs) ↔
      occurrences offsetPlace (replaceAll filePlace file cs) = occurrences offsetPlace cs := by
  rw [replaceAll_filePlace, occurrences_offsetPlace cs]
  refine ⟨fun h => ?_, replaceAll_offsetPlace⟩
  have hfilled := count_brace_fillAll hoffset file (pieces cs)
  have hstart : '\x7b' ∉ offsetPlace.tail := by decide
  have hreplaced := count_replaceAll hstart hoffset (fillAll file offsetPlace (pieces cs))
  change (replaceAll offsetPlace offset _).count '\x7b' + occurrences offsetPlace _ = _ at hreplaced
  rw [h] at hreplaced
  omega

/-! ## Files that bring in no place -/

section Absolute

variable (hbrace : '\x7b' ∉ file)

/-- What stands before a slash or a brace stands in the argument itself. -/
theorem prefix_of_prefix_fillAll (hfront : ∀ d ∈ front, d ≠ '\x7b' ∧ d ≠ '/')
    (h : front <+: fillAll ('/' :: file) offsetPlace (pieces cs)) : front <+: cs := by
  induction cs using pieces_induction generalizing front with
  | nil => exact h
  | file cs ih =>
    rw [pieces_file, fillAll_cons, Piece.fill, List.cons_append] at h
    rcases List.prefix_cons_iff.mp h with rfl | ⟨front, rfl, -⟩
    · exact List.nil_prefix
    · exact absurd rfl (hfront '/' List.mem_cons_self).2
  | offset cs ih =>
    rw [pieces_offset, fillAll_cons, Piece.fill, offsetPlace, List.cons_append] at h
    rcases List.prefix_cons_iff.mp h with rfl | ⟨front, rfl, -⟩
    · exact List.nil_prefix
    · exact absurd rfl (hfront '\x7b' List.mem_cons_self).1
  | plain c cs _ _ hpieces ih =>
    rw [hpieces, fillAll_cons, Piece.fill, List.singleton_append] at h
    rcases List.prefix_cons_iff.mp h with rfl | ⟨front, rfl, hrest⟩
    · exact List.nil_prefix
    · rw [List.forall_mem_cons] at hfront
      exact (List.prefix_cons_inj c).mpr (ih hfront.2 hrest)

include hbrace

/-- A path that starts with a slash and has no brace brings in no place of the offset. -/
theorem occurrences_fillAll_of_absolute (cs : List Char) :
    occurrences offsetPlace (fillAll ('/' :: file) offsetPlace (pieces cs)) =
      occurrences offsetPlace cs := by
  induction cs using pieces_induction with
  | nil => rfl
  | file cs ih =>
    have hplace : occurrences offsetPlace (filePlace ++ cs) = occurrences offsetPlace cs := by
      rw [occurrences_offsetPlace, occurrences_offsetPlace, pieces_file,
        List.count_cons_of_ne (by decide)]
    rw [pieces_file, fillAll_cons, hplace, ← ih, Piece.fill, offsetPlace,
      occurrences_append_of_not_mem (by simpa using hbrace)]
  | offset cs ih =>
    rw [pieces_offset, fillAll_cons, Piece.fill, offsetPlace, occurrences_self_append (by decide),
      occurrences_self_append (by decide)]
    exact congrArg (· + 1) ih
  | plain c cs _ hoffset hpieces ih =>
    have hnone : ¬offsetPlace <+: c :: fillAll ('/' :: file) offsetPlace (pieces cs) := by
      intro hprefix
      obtain ⟨rfl, hrest⟩ := List.cons_prefix_cons.mp hprefix
      exact hoffset ((List.prefix_cons_inj _).mpr (prefix_of_prefix_fillAll (by simp) hrest))
    rw [hpieces, fillAll_cons, Piece.fill, List.singleton_append, occurrences_cons,
      occurrences_cons, if_neg hnone, if_neg hoffset, ih]

end Absolute

/-! ## Commands -/

theorem brace_not_mem_decimal (n : ℕ) : '\x7b' ∉ decimal n := by
  intro hmem
  exact absurd (isDigit_of_mem_decimal hmem) (by decide)

/-- Filling the places of a command does what filling them in one pass over each argument does
exactly if each argument, with the places of the file filled, has as many places of the offset as
before. This is so for every file whose path starts with a slash and has no opening brace. -/
theorem expand_eq_expandAtOnce_iff (c : Command) (file : String) (offset : ℕ) :
    (c.expand file offset = c.expandAtOnce file offset ↔
        ∀ arg ∈ c.args, occurrences offsetPlace (replaceAll filePlace file.toList arg.toList) =
          occurrences offsetPlace arg.toList) ∧
      (Path.isAbsolute file = true → '\x7b' ∉ file.toList →
        c.expand file offset = c.expandAtOnce file offset) := by
  have hiff : c.expand file offset = c.expandAtOnce file offset ↔
      ∀ arg ∈ c.args, occurrences offsetPlace (replaceAll filePlace file.toList arg.toList) =
        occurrences offsetPlace arg.toList := by
    simp only [expand, expandAtOnce, mk.injEq, true_and, List.map_inj_left, expandArg,
      String.ofList_inj, replaceAll_replaceAll_eq_iff (brace_not_mem_decimal offset)]
  refine ⟨hiff, fun habsolute hbrace => hiff.mpr fun arg _ => ?_⟩
  obtain ⟨path, hpath⟩ : ∃ path, file.toList = '/' :: path := by
    rw [Path.isAbsolute, beq_iff_eq, List.head?_eq_some_iff] at habsolute
    exact habsolute
  rw [hpath, List.mem_cons, not_or] at hbrace
  rw [hpath, replaceAll_filePlace, occurrences_fillAll_of_absolute hbrace.2]

/-- A file whose path has braces, and one whose path has none between the two parts of a place. -/
theorem expand_eq_expandAtOnce_of_braces :
    let c : Command := ⟨"sh", ["--at=\x7bfile\x7d:\x7boffset\x7d"]⟩
    let seam : Command := ⟨"sh", ["\x7boff\x7bfile\x7dset\x7d"]⟩
    (c.expand "/p/\x7bid\x7d.ts" 42).args = ["--at=/p/\x7bid\x7d.ts:42"] ∧
      c.expand "/p/\x7bid\x7d.ts" 42 = c.expandAtOnce "/p/\x7bid\x7d.ts" 42 ∧
        (seam.expand "/p/a.ts" 42).args = ["\x7boff/p/a.tsset\x7d"] ∧
          seam.expand "/p/a.ts" 42 = seam.expandAtOnce "/p/a.ts" 42 := by
  intro c seam
  exact ⟨by decide +kernel,
    (expand_eq_expandAtOnce_iff c "/p/\x7bid\x7d.ts" 42).1.mpr (by decide +kernel),
    by decide +kernel,
    (expand_eq_expandAtOnce_iff seam "/p/a.ts" 42).2 (by decide +kernel) (by decide +kernel)⟩

/-- A file whose path holds a place of the offset is handed over as another file, and a place can
come about where a file is filled in. -/
theorem expand_brings_in_offset :
    let c : Command := ⟨"echo", ["\x7bfile\x7d"]⟩
    let seam : Command := ⟨"echo", ["\x7boff\x7bfile\x7d"]⟩
    (c.expand "/p/a\x7boffset\x7d.ts" 7).args = ["/p/a7.ts"] ∧
      (c.expandAtOnce "/p/a\x7boffset\x7d.ts" 7).args = ["/p/a\x7boffset\x7d.ts"] ∧
        (seam.expand "set\x7d" 7).args = ["7"] ∧
          (seam.expandAtOnce "set\x7d" 7).args = ["\x7boffset\x7d"] := by
  decide +kernel

end ImportScout.Command
