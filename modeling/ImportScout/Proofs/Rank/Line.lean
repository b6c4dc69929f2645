import ImportScout.Proofs.Path.Name
import ImportScout.Proofs.Rank.Queries
import ImportScout.Proofs.Text.Utf8

/-! # Lines and their numbers

The lines of a text are numbered from 1, and two parts of ranking go by these numbers: a part of a
file is located by the number of its first line, and a whole file has the number of its last line.
Locating counts line feeds and whole files count lines, of which a line feed at the end does not
start a further one (`length_lines`). They mean the same numbers: a line is found where it starts
and nowhere else, and what follows its start is empty exactly if its number is beyond that of the
last line (`lineStart?_eq_some_iff`).
-/

namespace ImportScout

namespace Text

/-! ## Line feeds as bytes -/

/-- The byte of a line feed. -/
def lineFeed : UInt8 := 0x0A

/-- No character but the line feed has the byte of the line feed in it. -/
theorem count_utf8EncodeChar (c : Char) :
    (String.utf8EncodeChar c).count lineFeed = if c = '\n' then 1 else 0 := by
  split_ifs with hc
  · subst hc
    decide
  · have hval : c.val.toNat ≠ 10 := fun h => hc (Char.ext (UInt32.toNat_inj.mp h))
    rw [List.count_eq_zero, String.utf8EncodeChar]
    generalize c.val.toNat = v at hval
    split_ifs <;> simp [lineFeed, ← UInt8.toNat_inj] <;> omega

theorem count_bytes (cs : List Char) : (bytes cs).count lineFeed = cs.count '\n' := by
  induction cs with
  | nil => rfl
  | cons c cs ih =>
    rw [bytes, List.flatMap_cons, ← bytes, List.count_append, ih, count_utf8EncodeChar,
      List.count_cons, Nat.add_comm]
    simp

theorem length_bytes (cs : List Char) : (bytes cs).length = size cs := by
  induction cs with
  | nil => rfl
  | cons c cs ih =>
    rw [bytes, List.flatMap_cons, ← bytes, List.length_append, ih, String.length_utf8EncodeChar,
      ← List.singleton_append, size_append, size_singleton]

/-! ## Counting lines -/

theorem length_splitOn (c : Char) (cs : List Char) : (cs.splitOn c).length = cs.count c + 1 := by
  induction cs with
  | nil => rfl
  | cons d cs ih =>
    rw [List.splitOn_cons_eq_if_modifyHead, List.count_cons]
    split_ifs
    · rw [List.length_cons, ih]
    · rw [List.length_modifyHead, ih, Nat.add_zero]

/-- There is a line for each line feed, and one more if something stands behind the last of them. -/
theorem length_lines (cs : List Char) :
    (lines cs).length = cs.count '\n' + if cs = [] ∨ cs.getLast? = some '\n' then 0 else 1 := by
  rcases Path.last_occurrence '\n' cs with hnone | ⟨front, back, rfl, hback⟩
  · have hlast : cs.getLast? ≠ some '\n' := fun h => hnone (List.mem_of_getLast? h)
    rw [lines, List.splitOn_eq_singleton hnone, List.count_eq_zero.mpr hnone]
    cases cs with
    | nil => rfl
    | cons c cs => simp [hlast]
  · rw [lines, List.splitOn_append_cons_self, List.splitOn_eq_singleton hback]
    cases back with
    | nil => simp [length_splitOn]
    | cons c back =>
      have hlast : (c :: back).getLast? ≠ some '\n' := fun h => hback (List.mem_of_getLast? h)
      have hcount : (c :: back).count '\n' = 0 := List.count_eq_zero.mpr hback
      simp [length_splitOn, hcount, List.getLast?_append, hlast]

end Text

open Text

/-- Whether the line with the number `line`, counted from 1, starts at a place of some bytes: at the
top or behind a line feed, with one line feed above it for each line above it. -/
def IsLineStart (bs : Bytes) (line place : ℕ) : Prop :=
  ∃ above below, bs = above ++ below ∧ above.length = place ∧
    above.count lineFeed + 1 = line ∧ (above = [] ∨ above.getLast? = some lineFeed)

variable {cs above below : List Char} {bs : Bytes} {line place : ℕ}

/-! ## Where a line starts -/

/-- A line that starts behind some characters starts behind their bytes. -/
theorem StartsLine.isLineStart (h : StartsLine above line) (below : List Char) :
    IsLineStart (bytes (above ++ below)) line (size above) := by
  obtain ⟨hcount, hend⟩ := h
  refine ⟨bytes above, bytes below, bytes_append _ _, length_bytes _, by rwa [count_bytes], ?_⟩
  refine hend.imp (fun hnil => by rw [hnil]; rfl) fun hlast => ?_
  obtain ⟨front, rfl⟩ := List.getLast?_eq_some_iff.mp hlast
  rw [bytes_append]
  exact List.getLast?_concat

/-- A line starts at one place only. -/
theorem IsLineStart.unique {other : ℕ} (h : IsLineStart bs line place)
    (h' : IsLineStart bs line other) : place = other := by
  -- of two starts the line feed of the later one lies behind the earlier one
  have hnone {above below above' below' : Bytes} (happend : above ++ below = above' ++ below')
      (hcount : above.count lineFeed = above'.count lineFeed)
      (hend : above' = [] ∨ above'.getLast? = some lineFeed)
      (hle : above.length ≤ above'.length) : above.length = above'.length := by
    obtain ⟨more, rfl⟩ := List.prefix_of_prefix_length_le (List.prefix_append above below)
      (happend ▸ List.prefix_append above' below') hle
    cases more using List.reverseRecOn with
    | nil => rw [List.append_nil]
    | append_singleton more b =>
      rw [← List.append_assoc] at hend hcount
      obtain rfl : b = lineFeed := by simpa using hend
      simp only [List.count_append, List.count_singleton_self] at hcount
      omega
  obtain ⟨above, below, rfl, rfl, hline, hend⟩ := h
  obtain ⟨above', below', happend, rfl, hline', hend'⟩ := h'
  have hcount : above.count lineFeed = above'.count lineFeed := by omega
  rcases Nat.le_total above.length above'.length with hle | hle
  · exact hnone happend hcount hend' hle
  · exact (hnone happend.symm hcount.symm hend hle).symm

/-! ## Locating a line -/

theorem isSome_go_iff (offset feeds : ℕ) (cs : List Char) :
    (lineStart?.go offset feeds cs).isSome = true ↔ feeds ≤ cs.count '\n' := by
  fun_induction lineStart?.go offset feeds cs with
  | case1 offset cs => simp
  | case2 offset feeds => simp
  | case3 offset feeds c cs ih =>
    rw [ih, List.count_cons]
    by_cases hc : c = '\n' <;> simp [hc]

/-- A line is found if there are enough line feeds. -/
theorem isSome_lineStart?_iff (cs : List Char) (line : ℕ) :
    (lineStart? cs line).isSome = true ↔ line - 1 ≤ cs.count '\n' := by
  rw [lineStart?]
  split_ifs with htop
  · simp [Nat.sub_eq_zero_of_le htop]
  · exact isSome_go_iff _ _ _

/-- If there are enough line feeds, the line starts somewhere. -/
theorem exists_startsLine {feeds : ℕ} (h : feeds ≤ cs.count '\n') :
    ∃ above below, cs = above ++ below ∧ StartsLine above (feeds + 1) := by
  induction cs generalizing feeds with
  | nil =>
    obtain rfl : feeds = 0 := Nat.le_zero.mp h
    exact ⟨[], [], rfl, rfl, Or.inl rfl⟩
  | cons c cs ih =>
    cases feeds with
    | zero => exact ⟨[], c :: cs, rfl, rfl, Or.inl rfl⟩
    | succ feeds =>
      by_cases hc : c = '\n'
      · subst hc
        rw [List.count_cons_self] at h
        obtain ⟨above, below, rfl, hcount, hend⟩ := ih (Nat.le_of_succ_le_succ h)
        refine ⟨'\n' :: above, below, rfl, by rw [List.count_cons_self, hcount], Or.inr ?_⟩
        rcases hend with rfl | hend
        · rfl
        · rw [List.getLast?_cons, hend, Option.getD_some]
      · rw [List.count_cons_of_ne hc] at h
        obtain ⟨above, below, rfl, hcount, hend⟩ := ih h
        refine ⟨c :: above, below, rfl, by rw [List.count_cons_of_ne hc, hcount], Or.inr ?_⟩
        -- a line below the first is not at the top
        rcases hend with rfl | hend
        · exact absurd hcount (by simp)
        · rw [List.getLast?_cons, hend, Option.getD_some]

/-- A line is found at the number of bytes above it. -/
theorem exists_startsLine_of_lineStart? (hline : 1 ≤ line) (h : lineStart? cs line = some place) :
    ∃ above below, cs = above ++ below ∧ StartsLine above line ∧ size above = place := by
  have hfeeds := (isSome_lineStart?_iff cs line).mp (by rw [h]; rfl)
  obtain ⟨above, below, rfl, hstarts⟩ := exists_startsLine hfeeds
  rw [Nat.sub_add_cancel hline] at hstarts
  refine ⟨above, below, rfl, hstarts, ?_⟩
  rcases Nat.eq_or_lt_of_le hline with rfl | hbelow
  · obtain ⟨hcount, hend⟩ := hstarts
    obtain rfl : above = [] := hend.resolve_right fun hlast =>
      List.count_eq_zero.mp (Nat.succ.inj hcount) (List.mem_of_getLast? hlast)
    exact Option.some.inj h
  · rw [lineStart?_append hstarts hbelow] at h
    exact Option.some.inj h

/-! ## Numbers of lines -/

/-- Something stands behind the start of a line exactly if the line is one of the lines of the
text. -/
theorem below_ne_nil_iff (h : StartsLine above line) (hne : above ++ below ≠ []) :
    below ≠ [] ↔ line ≤ (lines (above ++ below)).length := by
  obtain ⟨rfl, hend⟩ := h
  rw [length_lines, List.count_append]
  by_cases hbelow : below = []
  · subst hbelow
    simp_all
  · have hlast : (above ++ below).getLast? = some '\n' → 0 < below.count '\n' := by
      intro h
      rw [List.getLast?_append_of_ne_nil _ hbelow] at h
      exact List.count_pos_iff.mpr (List.mem_of_getLast? h)
    simp only [hbelow, ne_eq, not_false_eq_true, true_iff, hne, false_or]
    split_ifs with hfeed
    · have := hlast hfeed
      omega
    · omega

/-- The line with a given number is found in a text exactly if there are enough line feeds, and then
at the one place where it starts. In a text that is not empty this place is before the end exactly
if the number is at most that of the last line of the whole file. -/
theorem lineStart?_eq_some_iff (text : String) (line : ℕ) (hline : 1 ≤ line) :
    ((∃ place, lineStart? text.toList line = some place) ↔
        line - 1 ≤ text.toList.count '\n') ∧
      (∀ place, lineStart? text.toList line = some place ↔
        IsLineStart (bytesOf text) line place) ∧
      (∀ place other, IsLineStart (bytesOf text) line place →
        IsLineStart (bytesOf text) line other → place = other) ∧
      (text ≠ "" → ∀ place, lineStart? text.toList line = some place →
        ∀ fileName origin, ∃ last, (Snippet.fullFile fileName text origin).endLine = some last ∧
          (place < text.utf8ByteSize ↔ line ≤ last)) := by
  have hsome := isSome_lineStart?_iff text.toList line
  have hfound {place : ℕ} (h : lineStart? text.toList line = some place) :
      IsLineStart (bytesOf text) line place := by
    obtain ⟨above, below, htext, hstarts, rfl⟩ := exists_startsLine_of_lineStart? hline h
    rw [bytesOf, htext]
    exact hstarts.isLineStart below
  refine ⟨by rw [← hsome, Option.isSome_iff_exists], fun place => ⟨hfound, fun h => ?_⟩,
    fun place other => IsLineStart.unique, fun hne place h fileName origin => ?_⟩
  · have hcount : line - 1 ≤ text.toList.count '\n' := by
      obtain ⟨above, below, habove, -, hcount, -⟩ := h
      rw [← count_bytes, ← bytesOf, habove, List.count_append]
      omega
    obtain ⟨other, hother⟩ := Option.isSome_iff_exists.mp (hsome.mpr hcount)
    rw [hother, (hfound hother).unique h]
  · obtain ⟨above, below, htext, hstarts, rfl⟩ := exists_startsLine_of_lineStart? hline h
    have hne : above ++ below ≠ [] := by rwa [← htext, ne_eq, String.toList_eq_nil_iff]
    have hsize : text.utf8ByteSize = size above + size below := by
      rw [← size_append, ← htext, ← utf8ByteSize_ofList, String.ofList_toList]
    -- the top line is one of the lines
    have htop : 1 ≤ (lines (above ++ below)).length :=
      (below_ne_nil_iff ⟨rfl, Or.inl rfl⟩ hne).mp hne
    refine ⟨_, rfl, ?_⟩
    rw [htext, max_eq_right htop, ← below_ne_nil_iff hstarts hne, hsize, Nat.lt_add_right_iff_pos]
    exact ⟨fun hpos hnil => absurd hpos (by rw [hnil]; decide), size_pos⟩

/-- The last line of a text with a carriage return, an empty line and a line feed at the end, and
the line after it. -/
theorem lineStart?_eq_some_at_end :
    let text := "é\r\n\nx\n"
    lineStart? text.toList 3 = some 5 ∧ lineStart? text.toList 4 = some 7 ∧
      IsLineStart (bytesOf text) 4 7 ∧ (∀ other, IsLineStart (bytesOf text) 4 other → 7 = other) ∧
        (¬∃ place, lineStart? text.toList 5 = some place) ∧
          (Snippet.fullFile "a.txt" text .user).endLine = some 3 ∧ ¬7 < text.utf8ByteSize := by
  intro text
  have hfound : lineStart? text.toList 4 = some 7 := by decide +kernel
  have hlast : (Snippet.fullFile "a.txt" text .user).endLine = some 3 := by decide +kernel
  obtain ⟨-, hplace, hunique, hend⟩ := lineStart?_eq_some_iff text 4 (by decide)
  have hstart := (hplace 7).mp hfound
  refine ⟨by decide +kernel, hfound, hstart, fun other => hunique 7 other hstart, ?_, hlast, ?_⟩
  · rw [(lineStart?_eq_some_iff text 5 (by decide)).1]
    decide +kernel
  · obtain ⟨last, heq, hbefore⟩ := hend (by decide) 7 hfound "a.txt" .user
    obtain rfl : last = 3 := Option.some.inj (heq.symm.trans hlast)
    rw [hbefore]
    decide

end ImportScout
