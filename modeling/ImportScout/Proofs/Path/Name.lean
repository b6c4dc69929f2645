import Mathlib.Data.List.Basic
import Mathlib.Data.List.TakeWhile
import ImportScout.Path.Root

/-! # Folders and names

A path is a name without a slash, or a folder, a slash and such a name. Segments, folders and
extensions follow these two shapes: `segments_append` takes a path apart at any slash, and
`dropExtension_append` shows that the extension is taken from the name and from nothing else.
-/

namespace ImportScout.Path

open Text

/-- What follows the last slash of a path. -/
def lastName (path : String) : String :=
  String.ofList (path.toList.reverse.takeWhile (· ≠ '/')).reverse

/-! ## Cutting at the last occurrence of a character -/

/-- A text does not hold `c`, or it holds a last one. -/
theorem last_occurrence (c : Char) (cs : List Char) :
    c ∉ cs ∨ ∃ front back, cs = front ++ c :: back ∧ c ∉ back := by
  by_cases h : c ∈ cs
  · right
    obtain ⟨back, front, hcs, hback⟩ := List.eq_append_cons_of_mem (List.mem_reverse.mpr h)
    refine ⟨front.reverse, back.reverse, ?_, mt List.mem_reverse.mp hback⟩
    rw [← List.reverse_reverse cs, hcs]
    simp
  · exact Or.inl h

section Last

variable {c : Char} {back : List Char} (h : c ∉ back)

include h

private theorem all_ne : ∀ d ∈ back.reverse, decide (d ≠ c) = true := by
  intro d hd
  rw [decide_eq_true_eq]
  rintro rfl
  exact h (List.mem_reverse.mp hd)

theorem takeWhile_reverse_append (front : List Char) :
    (front ++ c :: back).reverse.takeWhile (· ≠ c) = back.reverse := by
  rw [List.reverse_append, List.reverse_cons, List.append_assoc, List.singleton_append,
    List.takeWhile_append_of_pos (all_ne h), List.takeWhile_cons_of_neg (by simp),
    List.append_nil]

theorem dropWhile_reverse_append (front : List Char) :
    (front ++ c :: back).reverse.dropWhile (· ≠ c) = c :: front.reverse := by
  rw [List.reverse_append, List.reverse_cons, List.append_assoc, List.singleton_append,
    List.dropWhile_append_of_pos (all_ne h), List.dropWhile_cons_of_neg (by simp)]

theorem takeWhile_reverse : back.reverse.takeWhile (· ≠ c) = back.reverse := by
  rw [List.takeWhile_eq_self_iff]
  exact all_ne h

theorem dropWhile_reverse : back.reverse.dropWhile (· ≠ c) = [] := by
  rw [List.dropWhile_eq_nil_iff]
  exact all_ne h

end Last

/-! ## The two shapes of a path -/

theorem segments_of_slash_not_mem {cs : List Char} (h : '/' ∉ cs) :
    segments (String.ofList cs) = [String.ofList cs] := by
  rw [segments, String.toList_ofList, List.splitOn_eq_singleton h]
  rfl

theorem segments_append (dir rest : List Char) :
    segments (String.ofList (dir ++ '/' :: rest)) =
      segments (String.ofList dir) ++ segments (String.ofList rest) := by
  rw [segments, segments, segments, String.toList_ofList, String.toList_ofList,
    String.toList_ofList, List.splitOn_append_cons_self, List.map_append]

/-- A slash in front is an empty segment more. -/
theorem segments_slash_cons (cs : List Char) :
    segments (String.ofList ('/' :: cs)) = "" :: segments (String.ofList cs) := by
  have hempty : segments (String.ofList []) = [""] := by decide
  rw [← List.nil_append ('/' :: cs), segments_append, hempty]
  rfl

/-- A `./` in front is a segment more. -/
theorem segments_here (cs : List Char) :
    segments (String.ofList ('.' :: '/' :: cs)) = "." :: segments (String.ofList cs) := by
  have hhere : segments (String.ofList ['.']) = ["."] := by decide
  rw [← List.singleton_append, segments_append, hhere]
  rfl

theorem segments_slash_append (dir rest : String) :
    segments (dir ++ "/" ++ rest) = segments dir ++ segments rest := by
  have hsegs := segments_append dir.toList rest.toList
  rw [String.ofList_toList, String.ofList_toList] at hsegs
  rw [← hsegs]
  congr 1
  apply String.toList_injective
  simp

theorem segments_ne_nil (path : String) : segments path ≠ [] := by
  simp [segments, List.splitOn_ne_nil]

section Shapes

variable {dir name : List Char} (h : '/' ∉ name)

include h

theorem lastName_append : lastName (String.ofList (dir ++ '/' :: name)) = String.ofList name := by
  rw [lastName, String.toList_ofList, takeWhile_reverse_append h, List.reverse_reverse]

theorem lastName_of_slash_not_mem : lastName (String.ofList name) = String.ofList name := by
  rw [lastName, String.toList_ofList, takeWhile_reverse h, List.reverse_reverse]

theorem folder_append : folder (String.ofList (dir ++ '/' :: name)) = String.ofList dir := by
  rw [folder, String.toList_ofList, dropWhile_reverse_append h, List.drop_one, List.tail_cons,
    List.reverse_reverse]

theorem folder_of_slash_not_mem : folder (String.ofList name) = "" := by
  rw [folder, String.toList_ofList, dropWhile_reverse h]
  rfl

private theorem dropExtension_of_slash_not_mem :
    dropExtension (String.ofList name) =
      match (name.reverse.dropWhile (· ≠ '.')).drop 1 with
      | [] => String.ofList name
      | stem => String.ofList stem.reverse := by
  rw [dropExtension, String.toList_ofList, takeWhile_reverse h, dropWhile_reverse h]
  rfl

/-- The extension of a path is the extension of its name. -/
theorem dropExtension_append :
    dropExtension (String.ofList (dir ++ '/' :: name)) =
      String.ofList (dir ++ '/' :: (dropExtension (String.ofList name)).toList) := by
  rw [dropExtension_of_slash_not_mem h, dropExtension, String.toList_ofList,
    takeWhile_reverse_append h, dropWhile_reverse_append h]
  cases (name.reverse.dropWhile (· ≠ '.')).drop 1 with
  | nil => simp only [String.toList_ofList]
  | cons c stem => simp

/-- A name that has no dot beyond its first character has no extension. -/
theorem dropExtension_of_dot_not_mem_tail (hdot : '.' ∉ name.tail) :
    dropExtension (String.ofList name) = String.ofList name := by
  rw [dropExtension_of_slash_not_mem h]
  rcases last_occurrence '.' name with hno | ⟨stem, ext, rfl, hext⟩
  · rw [dropWhile_reverse hno]
    rfl
  · rw [dropWhile_reverse_append hext]
    cases stem with
    | nil => rfl
    | cons d stem => simp at hdot

end Shapes

/-- Dropping the extension leaves the folders in front alone. -/
theorem dropExtension_below (dir rest : List Char) :
    dropExtension (String.ofList (dir ++ '/' :: rest)) =
      String.ofList (dir ++ '/' :: (dropExtension (String.ofList rest)).toList) := by
  rcases last_occurrence '/' rest with h | ⟨inner, name, rfl, h⟩
  · exact dropExtension_append h
  · rw [dropExtension_append h, String.toList_ofList, ← List.cons_append, ← List.append_assoc,
      dropExtension_append h, List.append_assoc, List.cons_append]

/-- The extension of a name is what its last dot starts, unless that dot starts the name. -/
theorem dropExtension_dot {stem ext : List Char} (h : '/' ∉ stem ++ '.' :: ext) (hstem : stem ≠ [])
    (hext : '.' ∉ ext) :
    dropExtension (String.ofList (stem ++ '.' :: ext)) = String.ofList stem := by
  rw [dropExtension_of_slash_not_mem h, dropWhile_reverse_append hext, List.drop_one,
    List.tail_cons]
  obtain ⟨d, rest, hrev⟩ := List.exists_cons_of_ne_nil (mt List.reverse_eq_nil_iff.mp hstem)
  rw [hrev]
  show String.ofList (d :: rest).reverse = String.ofList stem
  rw [← hrev, List.reverse_reverse]

/-- A name has no extension, or it is a stem, a dot and an extension without a dot. -/
theorem extension_cases (name : List Char) :
    '.' ∉ name.tail ∨ ∃ stem ext, name = stem ++ '.' :: ext ∧ stem ≠ [] ∧ '.' ∉ ext := by
  rcases last_occurrence '.' name with hno | ⟨stem, ext, rfl, hext⟩
  · exact Or.inl fun hmem => hno (List.mem_of_mem_tail hmem)
  · cases stem with
    | nil => exact Or.inl hext
    | cons d stem => exact Or.inr ⟨d :: stem, ext, rfl, List.cons_ne_nil _ _, hext⟩

/-- The extension is taken from the end. -/
theorem prefix_dropExtension (path : String) : (dropExtension path).toList <+: path.toList := by
  have hname {name : List Char} (h : '/' ∉ name) :
      (dropExtension (String.ofList name)).toList <+: name := by
    rcases extension_cases name with hdot | ⟨stem, ext, rfl, hstem, hext⟩
    · simp [dropExtension_of_dot_not_mem_tail h hdot]
    · rw [dropExtension_dot h hstem hext, String.toList_ofList]
      exact List.prefix_append stem ('.' :: ext)
  obtain ⟨cs, rfl⟩ : ∃ cs, path = String.ofList cs := ⟨path.toList, by simp⟩
  rw [String.toList_ofList]
  rcases last_occurrence '/' cs with h | ⟨dir, name, rfl, h⟩
  · exact hname h
  · rw [dropExtension_append h, String.toList_ofList, List.prefix_append_right_inj,
      List.prefix_cons_inj]
    exact hname h

theorem slash_not_mem_dropExtension {name : List Char} (h : '/' ∉ name) :
    '/' ∉ (dropExtension (String.ofList name)).toList := by
  intro hmem
  have hname := (prefix_dropExtension (String.ofList name)).subset hmem
  rw [String.toList_ofList] at hname
  exact h hname

/-- The extension is taken from the last segment, and the segments of the folder stay. -/
theorem dropLast_segments_dropExtension (path : String) :
    (segments (dropExtension path)).dropLast = (segments path).dropLast := by
  obtain ⟨cs, rfl⟩ : ∃ cs, path = String.ofList cs := ⟨path.toList, by simp⟩
  rcases last_occurrence '/' cs with h | ⟨dir, name, rfl, h⟩
  · have hstem := segments_of_slash_not_mem (slash_not_mem_dropExtension h)
    rw [String.ofList_toList] at hstem
    rw [hstem, segments_of_slash_not_mem h]
    rfl
  · rw [dropExtension_append h, segments_append, segments_append,
      segments_of_slash_not_mem (slash_not_mem_dropExtension h), segments_of_slash_not_mem h,
      List.dropLast_concat, List.dropLast_concat]

end ImportScout.Path
