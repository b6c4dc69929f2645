import Mathlib.Data.List.Induction
import ImportScout.Disk.Raw
import ImportScout.Proofs.Path.Plain
import ImportScout.Proofs.Text.Decoding

/-! # Names that are texts and names that are not

A text keeps what it is as bytes: its segments (`segments_ofText`), its place in the order of names
(`ofText_lt_ofText_iff`), and what it is shown as (`shown_ofText`). What is no text is shown with
replacement characters in it, but with no slash that it does not have (`IsName.shown`).
-/

namespace ImportScout.Raw

open Text

variable {r a b name path : Raw} {s t : String}

theorem bytes_inj : a.bytes = b.bytes ↔ a = b := by
  cases a
  cases b
  simp

/-! ## Texts -/

theorem toList_shown (r : Raw) : r.shown.toList = decodeLossy r.bytes :=
  String.toList_ofList

@[simp]
theorem shown_ofText (s : String) : (ofText s).shown = s := by
  rw [shown, ofText, bytesOf, decodeLossy_bytes, String.ofList_toList]

@[simp]
theorem ofText_inj : ofText s = ofText t ↔ s = t := by
  rw [← bytes_inj]
  exact bytesOf_inj

@[simp]
theorem ofText_beq_ofText (s t : String) : (ofText s == ofText t) = (s == t) := by
  rw [Bool.eq_iff_iff, beq_iff_eq, beq_iff_eq, ofText_inj]

theorem isText_ofText (s : String) : (ofText s).IsText := by
  rw [IsText, shown_ofText]

theorem map_ofText_shown {names : Place} (h : ∀ name ∈ names, name.IsText) :
    (names.map shown).map ofText = names := by
  rw [List.map_map]
  exact (List.map_congr_left h).trans (List.map_id names)

/-- What is shown without a replacement character is a text. -/
theorem isText_of_not_mem (h : replacement ∉ r.shown.toList) : r.IsText := by
  rw [toList_shown] at h
  rw [IsText, ← bytes_inj, ofText, bytesOf, toList_shown]
  exact (reads_decodeLossy r.bytes).bytes_eq h

/-- A character that is shown stands for its own bytes, unless it is the replacement character. -/
theorem subset_of_mem_shown {c : Char} (hc : c ∈ r.shown.toList) (hne : c ≠ replacement) :
    String.utf8EncodeChar c ⊆ r.bytes := by
  rw [toList_shown] at hc
  exact (reads_decodeLossy r.bytes).subset hc hne

theorem slash_mem_ofText_iff : slash ∈ (ofText s).bytes ↔ '/' ∈ s.toList := by
  have hslash (c : Char) : slash ∈ String.utf8EncodeChar c ↔ c = '/' :=
    mem_utf8EncodeChar_iff (by decide)
  simp [ofText, bytesOf, Text.bytes, List.mem_flatMap, hslash]

/-! ## Names -/

/-- Whether a name says where to go from a folder: it is not empty, is neither `.` nor `..`, and has
no slash. -/
structure IsName (name : Raw) : Prop where
  ne_empty : name ≠ ""
  ne_here : name ≠ "."
  ne_up : name ≠ ".."
  slash_not_mem : slash ∉ name.bytes

instance (name : Raw) : Decidable name.IsName :=
  decidable_of_iff (name ≠ "" ∧ name ≠ "." ∧ name ≠ ".." ∧ slash ∉ name.bytes)
    ⟨fun ⟨hempty, hhere, hup, hslash⟩ => ⟨hempty, hhere, hup, hslash⟩,
      fun ⟨hempty, hhere, hup, hslash⟩ => ⟨hempty, hhere, hup, hslash⟩⟩

theorem isName_ofText_iff : (ofText s).IsName ↔ Path.IsName s := by
  constructor
  · rintro ⟨hempty, hhere, hup, hslash⟩
    exact ⟨mt (congrArg ofText) hempty, mt (congrArg ofText) hhere, mt (congrArg ofText) hup,
      mt slash_mem_ofText_iff.mpr hslash⟩
  · rintro ⟨hempty, hhere, hup, hslash⟩
    exact ⟨mt ofText_inj.mp hempty, mt ofText_inj.mp hhere, mt ofText_inj.mp hup,
      mt slash_mem_ofText_iff.mp hslash⟩

/-- A name is shown as a name. -/
theorem IsName.shown (h : name.IsName) : Path.IsName name.shown := by
  have hne {s : String} (hno : replacement ∉ s.toList) (hs : name ≠ s) : name.shown ≠ s := by
    rintro rfl
    exact hs (isText_of_not_mem hno).symm
  refine ⟨hne (by decide) h.ne_empty, hne (by decide) h.ne_here, hne (by decide) h.ne_up, ?_⟩
  intro hmem
  exact h.slash_not_mem (subset_of_mem_shown hmem (by decide) (by decide))

theorem isIdle_ofText (s : String) : (ofText s).isIdle = Path.isIdle s := by
  simp [isIdle, Path.isIdle]

theorem IsName.isIdle_eq (h : name.IsName) : name.isIdle = false := by
  simp [isIdle, h.ne_empty, h.ne_here]

/-! ## Segments -/

theorem segments_append (front back : Bytes) :
    segments ⟨front ++ slash :: back⟩ = segments ⟨front⟩ ++ segments ⟨back⟩ := by
  rw [segments, List.splitOn_append_cons_self, List.map_append]
  rfl

theorem segments_slash_cons (bs : Bytes) : segments ⟨slash :: bs⟩ = ofText "" :: segments ⟨bs⟩ :=
  segments_append [] bs

theorem segments_ofSegments {segs : List Raw} (hne : segs ≠ [])
    (hslash : ∀ seg ∈ segs, slash ∉ seg.bytes) : (ofSegments segs).segments = segs := by
  rw [segments, ofSegments, List.splitOn_intercalate slash (by simpa using hslash)
    (by simpa using hne), List.map_map]
  exact List.map_id' _

theorem bytes_ofSegments_concat {segs : List Raw} (hne : segs ≠ []) (seg : Raw) :
    (ofSegments (segs ++ [seg])).bytes = (ofSegments segs).bytes ++ slash :: seg.bytes := by
  induction segs with
  | nil => exact absurd rfl hne
  | cons first segs ih =>
    cases segs with
    | nil => simp [ofSegments]
    | cons next segs =>
      simp only [ofSegments, List.cons_append, List.map_cons, List.intercalate_cons_cons] at ih ⊢
      rw [ih (List.cons_ne_nil next segs)]
      simp only [List.append_assoc]

theorem ofText_ofSegments (segs : List String) :
    ofText (Path.ofSegments segs) = ofSegments (segs.map ofText) := by
  rw [← bytes_inj, ofText, bytesOf, Path.ofSegments, String.toList_ofList,
    Path.joinWith_eq_intercalate, ofSegments]
  dsimp only
  induction segs with
  | nil => rfl
  | cons seg segs ih =>
    cases segs with
    | nil => simp [ofText, bytesOf]
    | cons next segs =>
      simp only [List.map_cons, List.intercalate_cons_cons, bytes_append] at ih ⊢
      rw [ih]
      rfl

theorem segments_ofText (path : String) :
    (ofText path).segments = (Path.segments path).map ofText := by
  conv_lhs => rw [← Path.ofSegments_segments path, ofText_ofSegments]
  refine segments_ofSegments ?_ ?_
  · simpa using Path.segments_ne_nil path
  · rw [List.forall_mem_map]
    intro seg hseg
    exact mt slash_mem_ofText_iff.mp (Path.slash_not_mem_of_mem_segments hseg)

theorem isAbsolute_ofText (path : String) : (ofText path).isAbsolute = Path.isAbsolute path := by
  rw [Bool.eq_iff_iff, isAbsolute, Path.isAbsolute, beq_iff_eq, beq_iff_eq, ofText, bytesOf]
  cases path.toList with
  | nil => simp [Text.bytes]
  | cons c cs =>
    obtain ⟨b, bs, hc⟩ := List.exists_cons_of_ne_nil (String.utf8EncodeChar_ne_nil (c := c))
    rw [Text.bytes, List.flatMap_cons, hc]
    simp only [List.cons_append, List.head?_cons, Option.some.injEq]
    constructor
    · rintro rfl
      exact (mem_utf8EncodeChar_iff (by decide)).mp (hc ▸ List.mem_cons_self)
    · rintro rfl
      exact (List.cons.inj hc).1.symm

theorem names_ofText (path : String) : (ofText path).names = (Path.names path).map ofText := by
  rw [names, segments_ofText, Path.names, List.filter_map]
  congr 1
  refine List.filter_congr fun seg _ => ?_
  simp [isIdle_ofText]

/-! ## Order -/

instance : PartialOrder Raw where
  le a b := a.bytes ≤ b.bytes
  le_refl a := List.le_refl a.bytes
  le_trans _ _ _ := List.le_trans
  le_antisymm _ _ h h' := bytes_inj.mp (List.le_antisymm h h')
  lt_iff_le_not_ge a b := by
    rw [List.not_le]
    exact ⟨fun h => ⟨List.le_of_lt h, h⟩, And.right⟩

/-- Texts are in the same order as their bytes. -/
theorem ofText_lt_ofText_iff : ofText s < ofText t ↔ s < t := by
  have hmono : StrictMono ofText := fun _ _ => bytesOf_lt_bytesOf
  exact hmono.lt_iff_lt

theorem map_ofText_lt_iff {names names' : List String} :
    names.map ofText < names'.map ofText ↔ names < names' := by
  induction names generalizing names' with
  | nil => cases names' <;> simp
  | cons first names ih =>
    cases names' with
    | nil => simp
    | cons first' names' =>
      rw [List.map_cons, List.map_cons, List.cons_lt_cons_iff, List.cons_lt_cons_iff,
        ofText_lt_ofText_iff, ofText_inj, ih]

/-! ## Paths below a place -/

variable {root : Place}

theorem segments_ofPlace (hne : root ≠ []) (hroot : ∀ name ∈ root, IsName name) :
    (ofPlace root).segments = ofText "" :: root := by
  rw [ofPlace, segments_slash_cons]
  exact congrArg _ (segments_ofSegments hne fun name hname => (hroot name hname).slash_not_mem)

/-- The path of a folder below the top does not end in a slash. -/
theorem reverse_ofPlace (hne : root ≠ []) (hroot : ∀ name ∈ root, IsName name) (bs : Bytes) :
    (ofPlace root).bytes.reverse ≠ slash :: bs := by
  intro hend
  -- else its last segment would be empty
  have hpath : ofPlace root = ⟨bs.reverse ++ slash :: []⟩ := by
    rw [← bytes_inj, ← List.reverse_reverse (ofPlace root).bytes, hend, List.reverse_cons]
  have hsegs := segments_ofPlace hne hroot
  rw [hpath, segments_append] at hsegs
  have hlast := congrArg List.getLast? hsegs
  rw [List.getLast?_append, List.getLast?_cons, List.getLast?_eq_some_getLast hne] at hlast
  exact (hroot _ (List.getLast_mem hne)).ne_empty (Option.some.inj hlast).symm

/-- A relative path, read from the folder at a place, goes on where that place ends. -/
theorem segments_onto_ofPlace (hroot : ∀ name ∈ root, IsName name)
    (hpath : path.isAbsolute = false) :
    ((ofPlace root).onto path).segments = ofText "" :: (root ++ path.segments) := by
  rw [onto, hpath, if_neg Bool.false_ne_true]
  by_cases hne : root = []
  · subst hne
    exact segments_slash_cons path.bytes
  · split
    · rename_i hempty
      simp [ofPlace] at hempty
    · rename_i bs hend
      exact absurd hend (reverse_ofPlace hne hroot bs)
    · rw [segments_append, segments_ofPlace hne hroot]
      rfl

theorem names_onto_ofPlace (hroot : ∀ name ∈ root, IsName name) (hpath : path.isAbsolute = false) :
    ((ofPlace root).onto path).names = root ++ path.names := by
  have hkept : root.filter (fun name => !name.isIdle) = root :=
    List.filter_eq_self.mpr fun name hname => by simp [(hroot name hname).isIdle_eq]
  rw [names, segments_onto_ofPlace hroot hpath, List.filter_cons_of_neg (by decide),
    List.filter_append, hkept, names]

theorem isAbsolute_onto_ofPlace (root : Place) (path : Raw) :
    ((ofPlace root).onto path).isAbsolute = true := by
  rw [onto]
  split
  · assumption
  · split
    · rename_i hempty
      simp [ofPlace] at hempty
    · rfl
    · rfl

end ImportScout.Raw
