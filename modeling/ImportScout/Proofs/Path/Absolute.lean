import ImportScout.Proofs.Path.Plain

/-! # Absolute paths and relative ones

A relative path that is read from a folder has the segments of the folder in front of its own
(`exists_segments_onto`), so it has the names of both (`names_onto`). Making an absolute path
relative takes the names of the root away, however they are spelled. So a path that is worked out is
given back when it is read from any spelling of the root and made relative again
(`relativeTo?_onto`).
-/

namespace ImportScout.Path

variable {root base path : String}

/-! ## Read from a folder -/

theorem isAbsolute_ofSegments {names : List String} (h : ∀ name ∈ names, IsName name) :
    isAbsolute (ofSegments names) = false := by
  cases names with
  | nil => rfl
  | cons name names =>
    obtain ⟨hne, -, -, hslash⟩ := h name List.mem_cons_self
    obtain ⟨c, cs, hname⟩ := List.exists_cons_of_ne_nil (mt String.toList_eq_nil_iff.mp hne)
    have hhead : (ofSegments (name :: names)).toList.head? = some c := by
      cases names with
      | nil => simp [ofSegments, Text.joinWith, hname]
      | cons next names => simp [toList_ofSegments_cons, hname]
    rw [hname, List.mem_cons, not_or] at hslash
    rw [isAbsolute, hhead]
    simpa using Ne.symm hslash.1

theorem names_append (dir rest : List Char) :
    names (String.ofList (dir ++ '/' :: rest)) =
      names (String.ofList dir) ++ names (String.ofList rest) := by
  rw [names, segments_append, List.filter_append]
  rfl

/-- What stands in front of a relative path has the names of the folder that it is read from. -/
theorem exists_segments_onto (h : isAbsolute path = false) (base : String) :
    ∃ front, segments (onto base path) = front ++ segments path ∧
      (front.filter fun seg => !isIdle seg) = names base ∧ (front = [] → base = "") := by
  rw [onto, h, if_neg Bool.false_ne_true]
  split
  · rename_i hbase
    rw [List.reverse_eq_nil_iff] at hbase
    have hempty := String.toList_eq_nil_iff.mp hbase
    refine ⟨[], by rw [hbase, List.nil_append, String.ofList_toList, List.nil_append], ?_,
      fun _ => hempty⟩
    rw [hempty]
    decide
  · -- the slash at the end of the folder separates it from the path
    rename_i before hbase
    have hlist : base.toList = before.reverse ++ ['/'] := by
      rw [← List.reverse_reverse base.toList, hbase, List.reverse_cons]
    have hfolder := names_append before.reverse []
    have hnone : names (String.ofList []) = [] := by decide
    rw [← hlist, String.ofList_toList, hnone, List.append_nil] at hfolder
    refine ⟨segments (String.ofList before.reverse), ?_, hfolder.symm,
      fun hnil => absurd hnil (segments_ne_nil _)⟩
    rw [hlist, List.append_assoc, List.singleton_append, segments_append, String.ofList_toList]
  · refine ⟨segments base, ?_, rfl, fun hnil => absurd hnil (segments_ne_nil _)⟩
    rw [segments_append, String.ofList_toList, String.ofList_toList]

/-- A relative path read from a folder has the names of the folder and its own. -/
theorem names_onto (h : isAbsolute path = false) (base : String) :
    names (onto base path) = names base ++ names path := by
  obtain ⟨front, hsegs, hfront, -⟩ := exists_segments_onto h base
  rw [names, hsegs, List.filter_append, hfront]
  rfl

theorem isAbsolute_onto (hbase : isAbsolute base = true) (path : String) :
    isAbsolute (onto base path) = true := by
  rw [onto]
  split_ifs with h
  · exact h
  · rw [isAbsolute, beq_iff_eq] at hbase
    split
    · rename_i hnil
      rw [List.reverse_eq_nil_iff.mp hnil] at hbase
      exact absurd hbase (by simp)
    · rw [isAbsolute, String.toList_ofList, List.head?_append, hbase]
      rfl
    · rw [isAbsolute, String.toList_ofList, List.head?_append, hbase]
      rfl

/-! ## Made relative -/

/-- Behind as many names as a list has stands what comes after the list. -/
theorem dropNames_append (front segs : List String) :
    dropNames (front.filter fun seg => !isIdle seg).length (front ++ segs) =
      segs.dropWhile isIdle := by
  induction front with
  | nil => cases segs <;> rfl
  | cons seg front ih =>
    by_cases hidle : isIdle seg = true
    · rw [List.filter_cons_of_neg (by simp [hidle]), ← ih, List.cons_append]
      cases (front.filter fun seg => !isIdle seg).length with
      | zero => rw [dropNames, dropNames, List.dropWhile_cons_of_pos hidle]
      | succ count => rw [dropNames, if_pos hidle]
    · rw [List.filter_cons_of_pos (by simp [hidle]), List.length_cons, List.cons_append, dropNames,
        if_neg hidle, ih]

theorem dropWhile_isIdle {segs : List String} (h : ∀ seg ∈ segs, IsName seg) :
    segs.dropWhile isIdle = segs := by
  cases segs with
  | nil => rfl
  | cons seg segs =>
    rw [List.dropWhile_cons_of_neg (by simp [(h seg List.mem_cons_self).isIdle_eq])]

theorem dropIdleEnd_of_names {segs : List String} (h : ∀ seg ∈ segs, IsName seg) :
    dropIdleEnd segs = segs := by
  rw [dropIdleEnd, dropWhile_isIdle fun seg hseg => h seg (List.mem_reverse.mp hseg),
    List.reverse_reverse]

/-- A path that is worked out is given back when it is read from the root, in any spelling, and made
relative again. -/
theorem relativeTo?_onto (hroot : isAbsolute root = true) (hbase : isAbsolute base = true)
    (hnames : names base = names root) (hspelled : collapse? path = some path)
    (hne : path ≠ "") : relativeTo? root (onto base path) = some (slashed path) := by
  obtain ⟨-, hsegs, hpath⟩ := names_of_spelled hspelled hne
  have hrelative : isAbsolute path = false := by
    rw [← hpath]
    exact isAbsolute_ofSegments hsegs
  have habsolute := isAbsolute_onto hbase path
  obtain ⟨front, honto, hfront, hempty⟩ := exists_segments_onto hrelative base
  -- what stands in front of the path starts with the slash at the top
  obtain ⟨rest, rfl⟩ : ∃ rest, front = "" :: rest := by
    obtain ⟨cs, hcs⟩ := List.head?_eq_some_iff.mp (beq_iff_eq.mp habsolute)
    have htop := segments_slash_cons cs
    rw [← hcs, String.ofList_toList, honto] at htop
    cases front with
    | nil =>
      rw [hempty rfl] at hbase
      exact absurd hbase (by decide)
    | cons seg rest => exact ⟨rest, congrArg (· :: rest) (List.cons.inj htop).1⟩
  have hcount : (names root).length = (rest.filter fun seg => !isIdle seg).length := by
    rw [← hnames, ← hfront]
    rfl
  have hroot' : root ≠ "" := by
    rintro rfl
    exact absurd hroot (by decide)
  have hinside : (isAbsolute root && (names root).isPrefixOf (names (onto base path))) = true := by
    rw [hroot, names_onto hrelative, hnames, Bool.true_and, List.isPrefixOf_iff_prefix]
    exact List.prefix_append _ _
  rw [relativeTo?, if_pos habsolute, below?, if_neg hroot', if_pos hinside, honto, List.cons_append,
    List.drop_one, List.tail_cons, hcount, dropNames_append, dropWhile_isIdle hsegs,
    dropIdleEnd_of_names hsegs, hpath, Option.map_some]

end ImportScout.Path
