import ImportScout.Glob.Parser
import ImportScout.Proofs.Path.Canonical

/-! # Plain paths

A plain path is worked out, is written with slashes and has no character that a glob reads in its
own way: looking for it is looking for the one file of this name. Going on with a plain extension,
or with a plain path below it, leaves a path plain (`IsPlain.append`, `IsPlain.below`). What
`dropExtension` takes off a path reaches into no folder (`slash_not_mem_of_dropExtension`).
-/

namespace ImportScout.Path

/-- Whether a path is worked out, is written with slashes and describes itself only. -/
structure IsPlain (path : String) : Prop where
  spelled : collapse? path = some path
  ne_empty : path ≠ ""
  unslashed : '\\' ∉ path.toList
  literal : Glob.isLiteral path = true

instance (path : String) : Decidable (IsPlain path) :=
  decidable_of_iff (collapse? path = some path ∧ path ≠ "" ∧ '\\' ∉ path.toList ∧
      Glob.isLiteral path = true)
    ⟨fun ⟨hspelled, hempty, hunslashed, hliteral⟩ => ⟨hspelled, hempty, hunslashed, hliteral⟩,
      fun ⟨hspelled, hempty, hunslashed, hliteral⟩ => ⟨hspelled, hempty, hunslashed, hliteral⟩⟩

/-- Whether an extension stays in its segment and describes itself only. -/
structure IsPlainExtension (ext : String) : Prop where
  slash_not_mem : '/' ∉ ext.toList
  unslashed : '\\' ∉ ext.toList
  literal : Glob.isLiteral ext = true

instance (ext : String) : Decidable (IsPlainExtension ext) :=
  decidable_of_iff ('/' ∉ ext.toList ∧ '\\' ∉ ext.toList ∧ Glob.isLiteral ext = true)
    ⟨fun ⟨hslash, hunslashed, hliteral⟩ => ⟨hslash, hunslashed, hliteral⟩,
      fun ⟨hslash, hunslashed, hliteral⟩ => ⟨hslash, hunslashed, hliteral⟩⟩

/-! ## The names of a plain path -/

/-- A path that is worked out is a name, or names of folders and a name. -/
theorem exists_names_of_spelled {path spelled : String} (hspelled : collapse? path = some spelled)
    (hne : spelled ≠ "") :
    ∃ init last, spelled = ofSegments (init ++ [last]) ∧ ∀ name ∈ init ++ [last], IsName name := by
  obtain ⟨names, hpath, hnames⟩ := exists_names_of_collapse? hspelled
  rcases List.eq_nil_or_concat names with rfl | ⟨init, last, rfl⟩
  · exact absurd hpath hne
  · rw [List.concat_eq_append] at hpath hnames
    exact ⟨init, last, hpath, fun name hname => (hnames name hname).1⟩

theorem IsPlain.exists_names {path : String} (h : IsPlain path) :
    ∃ init last, path = ofSegments (init ++ [last]) ∧ ∀ name ∈ init ++ [last], IsName name :=
  exists_names_of_spelled h.spelled h.ne_empty

theorem segments_ofSegments_concat {init : List String} {last : String}
    (hnames : ∀ name ∈ init ++ [last], IsName name) :
    segments (ofSegments (init ++ [last])) = init ++ [last] :=
  segments_ofSegments (List.append_ne_nil_of_right_ne_nil init (List.cons_ne_nil last []))
    fun name hname => (hnames name hname).slash_not_mem

/-- The segments of a path that is worked out are names, and it is the path of these. -/
theorem names_of_spelled {path : String} (hspelled : collapse? path = some path) (hne : path ≠ "") :
    segments path ≠ [] ∧ (∀ name ∈ segments path, IsName name) ∧
      ofSegments (segments path) = path := by
  obtain ⟨init, last, hpath, hnames⟩ := exists_names_of_spelled hspelled hne
  have hsegs : segments path = init ++ [last] := by
    rw [hpath, segments_ofSegments_concat hnames]
  rw [hsegs]
  exact ⟨List.append_ne_nil_of_right_ne_nil init (List.cons_ne_nil last []), hnames, hpath.symm⟩

theorem isPlain_ofSegments {init : List String} {last : String}
    (hnames : ∀ name ∈ init ++ [last], IsName name)
    (hunslashed : '\\' ∉ (ofSegments (init ++ [last])).toList)
    (hliteral : Glob.isLiteral (ofSegments (init ++ [last])) = true) :
    IsPlain (ofSegments (init ++ [last])) where
  spelled := collapse?_ofSegments hnames
  ne_empty := ofSegments_ne_empty (by simp) hnames
  unslashed := hunslashed
  literal := hliteral

/-- Working out a path that is written with slashes and describes itself only leaves a plain one. -/
theorem isPlain_of_collapse? {path spelled : String} (h : collapse? path = some spelled)
    (hne : spelled ≠ "") (hunslashed : '\\' ∉ path.toList) (hliteral : Glob.isLiteral path = true) :
    IsPlain spelled where
  spelled := by
    obtain ⟨names, rfl, hnames⟩ := exists_names_of_collapse? h
    exact collapse?_ofSegments fun name hname => (hnames name hname).1
  ne_empty := hne
  unslashed := not_mem_of_collapse? (by decide) h hunslashed
  literal := by
    rw [Glob.isLiteral, Bool.not_eq_true', List.any_eq_false] at hliteral ⊢
    intro c hc hwild
    refine hliteral c ?_ hwild
    have hslash : c ≠ '/' := by
      rintro rfl
      exact absurd hwild (by decide)
    by_contra hpath
    exact not_mem_of_collapse? hslash h hpath hc

/-- A plain path does not start with `./`. -/
theorem IsPlain.dropHere_eq {path : String} (h : IsPlain path) :
    dropHere path.toList = path.toList := by
  obtain ⟨-, hnames, -⟩ := names_of_spelled h.spelled h.ne_empty
  unfold dropHere
  split
  · rename_i rest hstart
    have hsegs := segments_here rest
    rw [← hstart, String.ofList_toList] at hsegs
    have hmem : "." ∈ segments path := hsegs ▸ List.mem_cons_self
    exact absurd rfl (hnames "." hmem).ne_here
  · rfl

/-! ## Which patterns describe themselves only -/

theorem isLiteral_slashed (pattern : String) :
    Glob.isLiteral (slashed pattern) = Glob.isLiteral pattern := by
  rw [Glob.isLiteral, Glob.isLiteral, slashed, String.toList_ofList, List.any_map]
  congr 2
  funext c
  by_cases hc : c = '\\' <;> simp [hc]

theorem isLiteral_dropHere (cs : List Char) :
    Glob.isLiteral (String.ofList (dropHere cs)) = Glob.isLiteral (String.ofList cs) := by
  fun_induction dropHere cs with
  | case1 rest ih =>
    rw [ih]
    simp [Glob.isLiteral]
  | case2 cs _ => rfl

/-! ## Going on with a plain path -/

theorem isLiteral_append {path path' : String} :
    Glob.isLiteral (path ++ path') = (Glob.isLiteral path && Glob.isLiteral path') := by
  simp only [Glob.isLiteral, String.toList_append, List.any_append, Bool.not_or]

theorem ofSegments_append {names names' : List String} (hne : names ≠ []) (hne' : names' ≠ []) :
    ofSegments (names ++ names') = ofSegments names ++ "/" ++ ofSegments names' := by
  apply String.toList_injective
  induction names with
  | nil => exact absurd rfl hne
  | cons first names ih =>
    cases names with
    | nil =>
      obtain ⟨next, rest, rfl⟩ := List.exists_cons_of_ne_nil hne'
      simp [ofSegments, Text.joinWith]
    | cons next names =>
      have hrest := ih (List.cons_ne_nil _ _)
      rw [List.cons_append, List.cons_append, toList_ofSegments_cons, ← List.cons_append, hrest]
      simp [toList_ofSegments_cons]

theorem ofSegments_singleton (name : String) : ofSegments [name] = name := by
  simp [ofSegments, Text.joinWith]

theorem ofSegments_concat_append (init : List String) (last ext : String) :
    ofSegments (init ++ [last ++ ext]) = ofSegments (init ++ [last]) ++ ext := by
  by_cases hinit : init = []
  · subst hinit
    simp only [List.nil_append, ofSegments_singleton]
  · rw [ofSegments_append hinit (by simp), ofSegments_append hinit (by simp),
      ofSegments_singleton, ofSegments_singleton]
    simp only [String.append_assoc]

theorem lastName_ofSegments_concat {init : List String} {last : String}
    (hnames : ∀ name ∈ init ++ [last], IsName name) :
    lastName (ofSegments (init ++ [last])) = last := by
  have hslash : '/' ∉ last.toList :=
    (hnames last (List.mem_append_right init List.mem_cons_self)).slash_not_mem
  by_cases hinit : init = []
  · have hlast := lastName_of_slash_not_mem hslash
    rw [String.ofList_toList] at hlast
    simpa [hinit, ofSegments, Text.joinWith] using hlast
  · have hpath : ofSegments (init ++ [last]) =
        String.ofList ((ofSegments init).toList ++ '/' :: last.toList) := by
      apply String.toList_injective
      rw [ofSegments_append hinit (by simp)]
      simp [ofSegments, Text.joinWith]
    rw [hpath, lastName_append hslash, String.ofList_toList]

theorem IsName.append {name ext : String} (h : IsName name) (hext : '/' ∉ ext.toList) :
    IsName (name ++ ext) := by
  obtain ⟨c, cs, hname⟩ := List.exists_cons_of_ne_nil (mt String.toList_eq_nil_iff.mp h.ne_empty)
  have hlist : (name ++ ext).toList = c :: (cs ++ ext.toList) := by
    rw [String.toList_append, hname, List.cons_append]
  refine ⟨?_, ?_, ?_, ?_⟩
  · rintro hempty
    rw [hempty] at hlist
    simp at hlist
  · intro hhere
    rw [hhere] at hlist
    obtain ⟨rfl, hnil⟩ := List.cons_eq_cons.mp hlist
    obtain ⟨rfl, -⟩ := List.append_eq_nil_iff.mp hnil.symm
    exact h.ne_here (String.toList_injective hname)
  · intro hup
    rw [hup] at hlist
    obtain ⟨rfl, hrest⟩ := List.cons_eq_cons.mp hlist
    rcases List.append_eq_singleton_iff.mp hrest.symm with ⟨rfl, -⟩ | ⟨rfl, -⟩
    · exact h.ne_here (String.toList_injective hname)
    · exact h.ne_up (String.toList_injective hname)
  · rw [String.toList_append, List.mem_append, not_or]
    exact ⟨h.slash_not_mem, hext⟩

/-- A plain path with a plain extension is plain. -/
theorem IsPlain.append {path ext : String} (h : IsPlain path) (hext : IsPlainExtension ext) :
    IsPlain (path ++ ext) := by
  obtain ⟨init, last, rfl, hnames⟩ := h.exists_names
  rw [List.forall_mem_append, List.forall_mem_singleton] at hnames
  rw [← ofSegments_concat_append]
  refine isPlain_ofSegments ?_ ?_ ?_
  · rw [List.forall_mem_append, List.forall_mem_singleton]
    exact ⟨hnames.1, hnames.2.append hext.slash_not_mem⟩
  · rw [ofSegments_concat_append, String.toList_append, List.mem_append, not_or]
    exact ⟨h.unslashed, hext.unslashed⟩
  · rw [ofSegments_concat_append, isLiteral_append, h.literal, hext.literal, Bool.and_self]

/-- A plain path read from the folder that a plain path names is plain. -/
theorem IsPlain.below {path rest : String} (h : IsPlain path) (hrest : IsPlain rest) :
    IsPlain (path ++ "/" ++ rest) := by
  obtain ⟨init, last, hpath, hnames⟩ := h.exists_names
  obtain ⟨init', last', hrest', hnames'⟩ := hrest.exists_names
  have hjoined :
      ofSegments ((init ++ [last] ++ init') ++ [last']) = path ++ "/" ++ rest := by
    rw [List.append_assoc (init ++ [last]), ofSegments_append (by simp) (by simp), ← hpath,
      ← hrest']
  rw [← hjoined]
  refine isPlain_ofSegments ?_ ?_ ?_
  · rw [List.append_assoc (init ++ [last]), List.forall_mem_append]
    exact ⟨hnames, hnames'⟩
  · rw [hjoined, String.toList_append, String.toList_append, List.mem_append, List.mem_append,
      not_or, not_or]
    exact ⟨⟨h.unslashed, by decide +kernel⟩, hrest.unslashed⟩
  · have hslash : Glob.isLiteral "/" = true := by decide +kernel
    rw [hjoined, isLiteral_append, isLiteral_append, h.literal, hslash, hrest.literal]
    rfl

/-! ## What is taken off with an extension -/

/-- What `dropExtension` takes off a path has no slash. -/
theorem slash_not_mem_of_dropExtension {path rest : String}
    (h : dropExtension path ++ rest = path) : '/' ∉ rest.toList := by
  have hlist : (dropExtension path).toList ++ rest.toList = path.toList := by
    rw [← String.toList_append, h]
  rcases last_occurrence '/' path.toList with hno | ⟨dir, name, hpath, hname⟩
  · exact fun hmem => hno (hlist ▸ List.mem_append_right _ hmem)
  · rw [← String.ofList_toList (s := path), hpath, dropExtension_append hname,
      String.toList_ofList, String.toList_ofList, List.append_assoc, List.cons_append,
      List.append_cancel_left_eq, List.cons.injEq] at hlist
    exact fun hmem => hname (hlist.2 ▸ List.mem_append_right _ hmem)

end ImportScout.Path
