import ImportScout.Tree.Outline
import ImportScout.Proofs.Glob.Literal
import ImportScout.Proofs.Disk.Raw

/-! # Which rule decides

Of the rules that describe an entry the last one decides. The rules of a project are the built-in
ones of the heavy folders, in front, and its own. Each heavy name is read as a rule that ignores the
folders of this name at every depth (`mem_heavyRules_iff`), so that such a folder is ignored unless
the last own rule that describes it keeps it (`ignores_heavy_eq_false_iff`).
-/

namespace ImportScout.Ignore

open Text

variable {rules more : List Rule} {path : Raw} {isFolder : Bool}

/-! ## The last rule that describes an entry -/

/-- Whether the last rule that describes an entry keeps it. -/
def Keeps (rules : List Rule) (path : Raw) (isFolder : Bool) : Prop :=
  ∃ before r after, rules = before ++ r :: after ∧ r.describes path isFolder = true ∧
    r.keeps = true ∧ ∀ other ∈ after, other.describes path isFolder = false

theorem keeps_iff : Keeps rules path isFolder ↔
    ∃ r, rules.reverse.find? (·.describes path isFolder) = some r ∧ r.keeps = true := by
  constructor
  · rintro ⟨before, r, after, rfl, hdescribes, hkeeps, hafter⟩
    refine ⟨r, List.find?_eq_some_iff_append.mpr ⟨hdescribes, after.reverse, before.reverse,
      by simp, fun other hother => ?_⟩, hkeeps⟩
    simp [hafter other (List.mem_reverse.mp hother)]
  · rintro ⟨r, hfind, hkeeps⟩
    obtain ⟨hdescribes, after, before, hrules, hafter⟩ := List.find?_eq_some_iff_append.mp hfind
    refine ⟨before.reverse, r, after.reverse, ?_, hdescribes, hkeeps, fun other hother => ?_⟩
    · simpa using congrArg List.reverse hrules
    · simpa using hafter other (List.mem_reverse.mp hother)

instance : Decidable (Keeps rules path isFolder) :=
  decidable_of_iff
    ((rules.reverse.find? (·.describes path isFolder)).any (·.keeps) = true)
    ((Option.any_eq_true _ _).trans keeps_iff.symm)

/-- Rules that ignore an entry are overruled exactly by a later rule that keeps it, unless one after
that ignores it again. -/
theorem ignores_append_eq_false_iff (hignore : ∀ r ∈ rules, r.keeps = false)
    (hdescribed : ∃ r ∈ rules, r.describes path isFolder = true) :
    ignores (rules ++ more) path isFolder = false ↔ Keeps more path isFolder := by
  rw [keeps_iff, ignores, List.reverse_append, List.find?_append]
  cases hmore : more.reverse.find? (·.describes path isFolder) with
  | some r => simp
  | none =>
    cases hrules : rules.reverse.find? (·.describes path isFolder) with
    | some r =>
      simp [hignore r (List.mem_reverse.mp (List.mem_of_find?_eq_some hrules))]
    | none =>
      obtain ⟨r, hr, hdescribes⟩ := hdescribed
      exact absurd hdescribes (List.find?_eq_none.mp hrules r (List.mem_reverse.mpr hr))

/-! ## Lines that name a folder -/

/-- Whether a name stands for itself in an ignore file: no character of it is a wildcard, escapes
another or divides segments, and it does not start like a comment or a rule that keeps. -/
structure IsPlainName (name : List Char) : Prop where
  literal : Glob.isLiteral (String.ofList name) = true
  unescaped : '\\' ∉ name
  unslashed : '/' ∉ name
  unmarked : name.head? ∉ [none, some '#', some '!']

instance (name : List Char) : Decidable (IsPlainName name) :=
  decidable_of_iff
    (Glob.isLiteral (String.ofList name) = true ∧ '\\' ∉ name ∧ '/' ∉ name ∧
      name.head? ∉ [none, some '#', some '!'])
    ⟨fun ⟨literal, unescaped, unslashed, unmarked⟩ => ⟨literal, unescaped, unslashed, unmarked⟩,
      fun h => ⟨h.literal, h.unescaped, h.unslashed, h.unmarked⟩⟩

/-- The rule that ignores the folders of a name at every depth. -/
def folderRule (name : List Char) : Rule :=
  ⟨⟨.stops, .leading :: name.map .literal⟩, false, true⟩

section PlainName

variable {c last : Char} {name before : List Char}

theorem ne_of_reverse_eq_cons (hc : c ∉ name) (hname : name.reverse = last :: before) :
    last ≠ c := fun h =>
  hc (List.mem_reverse.mp (hname ▸ h ▸ List.mem_cons_self))

theorem folderMark_append_slash (hbackslash : '\\' ∉ name) :
    folderMark (name ++ ['/']) = (true, name) := by
  rw [folderMark, List.reverse_append]
  cases hname : name.reverse with
  | nil => simp_all
  | cons last before =>
    have hlast : last ≠ '\\' := ne_of_reverse_eq_cons hbackslash hname
    obtain rfl : name = before.reverse ++ [last] := by simpa using congrArg List.reverse hname
    simp [hlast]

theorem globText_of_isPlainName (h : IsPlainName name) :
    globText false name = '*' :: '*' :: '/' :: name := by
  have hstar : '*' ∉ name := fun hmem => by
    have hliteral := h.literal
    simp only [Glob.isLiteral, String.toList_ofList, Bool.not_eq_true', List.any_eq_false]
      at hliteral
    exact hliteral _ hmem rfl
  have hstars : name ≠ ['*', '*'] := fun h => hstar (h ▸ List.mem_cons_self)
  rw [globText]
  cases hname : name.reverse with
  | nil => simp_all
  | cons last before => simp [h.unslashed, hstars, hname, ne_of_reverse_eq_cons hstar hname]

theorem marks_of_isPlainName (h : IsPlainName name) (rest : List Char) :
    marks (name ++ rest) = (false, false, name ++ rest) := by
  cases name with
  | nil => exact absurd h.unmarked (by decide)
  | cons c cs =>
    have hbackslash : c ≠ '\\' := fun hc => h.unescaped (hc ▸ List.mem_cons_self)
    have hslash : c ≠ '/' := fun hc => h.unslashed (hc ▸ List.mem_cons_self)
    have hmark : c ≠ '!' := fun hc => h.unmarked (by simp [hc])
    rw [List.cons_append, marks.eq_def]
    split <;> simp_all

/-- The name of a folder and a slash make the rule of this name. -/
theorem ofLine?_folder (h : IsPlainName name) :
    Rule.ofLine? (name ++ ['/']) = some (folderRule name) := by
  have hcomment : ((name ++ ['/']).head? == some '#') = false := by
    cases name with
    | nil => rfl
    | cons c cs => simpa using fun hc => h.unmarked (by simp [hc])
  have htrim : trimLine (name ++ ['/']) = name ++ ['/'] := by
    simp [trimLine, trimRight, show isBlank '/' = false by decide]
  rw [Rule.ofLine?, hcomment, if_neg Bool.false_ne_true, htrim, if_neg (by simp)]
  simp only [marks_of_isPlainName h, folderMark_append_slash h.unescaped, globText_of_isPlainName h,
    Glob.parse_leading h.literal h.unescaped]
  rfl

end PlainName

/-- A folder of that name is described wherever it is. -/
theorem describes_folderRule {name : String} (hname : name ≠ "") (above : Place) :
    (folderRule name.toList).describes (Raw.ofSegments (above ++ [Raw.ofText name])) true =
      true := by
  have hne : name.toList ≠ [] := by simpa using hname
  simp only [Rule.describes, folderRule, Bool.true_or, Bool.true_and]
  rw [Glob.acceptsBytes_leading_literals hne]
  by_cases habove : above = []
  · subst habove
    exact .inl (by simp [Raw.ofSegments, Raw.ofText, bytesOf])
  · rw [Raw.bytes_ofSegments_concat habove]
    exact .inr (List.suffix_append _ _)

end ImportScout.Ignore

namespace ImportScout.Outline

open Ignore

theorem isPlainName_of_mem_heavyFolders : ∀ line ∈ heavyFolders,
    line.toList.dropLast ++ ['/'] = line.toList ∧ IsPlainName line.toList.dropLast := by
  decide

/-- Each heavy name ignores the folders of this name. -/
theorem mem_heavyRules_iff {r : Rule} :
    r ∈ (heavyFolders.map String.toList).filterMap Rule.ofLine? ↔
      ∃ name, name ++ "/" ∈ heavyFolders ∧ folderRule name.toList = r := by
  rw [List.filterMap_map, List.mem_filterMap]
  constructor
  · rintro ⟨line, hline, hrule⟩
    obtain ⟨hslash, hplain⟩ := isPlainName_of_mem_heavyFolders line hline
    rw [Function.comp_apply, ← hslash, ofLine?_folder hplain, Option.some_inj] at hrule
    have hname : String.ofList line.toList.dropLast ++ "/" = line :=
      String.toList_injective (by rw [String.toList_append, String.toList_ofList]; exact hslash)
    exact ⟨_, hname ▸ hline, by rw [String.toList_ofList, hrule]⟩
  · rintro ⟨name, hname, rfl⟩
    obtain ⟨-, hplain⟩ := isPlainName_of_mem_heavyFolders _ hname
    rw [String.toList_append, show "/".toList = ['/'] from rfl, List.dropLast_concat] at hplain
    exact ⟨_, hname, by simpa using ofLine?_folder hplain⟩

/-- The rules of a project's own. -/
def ownRules : Option ByteArray → List Rule
  | none => []
  | some content => rulesOf content

/-- A heavy folder is ignored unless the last own rule that describes it keeps it. -/
theorem ignores_heavy_eq_false_iff {name : String} (hname : name ++ "/" ∈ heavyFolders)
    (ignoreFile : Option ByteArray) (above : Place) :
    ignores (rulesFor ignoreFile) (Raw.ofSegments (above ++ [Raw.ofText name])) true = false ↔
      Keeps (ownRules ignoreFile) (Raw.ofSegments (above ++ [Raw.ofText name])) true := by
  have hrules : rulesFor ignoreFile =
      (heavyFolders.map String.toList).filterMap Rule.ofLine? ++ ownRules ignoreFile := by
    cases ignoreFile <;> rfl
  rw [hrules]
  refine ignores_append_eq_false_iff (fun r hr => ?ignore)
    ⟨_, mem_heavyRules_iff.mpr ⟨name, hname, rfl⟩, ?described⟩
  case ignore =>
    obtain ⟨_, -, rfl⟩ := mem_heavyRules_iff.mp hr
    rfl
  case described =>
    refine describes_folderRule (fun h => ?_) above
    subst h
    exact absurd hname (by decide)

end ImportScout.Outline
