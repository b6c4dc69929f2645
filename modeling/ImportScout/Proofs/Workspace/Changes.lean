import ImportScout.Proofs.Text.Utf8
import ImportScout.Proofs.Workspace.Order

/-! # Stores that change

A store holds what its changes have left: under each path, spelled with slashes, the text of the
last insertion, unless a removal came after it (`lookup_after`). So changes of different paths can
come in any order. Reading, removing and searching answer from these files alone, and a search with
a smaller limit finds the first files of one with a greater limit (`after_answers`).
-/

namespace ImportScout.Store

open ImportScout.Path ImportScout.Text

/-! ## Changes -/

/-- A file is put into a store, or taken out. -/
inductive Change where
  | insert (path text : String)
  | remove (path : String)
  deriving DecidableEq, Repr

namespace Change

/-- The path under which the file is kept. -/
def key : Change → String
  | insert path _ => slashed path
  | remove path => slashed path

/-- What is kept there afterwards. -/
def text? : Change → Option String
  | insert _ text => some text
  | remove _ => none

end Change

/-- Make a change. -/
def change (s : Store) : Change → Store
  | .insert path text => s.insert path text
  | .remove path => (s.remove path).2

/-- An empty store after changes, one after the other. -/
def after (root : String) (changes : List Change) : Store :=
  changes.foldl change ⟨root, []⟩

/-- The changes of the file under `key`. -/
def changesOf (key : String) (changes : List Change) : List Change :=
  changes.filter (·.key = key)

/-- What the last change of the file under `key` has left there. -/
def lastText? (changes : List Change) (key : String) : Option String :=
  (changesOf key changes).getLast?.bind Change.text?

variable {s : Store} {root key pattern : String} {changes : List Change} {found : List String}

theorem changesOf_eq_nil_iff : changesOf key changes = [] ↔ ∀ c ∈ changes, c.key ≠ key := by
  simp [changesOf]

theorem lastText?_concat (changes : List Change) (c : Change) (key : String) :
    lastText? (changes ++ [c]) key = if c.key = key then c.text? else lastText? changes key := by
  rw [lastText?, lastText?, changesOf, changesOf, List.filter_append, List.filter_singleton]
  split_ifs with h <;> simp [h]

/-- What is left is the text of an insertion after which the file is neither inserted again nor
removed. -/
theorem lastText?_eq_some_iff {text : String} :
    lastText? changes key = some text ↔
      ∃ before path rest, changes = before ++ .insert path text :: rest ∧ slashed path = key ∧
        ∀ c ∈ rest, c.key ≠ key := by
  constructor
  · intro h
    obtain ⟨c, hlast, htext⟩ := Option.bind_eq_some_iff.mp h
    obtain ⟨front, hchanges⟩ := List.getLast?_eq_some_iff.mp hlast
    obtain ⟨before, behind, rfl, -, hbehind⟩ := List.filter_eq_append_iff.mp hchanges
    obtain ⟨others, rest, rfl, -, hkey, hrest⟩ := List.filter_eq_cons_iff.mp hbehind
    cases c with
    | remove path => exact absurd htext (by simp [Change.text?])
    | insert path text' =>
      obtain rfl := Option.some.inj htext
      exact ⟨before ++ others, path, rest, (List.append_assoc _ _ _).symm, of_decide_eq_true hkey,
        changesOf_eq_nil_iff.mp hrest⟩
  · rintro ⟨before, path, rest, rfl, hkey, hrest⟩
    have hkept : (Change.insert path text).key = key := hkey
    have hinsert : changesOf key (.insert path text :: rest) = [.insert path text] := by
      rw [changesOf, List.filter_cons, if_pos (decide_eq_true hkept), ← changesOf,
        changesOf_eq_nil_iff.mpr hrest]
    rw [lastText?, changesOf, List.filter_append, ← changesOf, ← changesOf, hinsert,
      List.getLast?_concat]
    rfl

/-- A change leaves its text under its own path, and all other files as they are. -/
theorem lookup_change (s : Store) (c : Change) (key : String) :
    (s.change c).files.lookup key = if c.key = key then c.text? else s.files.lookup key := by
  cases c with
  | insert path text =>
    split_ifs with h
    · rw [← h]
      exact lookup_put_self _ _ _
    · exact lookup_put_of_ne (Ne.symm h) _
  | remove path =>
    split_ifs with h
    · rw [← h]
      exact lookup_filter_self _ _
    · exact lookup_filter_of_ne _ (Ne.symm h)

theorem after_concat (root : String) (changes : List Change) (c : Change) :
    after root (changes ++ [c]) = (after root changes).change c :=
  List.foldl_concat _ _ _ _

/-- Under each path stands what its last change has left. -/
theorem lookup_after (root : String) (changes : List Change) (key : String) :
    (after root changes).files.lookup key = lastText? changes key := by
  induction changes using List.reverseRecOn with
  | nil => rfl
  | append_singleton changes c ih =>
    rw [after_concat, lookup_change, lastText?_concat, ih]

theorem Built.change (h : s.Built) (c : Change) : (s.change c).Built := by
  cases c with
  | insert path text => exact h.insert path text
  | remove path => exact h.remove path

theorem built_after (root : String) (changes : List Change) : (after root changes).Built := by
  induction changes using List.reverseRecOn with
  | nil => exact .empty root
  | append_singleton changes c ih =>
    rw [after_concat]
    exact ih.change c

theorem root_after (root : String) (changes : List Change) : (after root changes).root = root := by
  induction changes using List.reverseRecOn with
  | nil => rfl
  | append_singleton changes c ih =>
    rw [after_concat]
    cases c <;> exact ih

/-- Stores that look up the same are the same. -/
theorem Built.eq_of_lookup_eq {s' : Store} (h : s.Built) (h' : s'.Built) (hroot : s.root = s'.root)
    (hfiles : ∀ key, s.files.lookup key = s'.files.lookup key) : s = s' := by
  have heq := ImportScout.eq_of_lookup_eq (List.pairwise_map.mp h.sorted)
    (List.pairwise_map.mp h'.sorted) hfiles
  obtain ⟨root, files⟩ := s
  obtain ⟨root', files'⟩ := s'
  rw [Store.mk.injEq]
  exact ⟨hroot, heq⟩

/-- Changes of different files can come in any order. -/
theorem after_eq_of_changesOf_eq {changes' : List Change}
    (h : ∀ key, changesOf key changes' = changesOf key changes) :
    after root changes' = after root changes := by
  refine (built_after root changes').eq_of_lookup_eq (built_after root changes) ?_ fun key => ?_
  · rw [root_after, root_after]
  · rw [lookup_after, lookup_after, lastText?, lastText?, h]

/-! ## Searches with different limits -/

/-- A search that succeeds, if it looks for any files at all, finds the first files of an ordered
list that does not depend on the limit. -/
theorem exists_find_eq_take (hs : s.Built) {limit : ℕ} (hlimit : limit ≠ 0)
    (h : s.find pattern limit = .ok found) :
    ∃ paths : List String, paths.Pairwise (· < ·) ∧
      ∀ limit, s.find pattern limit = .ok (paths.take limit) := by
  by_cases hliteral : Glob.isLiteral pattern = true
  · refine ⟨_, ?_, find_of_literal hliteral⟩
    split_ifs
    · exact List.pairwise_singleton _ _
    · exact List.Pairwise.nil
  · cases hparsed : Glob.parse Glob.searchStyle pattern with
    | ok glob => exact ⟨_, (hs.sorted.filter _).filter _, find_of_glob hliteral hparsed⟩
    | error f =>
      -- a pattern that is no glob goes unnoticed only where there is no file to try it on
      rw [find, if_neg hlimit, if_neg hliteral, hparsed] at h
      dsimp only at h
      split_ifs at h with hnone
      refine ⟨[], List.Pairwise.nil, fun limit => ?_⟩
      rw [find, if_neg hliteral, hparsed, List.take_nil]
      dsimp only
      split_ifs <;> rfl

/-- With a smaller limit, a search finds the first of the files that it finds with a greater one. -/
theorem find_take {j k : ℕ} (hs : s.Built) (hjk : j ≤ k) (h : s.find pattern k = .ok found) :
    s.find pattern j = .ok (found.take j) := by
  rcases Nat.eq_zero_or_pos j with rfl | hj
  · rw [find, if_pos rfl, List.take_zero]
  · obtain ⟨paths, -, hfind⟩ := exists_find_eq_take hs (hj.trans_le hjk).ne' h
    obtain rfl : paths.take k = found := Except.ok.inj ((hfind k).symm.trans h)
    rw [hfind, List.take_take, min_eq_left hjk]

/-- What is found comes in the order of bytes. -/
theorem pairwise_bytesOf_of_find {limit : ℕ} (hs : s.Built)
    (h : s.find pattern limit = .ok found) : (found.map bytesOf).Pairwise (· < ·) := by
  suffices found.Pairwise (· < ·) from List.pairwise_map.mpr (this.imp bytesOf_lt_bytesOf)
  by_cases hlimit : limit = 0
  · rw [find, if_pos hlimit] at h
    exact Except.ok.inj h ▸ List.Pairwise.nil
  · obtain ⟨paths, hpaths, hfind⟩ := exists_find_eq_take hs hlimit h
    obtain rfl : paths.take limit = found := Except.ok.inj ((hfind limit).symm.trans h)
    exact hpaths.sublist (List.take_sublist _ _)

/-! ## The answers of a store -/

/-- After any changes, a store has exactly the files that the changes have left, in the order of the
bytes of their paths. It does not matter in which order the changes of different files came. What is
read and what is removed are these files. A search that succeeds finds files in the order of bytes
and no third-party code, and with a smaller limit it finds the first of them. -/
theorem after_answers (root : String) (changes : List Change) :
    let s := after root changes
    (∀ key text, (key, text) ∈ s.files ↔
      ∃ before path rest, changes = before ++ .insert path text :: rest ∧ slashed path = key ∧
        ∀ c ∈ rest, c.key ≠ key) ∧
      (s.files.map fun file => bytesOf file.1).Pairwise (· < ·) ∧
      (∀ changes', (∀ key, changesOf key changes' = changesOf key changes) →
        after root changes' = s) ∧
      (∀ path, s.toWorkspace.read path =
        match lastText? changes (slashed path) with
        | some text => .ok text
        | none => .error (.notFound path)) ∧
      (∀ path, (s.remove path).1 = (lastText? changes (slashed path)).isSome) ∧
      ∀ pattern j k found, j ≤ k → s.find pattern k = .ok found →
        s.find pattern j = .ok (found.take j) ∧ (found.map bytesOf).Pairwise (· < ·) ∧
          ∀ path ∈ found, isVendored path = false := by
  intro s
  have hs : s.Built := built_after root changes
  have hlookup (key : String) : s.files.lookup key = lastText? changes key :=
    lookup_after root changes key
  have hsorted : s.files.Pairwise fun a b => a.1 < b.1 := List.pairwise_map.mp hs.sorted
  refine ⟨fun key text => ?_, ?_, fun changes' h => after_eq_of_changesOf_eq h, fun path => ?_,
    fun path => ?_, fun pattern j k found hjk h => ⟨find_take hs hjk h, ?_, ?_⟩⟩
  · rw [← lastText?_eq_some_iff, ← hlookup, lookup_eq_some_iff_mem hsorted]
  · exact List.pairwise_map.mpr (hsorted.imp bytesOf_lt_bytesOf)
  · rw [← hlookup]
    rfl
  · rw [← hlookup]
    rfl
  · exact pairwise_bytesOf_of_find hs h
  · exact fun path hpath => (mem_find_cases h hpath).1

/-- A file under two spellings, one that is taken out again, and third-party code. -/
theorem after_answers_respelled :
    let changes : List Change := [.insert "b\\x.ts" "1", .insert "a.ts" "0", .insert "b/x.ts" "2",
      .insert "node_modules/q.ts" "3", .remove "a.ts", .insert "c.ts" "4"]
    let changes' : List Change := [.insert "c.ts" "4", .insert "a.ts" "0", .remove "a.ts",
      .insert "node_modules/q.ts" "3", .insert "b\\x.ts" "1", .insert "b/x.ts" "2"]
    let s := after "/p" changes
    s.files = [("b/x.ts", "2"), ("c.ts", "4"), ("node_modules/q.ts", "3")] ∧
      after "/p" changes' = s ∧ s.toWorkspace.read "b\\x.ts" = .ok "2" ∧
      (s.remove "a.ts").1 = false ∧ s.find "**" 2 = .ok ["b/x.ts", "c.ts"] ∧
      s.find "**" 1 = .ok ["b/x.ts"] := by
  intro changes changes' s
  have hfiles : s.files = [("b/x.ts", "2"), ("c.ts", "4"), ("node_modules/q.ts", "3")] := by
    decide +kernel
  have hfind : s.find "**" 2 = .ok ["b/x.ts", "c.ts"] := by
    rw [find_of_glob (by decide) isWildcard_doubleStar.parsed, hfiles]
    decide +kernel
  obtain ⟨-, -, horder, hread, hremove, hsearch⟩ := after_answers "/p" changes
  refine ⟨hfiles, horder changes' fun key => ?_, ?_, ?_, hfind, (hsearch _ 1 2 _ ?_ hfind).1⟩
  · have hall : ∀ c ∈ changes ++ changes', changesOf c.key changes' = changesOf c.key changes := by
      decide +kernel
    by_contra hne
    have hother : ∀ c ∈ changes ++ changes', c.key ≠ key := fun c hc heq => hne (heq ▸ hall c hc)
    rw [List.forall_mem_append] at hother
    exact hne (by rw [changesOf_eq_nil_iff.mpr hother.1, changesOf_eq_nil_iff.mpr hother.2])
  · rw [hread]
    decide +kernel
  · rw [hremove]
    decide +kernel
  · decide

end ImportScout.Store
