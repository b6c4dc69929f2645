import ImportScout.Proofs.Glob.Cache
import ImportScout.Proofs.Glob.Literal
import ImportScout.Proofs.Workspace.Order

/-! # Looking up and trying

A store need not try its files to find one whose path is given. Trying goes through all files in
their order, asks a cache of globs about each of them that is no third-party code, and stops when
enough are found (`Store.tryAll`). With any glob this gives the first files that the glob describes,
whatever the cache was asked before (`Store.tryFrom_of_parse`). A path without wildcards and
backslashes is read as a glob that describes this path alone (`Glob.exists_glob_of_isLiteral`), so
that looking it up gives what trying gives, and a search can be told from trying by its speed only
(`Store.find_eq_tryAll`).
-/

namespace ImportScout.Store

open ImportScout.Path

/-! ## Trying -/

/-- Try paths one after the other, third-party code left out, until `limit` files are found; `found`
are those before. -/
def tryFrom (pattern : String) (limit : ℕ) :
    (c : Glob.Cache) → (found paths : List String) → Except Glob.Fault (List String)
  | _, found, [] => .ok found
  | c, found, path :: paths =>
    if isVendored path then tryFrom pattern limit c found paths
    else
      let (answer, c) := c.accepts pattern path
      match answer with
      | .error fault => .error fault
      | .ok false => tryFrom pattern limit c found paths
      | .ok true =>
        if limit ≤ found.length + 1 then .ok (found ++ [path])
        else tryFrom pattern limit c (found ++ [path]) paths

/-- Try all files of a store. -/
def tryAll (s : Store) (c : Glob.Cache) (pattern : String) (limit : ℕ) :
    Except Glob.Fault (List String) :=
  tryFrom pattern limit c [] (s.files.map Prod.fst)

variable {s : Store} {c : Glob.Cache} {pattern path : String} {limit : ℕ}
  {found paths : List String} {glob : Glob} {fault : Glob.Fault}

/-! ## One step -/

theorem tryFrom_cons_of_isVendored (hvendored : isVendored path = true) :
    tryFrom pattern limit c found (path :: paths) = tryFrom pattern limit c found paths := by
  rw [tryFrom, if_pos hvendored]

/-- A path is found if the pattern, read afresh, describes it, and the cache goes on as one that was
asked about it. -/
theorem tryFrom_cons (sound : c.IsSound) (hkept : isVendored path = false) :
    tryFrom pattern limit c found (path :: paths) =
      match Glob.fresh pattern path with
      | .error fault => .error fault
      | .ok false => tryFrom pattern limit (c.accepts pattern path).2 found paths
      | .ok true =>
        if limit ≤ found.length + 1 then .ok (found ++ [path])
        else tryFrom pattern limit (c.accepts pattern path).2 (found ++ [path]) paths := by
  rw [tryFrom, if_neg (by simp [hkept]), ← sound.accepts_value]

theorem scan_cons_of_isVendored (hvendored : isVendored path = true) :
    scan glob limit (path :: paths) = scan glob limit paths := by
  rw [scan, List.filter_cons_of_neg (by simp [hvendored]), scan]

theorem scan_cons_of_accepts (hkept : isVendored path = false)
    (haccepts : glob.accepts path = true) :
    scan glob (limit + 1) (path :: paths) = path :: scan glob limit paths := by
  rw [scan, List.filter_cons_of_pos (by simp [hkept]), List.filter_cons_of_pos haccepts,
    List.take_succ_cons, scan]

theorem scan_cons_of_not_accepts (haccepts : glob.accepts path = false) :
    scan glob limit (path :: paths) = scan glob limit paths := by
  cases hvendored : isVendored path with
  | true => exact scan_cons_of_isVendored hvendored
  | false =>
    rw [scan, List.filter_cons_of_pos (by simp [hvendored]),
      List.filter_cons_of_neg (by simp [haccepts]), scan]

/-! ## All steps -/

/-- Trying a glob gives the first files that it describes. -/
theorem tryFrom_of_parse (sound : c.IsSound)
    (hparse : Glob.parse Glob.searchStyle pattern = .ok glob) (hroom : found.length < limit) :
    tryFrom pattern limit c found paths =
      .ok (found ++ scan glob (limit - found.length) paths) := by
  induction paths generalizing c found with
  | nil => rw [tryFrom, scan, List.filter_nil, List.filter_nil, List.take_nil, List.append_nil]
  | cons path paths ih =>
    cases hvendored : isVendored path with
    | true =>
      rw [tryFrom_cons_of_isVendored hvendored, ih sound hroom, scan_cons_of_isVendored hvendored]
    | false =>
      have hsound := sound.accepts pattern path
      have hanswer : Glob.fresh pattern path = .ok (glob.accepts path) := by
        rw [Glob.fresh, hparse]
        rfl
      rw [tryFrom_cons sound hvendored, hanswer]
      cases haccepts : glob.accepts path with
      | false =>
        dsimp only
        rw [ih hsound hroom, scan_cons_of_not_accepts haccepts]
      | true =>
        obtain ⟨left, hleft⟩ := Nat.exists_eq_add_of_lt hroom
        have hscan : scan glob (left + 1) (path :: paths) = path :: scan glob left paths :=
          scan_cons_of_accepts hvendored haccepts
        dsimp only
        rw [show limit - found.length = left + 1 by omega, hscan]
        split_ifs with hfull
        · -- the last place is taken
          obtain rfl : left = 0 := by omega
          rw [scan, List.take_zero]
        · have hroom : (found ++ [path]).length < limit := by simpa using hfull
          rw [ih hsound hroom, List.append_assoc, List.singleton_append, List.length_append,
            List.length_singleton, show limit - (found.length + 1) = left by omega]

/-- Trying what is no glob fails, unless there is nothing to try it on. -/
theorem tryFrom_of_fault (sound : c.IsSound)
    (hparse : Glob.parse Glob.searchStyle pattern = .error fault) :
    tryFrom pattern limit c found paths =
      if paths.all isVendored then .ok found else .error fault := by
  induction paths with
  | nil => rfl
  | cons path paths ih =>
    cases hvendored : isVendored path with
    | true => rw [tryFrom_cons_of_isVendored hvendored, ih, List.all_cons, hvendored, Bool.true_and]
    | false =>
      have hanswer : Glob.fresh pattern path = .error fault := by
        rw [Glob.fresh, hparse]
        rfl
      rw [tryFrom_cons sound hvendored, hanswer, List.all_cons, hvendored]
      rfl

/-! ## Searching -/

/-- A path that is looked up is what a glob that describes this path alone finds. -/
theorem find_eq_scan (hs : s.Built) (hliteral : Glob.isLiteral pattern = true)
    (hunslashed : '\\' ∉ pattern.toList)
    (haccepts : ∀ path, glob.accepts path = true ↔ path = pattern) (limit : ℕ) :
    s.find pattern limit = .ok (scan glob limit (s.files.map Prod.fst)) := by
  have hnodup : ((s.files.map Prod.fst).filter fun path => !isVendored path).Nodup :=
    (hs.sorted.imp ne_of_lt).filter _
  have hbeq : glob.accepts = (· == pattern) := by
    funext path
    rw [Bool.eq_iff_iff, haccepts, beq_iff_eq]
  have hmem : pattern ∈ (s.files.map Prod.fst).filter (fun path => !isVendored path) ↔
      ((s.files.lookup pattern).isSome && !isVendored pattern) = true := by
    rw [List.mem_filter, mem_keys_iff, Bool.and_eq_true]
  rw [find_of_literal hliteral, slashed_of_not_mem hunslashed, scan, hbeq, List.filter_beq]
  split_ifs with hthere
  · rw [List.count_eq_one_of_mem hnodup (hmem.mpr hthere)]
    rfl
  · rw [List.count_eq_zero_of_not_mem (mt hmem.mp hthere)]
    rfl

/-- A search for a glob finds the first files that it describes, also where one file is looked
up. -/
theorem find_of_parse (hs : s.Built) (hunslashed : '\\' ∉ pattern.toList)
    (hparse : Glob.parse Glob.searchStyle pattern = .ok glob) (limit : ℕ) :
    s.find pattern limit = .ok (scan glob limit (s.files.map Prod.fst)) := by
  by_cases hliteral : Glob.isLiteral pattern = true
  · obtain ⟨glob', hparse', haccepts⟩ := Glob.exists_glob_of_isLiteral hliteral hunslashed
    obtain rfl : glob' = glob := Except.ok.inj (hparse'.symm.trans hparse)
    exact find_eq_scan hs hliteral hunslashed haccepts limit
  · exact find_of_glob hliteral hparse limit

/-- A search for what is no glob fails, unless there is nothing to try it on. -/
theorem find_of_fault (hunslashed : '\\' ∉ pattern.toList)
    (hparse : Glob.parse Glob.searchStyle pattern = .error fault) (hlimit : 1 ≤ limit) :
    s.find pattern limit =
      if (s.files.map Prod.fst).all isVendored then .ok [] else .error (.badGlob fault) := by
  have hwild : ¬Glob.isLiteral pattern = true := by
    intro hliteral
    obtain ⟨glob, hparse', -⟩ := Glob.exists_glob_of_isLiteral hliteral hunslashed
    exact absurd (hparse'.symm.trans hparse) (by simp)
  rw [find, if_neg (Nat.one_le_iff_ne_zero.mp hlimit), if_neg hwild, hparse]

/-- As long as a pattern has no backslash, a search gives what trying all files gives, whatever the
cache of globs was asked before. In particular, a path without wildcards is looked up, and is found
just as the glob that it is read as finds it: this glob describes the path itself and no other. -/
theorem find_eq_tryAll (hs : s.Built) (pattern : String) (limit : ℕ)
    (hunslashed : '\\' ∉ pattern.toList) (hlimit : 1 ≤ limit)
    (questions : List (String × String)) :
    s.find pattern limit =
        (s.tryAll (Glob.Cache.acceptsAll {} questions).2 pattern limit).mapError .badGlob ∧
      (Glob.isLiteral pattern = true →
        ∃ glob, Glob.parse Glob.searchStyle pattern = .ok glob ∧
          (∀ path, glob.accepts path = true ↔ path = pattern) ∧
            s.find pattern limit = .ok (scan glob limit (s.files.map Prod.fst))) := by
  have sound : (Glob.Cache.acceptsAll {} questions).2.IsSound :=
    Glob.Cache.isSound_empty.acceptsAll questions
  constructor
  · rw [tryAll]
    cases hparse : Glob.parse Glob.searchStyle pattern with
    | ok glob =>
      rw [tryFrom_of_parse sound hparse hlimit, find_of_parse hs hunslashed hparse]
      rfl
    | error fault =>
      rw [tryFrom_of_fault sound hparse, find_of_fault hunslashed hparse hlimit]
      split_ifs <;> rfl
  · intro hliteral
    obtain ⟨glob, hparse, haccepts⟩ := Glob.exists_glob_of_isLiteral hliteral hunslashed
    exact ⟨glob, hparse, haccepts, find_of_parse hs hunslashed hparse limit⟩

/-- A path with characters that are special in braces and classes only, beside one of third-party
code and one that a class would describe. -/
theorem find_eq_tryAll_marks :
    let s : Store := .ofList "/p" [("src/!a-é,b.ts", ""), ("vendor/!.ts", ""), ("src/-.ts", "")]
    let questions : List (String × String) := [("src/!a-é,b.ts", "src/-.ts"), ("**", "a")]
    let tried (pattern : String) := s.tryAll (Glob.Cache.acceptsAll {} questions).2 pattern 1
    s.find "src/!a-é,b.ts" 1 = .ok ["src/!a-é,b.ts"] ∧
      (tried "src/!a-é,b.ts").mapError Fault.badGlob = .ok ["src/!a-é,b.ts"] ∧
      (tried "vendor/!.ts").mapError Fault.badGlob = .ok [] ∧
      ∃ glob, Glob.parse Glob.searchStyle "src/!a-é,b.ts" = .ok glob ∧
        (∀ path, glob.accepts path = true ↔ path = "src/!a-é,b.ts") ∧
          s.find "src/!a-é,b.ts" 1 = .ok (scan glob 1 (s.files.map Prod.fst)) := by
  intro s questions tried
  have hs : s.Built := built_ofList _ _
  have hfind : s.find "src/!a-é,b.ts" 1 = .ok ["src/!a-é,b.ts"] := by decide +kernel
  have hnone : s.find "vendor/!.ts" 1 = .ok [] := by decide +kernel
  obtain ⟨htried, hliteral⟩ := find_eq_tryAll hs "src/!a-é,b.ts" 1 (by decide +kernel)
    (by decide) questions
  obtain ⟨hvendored, -⟩ := find_eq_tryAll hs "vendor/!.ts" 1 (by decide +kernel) (by decide)
    questions
  exact ⟨hfind, htried.symm.trans hfind, hvendored.symm.trans hnone, hliteral (by decide +kernel)⟩

end ImportScout.Store
