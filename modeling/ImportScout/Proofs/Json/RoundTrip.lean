import ImportScout.Json.Reader
import ImportScout.Json.Writer
import ImportScout.Proofs.Json.Token

/-! # Values written and read back

Both forms of a value spell the same words (`Fits.spells_compact`, `Fits.spells_pretty`), since
they differ in blanks only. Reading the words of a value on any stack of open arrays and objects
gives the value and leaves the stack as it was (`Fits.isRead`). So every value that nests no
deeper than is accepted, and whose numbers are natural numbers of 64 bits, is read back from what is
written of it (`Fits.parse?_compact`, `Fits.parse?_pretty`).
-/

namespace ImportScout.Json

open Text

/-- Whether a value nests no deeper than `depth` arrays and objects, and all its numbers are natural
numbers of at most 64 bits. -/
inductive Fits : (depth : ℕ) → Json → Prop
  | null {depth : ℕ} : Fits depth .null
  | bool {depth : ℕ} (b : Bool) : Fits depth (.bool b)
  | nat {depth n : ℕ} (h : n < Nat.pow 2 64) : Fits depth (.nat n)
  | string {depth : ℕ} (s : String) : Fits depth (.string s)
  | array {depth : ℕ} {items : List Json} (h : ∀ v ∈ items, Fits depth v) :
    Fits (depth + 1) (.array items)
  | object {depth : ℕ} {members : List (String × Json)} (h : ∀ m ∈ members, Fits depth m.2) :
    Fits (depth + 1) (.object members)

/-! ## Spelling -/

/-- Whether a text spells some words: in front of any text that does not go on with a number they
are read, and then the rest. -/
def Spells (text : List Char) (ts : List Token) : Prop :=
  ∀ rest, Stops rest → tokens? (text ++ rest) = (tokens? rest).map (ts ++ ·)

/-- Characters that are passed over between words. -/
def IsGap (gap : List Char) : Prop :=
  ∀ c ∈ gap, c = ' ' ∨ c = '\n'

namespace Spells

variable {text more gap : List Char} {ts us : List Token}

theorem tokens?_eq (h : Spells text ts) : tokens? text = some ts := by
  have := h [] stops_nil
  rwa [List.append_nil, tokens?, Option.map_some, List.append_nil] at this

theorem nil : Spells [] [] := by
  intro rest _
  rw [List.nil_append]
  exact Option.map_id'.symm

theorem append (h : Spells text ts) (h' : Spells more us) (stops : Stops more) :
    Spells (text ++ more) (ts ++ us) := by
  intro rest hrest
  have hstops : Stops (more ++ rest) := by
    cases more with
    | nil => exact hrest
    | cons c more => exact stops_cons (stops c rfl) _
  rw [List.append_assoc, h _ hstops, h' rest hrest, Option.map_map]
  simp [Function.comp_def]

theorem mark {c : Char} {t : Token} (hc : punctuation? c = some t) (h : Spells text ts) :
    Spells (c :: text) (t :: ts) := by
  intro rest hrest
  rw [List.cons_append, tokens?_mark hc, h rest hrest, Option.map_map]
  rfl

theorem gap_append (hgap : IsGap gap) (h : Spells text ts) : Spells (gap ++ text) ts := by
  intro rest hrest
  induction gap with
  | nil => exact h rest hrest
  | cons c gap ih =>
    obtain ⟨hc, hgap⟩ := List.forall_mem_cons.mp hgap
    rw [List.append_assoc, List.cons_append, tokens?_blank hc, ← List.append_assoc]
    exact ih hgap

end Spells

theorem spells_null : Spells Token.null.text [.null] :=
  fun rest _ => tokens?_null rest

theorem spells_bool (b : Bool) : Spells (Token.bool b).text [.bool b] :=
  fun rest _ => tokens?_bool b rest

theorem spells_quote (s : String) : Spells (quote s) [.string s] :=
  fun rest _ => tokens?_quote s rest

/-! ## Layouts -/

theorem itemTokens_eq (vs : List Json) :
    itemTokens vs = vs.flatMap fun v => .comma :: v.tokens := by
  induction vs with
  | nil => rfl
  | cons v vs ih => simp [itemTokens, ih]

theorem memberTokens_eq (ms : List (String × Json)) :
    memberTokens ms = ms.flatMap fun m => .comma :: .string m.1 :: .colon :: m.2.tokens := by
  induction ms with
  | nil => rfl
  | cons m ms ih => simp [memberTokens, ih]

section Layout

variable {α : Type} {text : α → List Char} {words : α → List Token} {gap inner : List Char}
  {opening closing : Char} {first last : Token}

theorem isNumeric_of_punctuation? {c : Char} {t : Token} (h : punctuation? c = some t) :
    isNumeric c = false := by
  have hnumeric : (!isNumeric c) = true := of_punctuation? (p := fun d => !isNumeric d) rfl h
  simpa using hnumeric

theorem IsGap.stops (hgap : IsGap gap) {c : Char} (hc : isNumeric c = false) (cs : List Char) :
    Stops (gap ++ c :: cs) := by
  cases gap with
  | nil => exact stops_cons hc cs
  | cons d gap =>
    refine stops_cons ?_ _
    rcases hgap d List.mem_cons_self with rfl | rfl <;> rfl

variable (hgap : IsGap gap) (hinner : IsGap inner)

include hgap

theorem stops_rest (hclosing : punctuation? closing = some last) (xs : List α) :
    Stops ((xs.flatMap fun x => ',' :: (inner ++ text x)) ++ (gap ++ [closing])) := by
  cases xs with
  | nil => exact hgap.stops (isNumeric_of_punctuation? hclosing) []
  | cons x xs => exact stops_cons rfl _

include hinner

theorem spells_rest (hclosing : punctuation? closing = some last) {xs : List α}
    (h : ∀ x ∈ xs, Spells (text x) (words x)) :
    Spells ((xs.flatMap fun x => ',' :: (inner ++ text x)) ++ (gap ++ [closing]))
      ((xs.flatMap fun x => .comma :: words x) ++ [last]) := by
  induction xs with
  | nil =>
    rw [List.flatMap_nil, List.flatMap_nil, List.nil_append, List.nil_append]
    exact .gap_append hgap (.mark hclosing .nil)
  | cons x xs ih =>
    obtain ⟨hx, hxs⟩ := List.forall_mem_cons.mp h
    have hfirst : Spells (inner ++ text x) (words x) := .gap_append hinner hx
    have hrest := Spells.mark (c := ',') rfl (hfirst.append (ih hxs) (stops_rest hgap hclosing xs))
    simpa only [List.flatMap_cons, List.cons_append, List.append_assoc] using hrest

/-- Things with commas between them, inside a pair of marks and with any gaps. -/
theorem spells_enclosed (opening closing : Char) (hopening : punctuation? opening = some first)
    (hclosing : punctuation? closing = some last) {x : α} {xs : List α}
    (h : ∀ y ∈ x :: xs, Spells (text y) (words y)) :
    Spells (opening :: (inner ++ text x ++ (xs.flatMap fun x => ',' :: (inner ++ text x)) ++
        (gap ++ [closing])))
      (first :: (words x ++ (xs.flatMap fun x => .comma :: words x) ++ [last])) := by
  obtain ⟨hx, hxs⟩ := List.forall_mem_cons.mp h
  have hfirst : Spells (inner ++ text x) (words x) := .gap_append hinner hx
  have hrest := hfirst.append (spells_rest hgap hinner hclosing hxs) (stops_rest hgap hclosing xs)
  rw [List.append_assoc, List.append_assoc _ _ [last]]
  exact .mark hopening hrest

end Layout

/-- A member of an object: its name, a colon and its value. -/
theorem spells_member {text gap : List Char} {v : Json} (hgap : IsGap gap)
    (h : Spells text v.tokens) (name : String) :
    Spells (quote name ++ ':' :: (gap ++ text)) (.string name :: .colon :: v.tokens) :=
  (spells_quote name).append (.mark rfl (.gap_append hgap h)) (stops_cons rfl _)

/-! ## The two forms -/

theorem isGap_nil : IsGap [] := by simp [IsGap]

theorem isGap_space : IsGap [' '] := by simp [IsGap]

theorem isGap_newline (level : ℕ) : IsGap (newline level) := by
  intro c hc
  rcases List.mem_cons.mp hc with rfl | hc
  · exact .inr rfl
  · exact .inl (List.eq_of_mem_replicate hc)

theorem spells_nat {n : ℕ} (h : n < Nat.pow 2 64) :
    Spells (Token.number (.ofNat n)).text [.number (.ofNat n)] := by
  have htext : (Token.number (.ofNat n)).text = decimal n := by
    simp [Token.text, Number.text, Number.ofNat]
  rw [htext]
  exact fun rest hrest => tokens?_decimal h hrest

variable {depth : ℕ} {v : Json}

theorem Fits.spells_compact (h : Fits depth v) : Spells (v.tokens.flatMap Token.text) v.tokens := by
  induction h with
  | null => simpa [tokens] using spells_null
  | bool b => simpa [tokens] using spells_bool b
  | nat h => simpa [tokens, Json.nat] using spells_nat h
  | string s => simpa [tokens, Token.text] using spells_quote s
  | @array depth items h ih =>
    cases items with
    | nil => exact .mark rfl (.mark rfl .nil)
    | cons v vs =>
      have hall := spells_enclosed isGap_nil isGap_nil '[' ']' rfl rfl ih
      simpa [tokens, itemTokens_eq, List.flatMap_assoc, Token.text] using hall
  | @object depth members h ih =>
    cases members with
    | nil => exact .mark rfl (.mark rfl .nil)
    | cons m ms =>
      have hall := spells_enclosed isGap_nil isGap_nil '\x7b' '\x7d' rfl rfl
        fun m hm => spells_member isGap_nil (ih m hm) m.1
      simpa [tokens, memberTokens_eq, List.flatMap_assoc, Token.text] using hall

theorem prettyItems_eq (level : ℕ) (vs : List Json) :
    prettyItems level vs = vs.flatMap fun v => ',' :: (newline level ++ v.prettyAt level) := by
  induction vs with
  | nil => rfl
  | cons v vs ih => simp [prettyItems, ih]

theorem prettyMembers_eq (level : ℕ) (ms : List (String × Json)) :
    prettyMembers level ms = ms.flatMap fun m =>
      ',' :: (newline level ++ (quote m.1 ++ ':' :: ([' '] ++ m.2.prettyAt level))) := by
  induction ms with
  | nil => rfl
  | cons m ms ih => simp [prettyMembers, ih]

theorem Fits.spells_pretty (h : Fits depth v) (level : ℕ) : Spells (v.prettyAt level) v.tokens := by
  induction h generalizing level with
  | null => simpa [tokens, prettyAt] using spells_null
  | bool b => simpa [tokens, prettyAt] using spells_bool b
  | nat h => simpa [tokens, prettyAt, Json.nat] using spells_nat h
  | string s => simpa [tokens, prettyAt, Token.text] using spells_quote s
  | @array depth items h ih =>
    cases items with
    | nil => exact .mark rfl (.mark rfl .nil)
    | cons v vs =>
      have hall := spells_enclosed (isGap_newline level) (isGap_newline (level + 1)) '[' ']' rfl rfl
        fun v hv => ih v hv (level + 1)
      simpa [tokens, itemTokens_eq, prettyAt, prettyItems_eq] using hall
  | @object depth members h ih =>
    cases members with
    | nil => exact .mark rfl (.mark rfl .nil)
    | cons m ms =>
      have hall := spells_enclosed (isGap_newline level) (isGap_newline (level + 1)) '\x7b' '\x7d'
        rfl rfl fun m hm => spells_member isGap_space (ih m hm (level + 1)) m.1
      simpa [tokens, memberTokens_eq, prettyAt, prettyMembers_eq] using hall

/-! ## Reading the words -/

/-- Whether taking some words leads from one state of reading to another. -/
def Progress.Reads (p : Progress) (ts : List Token) (q : Progress) : Prop :=
  ts.foldlM Progress.step? p = some q

namespace Progress.Reads

variable {p q r : Progress} {t : Token} {ts us : List Token}

theorem nil : Reads p [] p := rfl

theorem cons (hstep : p.step? t = some q) (h : Reads q ts r) : Reads p (t :: ts) r := by
  rw [Reads, List.foldlM_cons, hstep]
  exact h

theorem append (h : Reads p ts q) (h' : Reads q us r) : Reads p (ts ++ us) r := by
  rw [Reads, List.foldlM_append, h]
  exact h'

end Progress.Reads

/-- Whether the words of a value are read as this value, on any stack with room for `depth` more
arrays and objects. -/
def IsRead (depth : ℕ) (v : Json) : Prop :=
  ∀ stack : List Frame, stack.length + depth ≤ depthLimit →
    Progress.Reads ⟨.value, stack⟩ v.tokens ⟨.after v, stack⟩

/-- The first word of a value does not close an array. -/
theorem exists_tokens_eq_cons (v : Json) : ∃ t ts, v.tokens = t :: ts ∧ t ≠ .closeArray := by
  cases v with
  | null | bool | number | string => exact ⟨_, _, rfl, Token.noConfusion⟩
  | array items => cases items <;> exact ⟨_, _, rfl, Token.noConfusion⟩
  | object members => cases members <;> exact ⟨_, _, rfl, Token.noConfusion⟩

/-- Where an item may stand, a value is read as everywhere else. -/
theorem Progress.Reads.item {v : Json} {stack : List Frame} {q : Progress}
    (h : Progress.Reads ⟨.value, stack⟩ v.tokens q) : Progress.Reads ⟨.item, stack⟩ v.tokens q := by
  obtain ⟨t, ts, hcons, ht⟩ := v.exists_tokens_eq_cons
  have hstep : Progress.step? ⟨.item, stack⟩ t = Progress.step? ⟨.value, stack⟩ t := by
    cases t <;> first | rfl | exact absurd rfl ht
  rw [hcons, Reads, List.foldlM_cons] at h ⊢
  rwa [hstep]

section Reading

variable {stack : List Frame} (room : stack.length + 1 + depth ≤ depthLimit)

include room

theorem reads_items {vs : List Json} (h : ∀ u ∈ vs, IsRead depth u) (v : Json)
    (before : List Json) :
    Progress.Reads ⟨.after v, .array before :: stack⟩ (itemTokens vs ++ [.closeArray])
      ⟨.after (.array ((v :: before).reverse ++ vs)), stack⟩ := by
  induction vs generalizing v before with
  | nil =>
    rw [List.append_nil]
    exact .cons rfl .nil
  | cons u vs ih =>
    obtain ⟨hu, hvs⟩ := List.forall_mem_cons.mp h
    have hrest := (hu (.array (v :: before) :: stack) room).append (ih hvs u (v :: before))
    rw [List.reverse_cons, List.append_assoc, List.singleton_append] at hrest
    rw [itemTokens, List.cons_append, List.append_assoc]
    exact .cons rfl hrest

theorem reads_members {ms : List (String × Json)} (h : ∀ m ∈ ms, IsRead depth m.2)
    (name : String) (v : Json) (before : List (String × Json)) :
    Progress.Reads ⟨.after v, .object before (some name) :: stack⟩
      (memberTokens ms ++ [.closeObject])
      ⟨.after (.object (((name, v) :: before).reverse ++ ms)), stack⟩ := by
  induction ms generalizing name v before with
  | nil =>
    rw [List.append_nil]
    exact .cons rfl .nil
  | cons m ms ih =>
    obtain ⟨hm, hms⟩ := List.forall_mem_cons.mp h
    have hrest := (hm (.object ((name, v) :: before) (some m.1) :: stack) room).append
      (ih hms m.1 m.2 ((name, v) :: before))
    rw [List.reverse_cons, List.append_assoc, List.singleton_append] at hrest
    rw [memberTokens, List.cons_append, List.cons_append, List.cons_append, List.append_assoc]
    exact .cons rfl (.cons rfl (.cons rfl hrest))

end Reading

theorem enter_eq_some (expected : Expected) (frame : Frame) {stack : List Frame}
    (room : stack.length + (depth + 1) ≤ depthLimit) :
    Progress.enter expected frame stack = some ⟨expected, frame :: stack⟩ :=
  if_pos (by omega)

theorem Fits.isRead (h : Fits depth v) : IsRead depth v := by
  induction h with
  | null | bool | nat | string => exact fun stack _ => .cons rfl .nil
  | @array depth items h ih =>
    intro stack room
    have henter := enter_eq_some .item (.array []) room
    cases items with
    | nil => exact .cons henter (.cons rfl .nil)
    | cons v vs =>
      obtain ⟨hv, hvs⟩ := List.forall_mem_cons.mp ih
      have room' : stack.length + 1 + depth ≤ depthLimit := by omega
      have hfirst := (hv (.array [] :: stack) room').item
      rw [tokens, List.append_assoc]
      exact .cons henter (hfirst.append (reads_items room' hvs v []))
  | @object depth members h ih =>
    intro stack room
    have henter := enter_eq_some .member (.object [] none) room
    cases members with
    | nil => exact .cons henter (.cons rfl .nil)
    | cons m ms =>
      obtain ⟨hm, hms⟩ := List.forall_mem_cons.mp ih
      have room' : stack.length + 1 + depth ≤ depthLimit := by omega
      have hfirst := hm (.object [] (some m.1) :: stack) room'
      rw [tokens, List.append_assoc]
      exact .cons henter
        (.cons rfl (.cons rfl (hfirst.append (reads_members room' hms m.1 m.2 []))))

/-! ## Round trips -/

theorem Fits.ofTokens?_tokens (h : Fits depthLimit v) : ofTokens? v.tokens = some v := by
  have hread : Progress.Reads ⟨.value, []⟩ v.tokens ⟨.after v, []⟩ :=
    h.isRead [] (Nat.le_of_eq (Nat.zero_add _))
  rw [ofTokens?, hread]
  rfl

theorem Fits.parse?_compact (h : Fits depthLimit v) : parse? v.compact = some v := by
  rw [parse?, compact, String.toList_ofList, h.spells_compact.tokens?_eq]
  exact h.ofTokens?_tokens

theorem Fits.parse?_pretty (h : Fits depthLimit v) : parse? v.pretty = some v := by
  rw [parse?, pretty, String.toList_ofList, (h.spells_pretty 0).tokens?_eq]
  exact h.ofTokens?_tokens

end ImportScout.Json
