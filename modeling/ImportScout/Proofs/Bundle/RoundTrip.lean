import ImportScout.Bundle.Codec
import ImportScout.Proofs.Json.RoundTrip

/-! # Bundles written and read back

Whatever a bundle holds, reading what was written of it gives the bundle back, and reading a bare
array of its snippets gives a bundle of them without a prompt (`Bundle.parse_written`). An array is
tried as the fields of a bundle first, and fails there unless it is empty, since a snippet is no
text.
-/

namespace ImportScout

open Json

/-! ## Snippets -/

/-- Whether the line numbers of a snippet are numbers of at most 64 bits. -/
def Snippet.LinesFit (s : Snippet) : Prop :=
  ∀ line ∈ s.startLine.toList ++ s.endLine.toList, line < Nat.pow 2 64

instance (s : Snippet) : Decidable s.LinesFit :=
  inferInstanceAs (Decidable (∀ line ∈ s.startLine.toList ++ s.endLine.toList, line < Nat.pow 2 64))

namespace Snippet.LinesFit

variable {s : Snippet}

theorem startLine (h : s.LinesFit) : ∀ line ∈ s.startLine, line < Nat.pow 2 64 :=
  fun line hline => h line (List.mem_append_left _ (Option.mem_toList.mpr hline))

theorem endLine (h : s.LinesFit) : ∀ line ∈ s.endLine, line < Nat.pow 2 64 :=
  fun line hline => h line (List.mem_append_right _ (Option.mem_toList.mpr hline))

end Snippet.LinesFit

/-! ## Line numbers -/

theorem natural?_nat {n : ℕ} (h : n < Nat.pow 2 64) : natural? (.nat n) = some n := by
  have hread : natural? (.nat n) = if Text.decimalValue (Text.decimal n) < Nat.pow 2 64 then
    some (Text.decimalValue (Text.decimal n)) else none := rfl
  rw [hread, Text.decimalValue_decimal]
  exact if_pos h

section Line

variable {line : Option ℕ} (h : ∀ n ∈ line, n < Nat.pow 2 64)

include h

/-- A line number that is written is read back, and so is a missing one. -/
theorem optional_orNull : Json.optional natural? (some (orNull nat line)) = some line := by
  cases line with
  | none => rfl
  | some n => exact congrArg (Option.map some) (natural?_nat (h n rfl))

theorem fits_orNull {depth : ℕ} : Fits depth (orNull nat line) := by
  cases line with
  | none => exact .null
  | some n => exact .nat (h n rfl)

end Line

namespace Snippet

variable {s : Snippet}

theorem fields?_toJson (s : Snippet) :
    s.toJson.fields? fieldNames = some
      [some (.string s.fileName), some (.string s.text), some (.string s.origin.name),
        some (.string s.kind.name), some (orNull nat s.startLine), some (orNull nat s.endLine),
        some (.bool s.isFullFile), s.note.map Json.string] := by
  rw [toJson, members]
  cases s.note with
  | none => rfl
  | some note => rfl

theorem ofJson?_toJson (h : s.LinesFit) : ofJson? s.toJson = some s := by
  have horigin : choice? Origin.names (.string s.origin.name) = some s.origin := by
    cases s.origin <;> rfl
  have hkind : choice? Kind.names (.string s.kind.name) = some s.kind := by
    cases s.kind <;> rfl
  have hnote : Json.optional text? (s.note.map Json.string) = some s.note := by
    cases s.note <;> rfl
  rw [ofJson?, fields?_toJson]
  simp [withDefault, required, text?, bool?, optional_orNull h.startLine,
    optional_orNull h.endLine, horigin, hkind, hnote]

theorem fits_toJson {depth : ℕ} (h : s.LinesFit) : Fits (depth + 1) s.toJson := by
  refine .object fun m hm => ?_
  rw [members, List.mem_append] at hm
  rcases hm with hm | hm
  · simp only [List.mem_cons, List.not_mem_nil, or_false] at hm
    rcases hm with rfl | rfl | rfl | rfl | rfl | rfl | rfl
    · exact .string _
    · exact .string _
    · exact .string _
    · exact .string _
    · exact fits_orNull h.startLine
    · exact fits_orNull h.endLine
    · exact .bool _
  · obtain ⟨note, -, rfl⟩ := List.mem_map.mp hm
    exact .string note

end Snippet

/-! ## Lists of snippets -/

variable {snippets : List Snippet}

theorem mapM_ofJson?_map_toJson (h : ∀ s ∈ snippets, s.LinesFit) :
    (snippets.map Snippet.toJson).mapM Snippet.ofJson? = some snippets := by
  induction snippets with
  | nil => rfl
  | cons s snippets ih =>
    obtain ⟨hs, hsnippets⟩ := List.forall_mem_cons.mp h
    rw [List.map_cons, List.mapM_cons, Snippet.ofJson?_toJson hs, ih hsnippets]
    rfl

theorem fits_array_map_toJson (depth : ℕ) (h : ∀ s ∈ snippets, s.LinesFit) :
    Fits (depth + 2) (.array (snippets.map Snippet.toJson)) := by
  refine .array fun v hv => ?_
  obtain ⟨s, hs, rfl⟩ := List.mem_map.mp hv
  exact Snippet.fits_toJson (h s hs)

namespace Bundle

/-! ## Bundles -/

theorem ofJson?_toJson {b : Bundle} (h : ∀ s ∈ b.snippets, s.LinesFit) :
    ofJson? b.toJson = some b := by
  have hfields : b.toJson.fields? ["prompt", "snippets"] =
      some [some (.string b.prompt), some (.array (b.snippets.map Snippet.toJson))] := rfl
  have hrecord : ofRecord? b.toJson = some b := by
    rw [ofRecord?, hfields]
    simp [withDefault, text?, list?, mapM_ofJson?_map_toJson h]
  rw [ofJson?, hrecord]

/-- An array of snippets is a bundle without a prompt, even where it might be the fields of one. -/
theorem ofJson?_array (h : ∀ s ∈ snippets, s.LinesFit) :
    ofJson? (.array (snippets.map Snippet.toJson)) = some { snippets } := by
  cases snippets with
  | nil => rfl
  | cons s snippets =>
    -- its first item is no text and so no prompt
    have hrecord : ofRecord? (.array ((s :: snippets).map Snippet.toJson)) = none := by
      match snippets with
      | [] | [_] => rfl
      | _ :: _ :: _ => simp [ofRecord?, fields?]
    rw [ofJson?, hrecord, list?, mapM_ofJson?_map_toJson h]
    rfl

/-- A bundle is read back from either form in which it is written, provided that the line numbers
of its snippets have at most 64 bits. From a bare array of its snippets they are read back as well,
as a bundle without a prompt. -/
theorem parse_written (b : Bundle) (h : ∀ s ∈ b.snippets, s.LinesFit) :
    parse b.toJson.compact = .ok b ∧ parse b.toJson.pretty = .ok b ∧
      parse (Json.array (b.snippets.map Snippet.toJson)).compact =
        .ok { prompt := "", snippets := b.snippets } ∧
      parse (Json.array (b.snippets.map Snippet.toJson)).pretty =
        .ok { prompt := "", snippets := b.snippets } := by
  have hbare : Fits depthLimit (.array (b.snippets.map Snippet.toJson)) :=
    fits_array_map_toJson 125 h
  have hfull : Fits (126 + 1) b.toJson := by
    refine .object fun m hm => ?_
    simp only [List.mem_cons, List.not_mem_nil, or_false] at hm
    rcases hm with rfl | rfl
    · exact .string _
    · exact fits_array_map_toJson 124 h
  refine ⟨?_, ?_, ?_, ?_⟩
  · rw [parse, hfull.parse?_compact, Option.bind_some, ofJson?_toJson h]
  · rw [parse, hfull.parse?_pretty, Option.bind_some, ofJson?_toJson h]
  · rw [parse, hbare.parse?_compact, Option.bind_some, ofJson?_array h]
  · rw [parse, hbare.parse?_pretty, Option.bind_some, ofJson?_array h]

/-- A bundle whose texts need escaping, with the greatest line number there is. -/
theorem parse_written_escaped :
    let s : Snippet :=
      { fileName := "a\"b\\.ts", text := "é\n\x01", origin := .suggestion, kind := .terminal,
        endLine := some (Nat.pow 2 64 - 1), note := some "" }
    parse (Bundle.toJson { prompt := "\t", snippets := [s] }).compact =
        .ok { prompt := "\t", snippets := [s] } ∧
      parse (Json.array [s.toJson]).compact = .ok { prompt := "", snippets := [s] } := by
  intro s
  have hlines : ∀ t ∈ [s], t.LinesFit := by
    intro t ht
    rw [List.mem_singleton.mp ht]
    decide
  obtain ⟨hfull, -, hbare, -⟩ := parse_written { prompt := "\t", snippets := [s] } hlines
  exact ⟨hfull, hbare⟩

end Bundle

end ImportScout
