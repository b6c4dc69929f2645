import ImportScout.Bundle.Basic
import ImportScout.Json.Record
import ImportScout.Json.Writer
/-! # Bundles in JSON

A bundle is written as an object with a prompt and snippets. It is read back from that, and also
from a bare array of snippets, which stands for a bundle without a prompt.
-/

namespace ImportScout

open Json

namespace Origin

/-- The names of the origins. -/
def names : List (String × Origin) :=
  [("user", .user), ("suggestion", .suggestion)]

/-- The name of an origin. -/
def name : Origin → String
  | .user => "user"
  | .suggestion => "suggestion"

end Origin

namespace Kind

/-- The names of the kinds. -/
def names : List (String × Kind) :=
  [("code", .code), ("terminal", .terminal), ("external", .external)]

/-- The name of a kind. -/
def name : Kind → String
  | .code => "code"
  | .terminal => "terminal"
  | .external => "external"

end Kind

namespace Snippet

/-- The fields of a snippet, in order. -/
def fieldNames : List String :=
  ["fileName", "text", "addedBy", "type", "startLine", "endLine", "isFullFile", "note"]

/-- The members of a snippet; a note that is missing is left out. -/
def members (s : Snippet) : List (String × Json) :=
  [("fileName", .string s.fileName), ("text", .string s.text),
    ("addedBy", .string s.origin.name), ("type", .string s.kind.name),
    ("startLine", orNull nat s.startLine), ("endLine", orNull nat s.endLine),
    ("isFullFile", .bool s.isFullFile)] ++
    s.note.toList.map fun note => ("note", .string note)

/-- A snippet as a value. -/
def toJson (s : Snippet) : Json :=
  .object s.members

/-- The snippet that a value describes. Only its text must be there. -/
def ofJson? (v : Json) : Option Snippet := do
  match ← v.fields? fieldNames with
  | [fileName, text, origin, kind, startLine, endLine, isFullFile, note] =>
    some {
      fileName := ← withDefault "" text? fileName
      text := ← required text? text
      origin := ← withDefault .user (choice? Origin.names) origin
      kind := ← withDefault .code (choice? Kind.names) kind
      startLine := ← optional natural? startLine
      endLine := ← optional natural? endLine
      isFullFile := ← withDefault false bool? isFullFile
      note := ← optional text? note }
  | _ => none

end Snippet

namespace Bundle

/-- A bundle as a value. -/
def toJson (b : Bundle) : Json :=
  .object [("prompt", .string b.prompt), ("snippets", .array (b.snippets.map Snippet.toJson))]

/-- The bundle that a record describes. -/
def ofRecord? (v : Json) : Option Bundle := do
  match ← v.fields? ["prompt", "snippets"] with
  | [prompt, snippets] =>
    some {
      prompt := ← withDefault "" text? prompt
      snippets := ← withDefault [] (list? Snippet.ofJson?) snippets }
  | _ => none

/-- The bundle that a value describes: a record, or else a bare array of snippets. -/
def ofJson? (v : Json) : Option Bundle :=
  match ofRecord? v with
  | some b => some b
  | none => (list? Snippet.ofJson? v).map fun snippets => { snippets }

/-- Why a bundle cannot be had. -/
inductive ReadFault where
  /-- The text describes no bundle. -/
  | malformed
  /-- The file at this path cannot be read as text. -/
  | unreadable (path : String)
  /-- The file at this path describes no bundle. -/
  | invalid (path : String)
  deriving DecidableEq, Repr

/-- The wording of a fault. -/
def ReadFault.message : ReadFault → String
  | .malformed => "Failed to parse snippet bundle"
  | .unreadable path => s!"Failed to read snippet bundle: {path}"
  | .invalid path => s!"Invalid snippet bundle: {path}"

/-- The bundle that a text describes. -/
def parse (text : String) : Except ReadFault Bundle :=
  match (Json.parse? text).bind ofJson? with
  | some b => .ok b
  | none => .error .malformed

/-- The bundle in the file that a path leads to. -/
def ofFile (d : Disk) (path : String) : Except ReadFault Bundle :=
  match d.read? path with
  | none => .error (.unreadable path)
  | some text =>
    match parse text with
    | .ok b => .ok b
    | .error _ => .error (.invalid path)

end Bundle

end ImportScout
