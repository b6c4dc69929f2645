import ImportScout.Text.Split
import ImportScout.Text.Utf8
import ImportScout.Text.Decimal
/-! # Snippets

A snippet is a piece of context that is collected for an assistant: a stretch of a file, a log or
a note from elsewhere. It remembers who added it and where it stands.
-/

namespace ImportScout

open Text

/-- Who put a snippet into the bundle. Only the user's snippets drive suggestions. -/
inductive Origin where
  | user
  | suggestion
  deriving DecidableEq, Repr

/-- What a snippet holds. -/
inductive Kind where
  | code
  | terminal
  | external
  deriving DecidableEq, Repr

/-- A piece of context, with the lines of the file that it spans, counted from 1. -/
structure Snippet where
  fileName : String := ""
  text : String
  origin : Origin := .user
  kind : Kind := .code
  startLine : Option Nat := none
  endLine : Option Nat := none
  isFullFile : Bool := false
  note : Option String := none
  deriving DecidableEq, Repr

namespace Snippet

/-- A piece of code selected by the user, without line numbers. -/
def userCode (fileName text : String) : Snippet :=
  { fileName, text }

/-- A whole file, spanning every line of its text and at least one. -/
def fullFile (fileName text : String) (origin : Origin) : Snippet :=
  { fileName, text, origin, startLine := some 1,
    endLine := some (max 1 (lines text.toList).length), isFullFile := true }

/-- Whether the snippet is a signal for suggestions. Files that were suggested are none, or each
accepted suggestion would pull in its own neighbours. -/
def isPrimary (s : Snippet) : Bool :=
  s.origin = .user

/-- The label of a snippet: its file and, if both ends are known, the line or lines it spans. -/
def label (s : Snippet) : String :=
  match s.startLine, s.endLine with
  | some first, some last =>
    let span := if first = last then decimal first else decimal first ++ '-' :: decimal last
    String.ofList (s.fileName.toList ++ ':' :: span)
  | _, _ => s.fileName

end Snippet

/-- How many bytes of a text stand before its line `line`, counted from 1, or nothing if the text
has fewer line feeds than lines before that one. -/
def lineStart? (text : List Char) (line : Nat) : Option Nat :=
  if line ≤ 1 then some 0 else go 0 (line - 1) text
where
  /-- The bytes up to the `feeds`-th line feed, when `offset` bytes were passed already. -/
  go (offset : Nat) : (feeds : Nat) → List Char → Option Nat
    | 0, _ => some offset
    | _ + 1, [] => none
    | feeds + 1, c :: cs =>
      go (offset + c.utf8Size) (if c = '\n' then feeds else feeds + 1) cs

end ImportScout
