import ImportScout.Bundle.Basic
/-! # Bundles as documents

A bundle becomes one text to paste into a chat: the prompt, then each snippet under a heading of
its kind, then perhaps the project tree and a closing request, with rules in between.
-/

namespace ImportScout.Bundle

open Text

/-- The kind of file that a document is written to. The text is the same in both. -/
inductive Format where
  | md
  | txt
  deriving DecidableEq, Repr

/-- The extension of a format. -/
def Format.extension : Format → String
  | .md => "md"
  | .txt => "txt"

/-- A text between fences. -/
def fenced (text : String) : String :=
  "```\n" ++ text ++ "\n```\n"

/-- The part of a document that shows a snippet, up to and with its rule. -/
def part (s : Snippet) : String :=
  (match s.kind with
    | .code => "### " ++ s.label ++ "\n\n" ++ fenced s.text
    | .terminal => "\n\n### Terminal Log\n\n" ++ fenced s.text
    | .external => "\n\n### External Information\n\n" ++ s.text ++ "\n") ++
    (match s.note with
      | none | some "" => ""
      | some note => "> " ++ note ++ "\n\n") ++
    "---\n"

/-- The document of a bundle, with a project tree and a closing request if they are given. An empty
request is none. -/
def document (b : Bundle) (tree request : Option String) : String :=
  b.prompt ++ "\n---\n" ++ String.join (b.snippets.map part) ++
    (match tree with
      | none => ""
      | some tree => "\n\n### Project Tree\n\n" ++ fenced tree) ++
    (match request with
      | none | some "" => ""
      | some request => "\n\n" ++ request ++ "\n")

/-! ## File names -/

/-- A date and a time of day. -/
structure Moment where
  year : Int
  month : Nat
  day : Nat
  hour : Nat
  minute : Nat
  second : Nat
  deriving DecidableEq, Repr

/-- A year in four digits; years beyond these have a sign and as many digits as they need. -/
def yearText (year : Int) : List Char :=
  let digits := decimal year.natAbs
  if 0 ≤ year && year ≤ 9999 then padLeft '0' 4 digits
  else (if year < 0 then '-' else '+') :: padLeft '0' 4 digits

/-- The name of a document that is written into a folder. -/
def defaultName (format : Format) (m : Moment) : String :=
  let two (n : Nat) := padLeft '0' 2 (decimal n)
  "context-bundle-" ++ String.ofList (yearText m.year ++ two m.month ++ two m.day ++ '-' ::
    (two m.hour ++ two m.minute ++ two m.second)) ++ "." ++ format.extension

end ImportScout.Bundle
