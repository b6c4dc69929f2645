import ImportScout.Json.Writer
import ImportScout.Rank.Score
import ImportScout.Report
/-! # What the command line shows

Suggestions, scores and imports as lines and as JSON.
-/

namespace ImportScout.Cli

open Text

/-- Lines, each with a line feed at its end. -/
def linesOf (ls : List String) : String :=
  String.join (ls.map (· ++ "\n"))

/-- A text at the left of a column. -/
def leftIn (width : Nat) (s : String) : String :=
  String.ofList (padRight ' ' width s.toList)

/-- A text at the right of a column. -/
def rightIn (width : Nat) (s : String) : String :=
  String.ofList (padLeft ' ' width s.toList)

/-- A number at the right of a column. -/
def numberIn (width n : Nat) : String :=
  String.ofList (padLeft ' ' width (decimal n))

/-! ## Suggestions -/

/-- Said when there is nothing to suggest. -/
def noSuggestions : String := "No suggestions.\n"

/-- Suggestions as JSON on one line. -/
def suggestionsJson (paths : List String) : String :=
  linesOf [(Json.object [("suggestions", .strings paths)]).compact]

/-- A line of the table of scores. -/
def scoreLine (path frequency hub composite : String) : String :=
  leftIn 40 path ++ " " ++ rightIn 5 frequency ++ " " ++ rightIn 5 hub ++ " " ++
    rightIn 7 composite

/-- The table of scores. -/
def scoreTable (scores : List Score) : String :=
  let number (n : Nat) := String.ofList (decimal n)
  linesOf (scoreLine "FILE" "FREQ" "HUB" "SCORE" ::
    String.ofList (List.replicate 60 '-') ::
    scores.map fun s =>
      scoreLine s.path (number s.frequency) (number s.hub) (number s.composite))

/-- A score as a value. -/
def scoreValue (s : Score) : Json :=
  .object [("file_path", .string s.path), ("frequency", .nat s.frequency),
    ("hub_score", .nat s.hub), ("composite_score", .nat s.composite)]

/-- Scores as JSON over several lines. -/
def scoresJson (scores : List Score) : String :=
  linesOf [(Json.array (scores.map scoreValue)).pretty]

/-! ## Imports -/

/-- The line on an import. If targets were asked for, it tells that of a local import. -/
def reportLine (resolves : Bool) (r : Report) : String :=
  let kind := leftIn 8 (if r.isLocal then "project" else "external")
  let target :=
    match r.target with
    | some path => " -> " ++ path
    | none => if resolves && r.isLocal then " -> (unresolved)" else ""
  numberIn 6 r.imported.offset ++ "  " ++ kind ++ " " ++ r.imported.specifier ++ target

/-- The lines on the imports of a file. -/
def reportLines (resolves : Bool) (file : String) (rs : List Report) : String :=
  if rs.isEmpty then linesOf ["No imports found in " ++ file ++ "."]
  else linesOf (rs.map (reportLine resolves))

/-- What is reported of an import as a value; a target that is not known is left out. -/
def reportValue (r : Report) : Json :=
  .object ([("path", .string r.imported.specifier), ("offset", .nat r.imported.offset),
    ("project", .bool r.isLocal)] ++
    r.target.toList.map fun path => ("resolved", .string path))

/-- Reports as JSON over several lines. -/
def reportsJson (rs : List Report) : String :=
  linesOf [(Json.array (rs.map reportValue)).pretty]

end ImportScout.Cli
