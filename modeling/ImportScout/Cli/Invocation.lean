import ImportScout.Bundle.Document
import ImportScout.Tree.Drawing
/-! # Invocations

What a user asks for on the command line.
-/

namespace ImportScout.Cli

/-- How a bundle is exported. -/
structure ExportOptions where
  /-- The file with the bundle. -/
  snippets : String
  /-- Whether the suggested files are added in full. -/
  withSuggestions : Bool := false
  /-- Whether the project tree is shown, even if the configuration does not say so. -/
  showTree : Bool := false
  /-- Whether the document closes with the request for whole files. -/
  requestFullCode : Bool := false
  /-- The format of the document. -/
  format : Bundle.Format := .md
  /-- The file or folder that the document is written to; it is printed if there is none. -/
  output : Option String := none
  deriving DecidableEq, Repr

/-- A task. -/
inductive Action where
  /-- Suggest files for the snippets in a bundle and for whole files, as JSON or not, with the
  scores or without. -/
  | suggest (snippets : Option String) (files : List String) (json explain : Bool)
  /-- List the imports of a file, and perhaps the files they refer to. -/
  | imports (file : String) (resolves json : Bool)
  /-- Export a bundle as a document. -/
  | document (o : ExportOptions)
  /-- Print the project tree. -/
  | tree (style : DrawingStyle)
  deriving DecidableEq, Repr

/-- A task and the settings that go with any task. -/
structure Invocation where
  /-- The file with the configuration, if not the default one. -/
  config : Option String := none
  /-- The root folder, if not the configured one. -/
  root : Option String := none
  /-- Whether the user wants to see more in the log. -/
  verbose : Bool := false
  action : Action
  deriving DecidableEq, Repr

end ImportScout.Cli
