import ImportScout.Cli.Arguments
import ImportScout.Cli.Display
import ImportScout.Disk.Write
import ImportScout.Project
/-! # Running an invocation

An invocation is run on a disk at some moment. It prints to two streams, ends with a code, and may
leave the disk with a new file: zero is the code of success, one that of a fault, and two that of
arguments which make no sense. Only the first fault is told.
-/

namespace ImportScout.Cli

open Text

/-- Why an invocation fails. -/
inductive Failure where
  /-- There is no configuration. -/
  | config (f : Config.Fault)
  /-- There is no workspace. -/
  | folder (f : FolderWorkspace.OpenFault)
  /-- There is no bundle. -/
  | gather (f : Project.GatherFault)
  /-- The file cannot be looked into. -/
  | file (f : Bundle.FileFault)
  /-- The project tree cannot be drawn. -/
  | tree (f : Outline.NoFolder)
  /-- This folder cannot be made. -/
  | noFolder (path : String)
  /-- This file cannot be written. -/
  | unwritable (path : String)
  deriving DecidableEq, Repr

/-- The wording of a failure. -/
def Failure.message : Failure → String
  | .config f => f.message
  | .folder f => f.message
  | .gather f => f.message
  | .file f => f.message
  | .tree f => f.message
  | .noFolder path => s!"Failed to create directory: {path}"
  | .unwritable path => s!"Failed to write {path}"

/-- What an invocation leaves behind: what it printed, what it said on the side, and the disk. -/
structure Outcome where
  code : Nat := 0
  out : String := ""
  err : String := ""
  disk : Disk

/-! ## Tasks -/

/-- Print suggestions. -/
def showSuggestions (p : Project) (snippets : Option String) (files : List String)
    (json explain : Bool) : Except Failure Outcome := do
  let bundle ← (p.gather snippets files).value.mapError .gather
  if explain then
    let scores := (p.engine.score bundle.snippets).value
    .ok { disk := p.disk
          out :=
            if json then scoresJson scores
            else if scores.isEmpty then noSuggestions
            else scoreTable scores }
  else
    let paths := (p.engine.rank bundle.snippets).value
    if json then .ok { disk := p.disk, out := suggestionsJson paths }
    else if paths.isEmpty then .ok { disk := p.disk, err := noSuggestions }
    else .ok { disk := p.disk, out := linesOf paths }

/-- Print the imports of a file. -/
def showImports (p : Project) (file : String) (resolves json : Bool) : Except Failure Outcome := do
  let (path, reports) ← (Report.ofFile p.engine resolves file).value.mapError .file
  .ok { disk := p.disk
        out := if json then reportsJson reports else reportLines resolves path reports }

/-- The drawing of a project. -/
def drawing (p : Project) (style : DrawingStyle) : Except Failure String :=
  (Outline.drawPath p.disk style (.ofPlace p.folder.root)).mapError .tree

/-- The path of the folder that a file stands in. -/
def folderOf (path : String) : String :=
  Path.ofSegments (Path.dropIdleEnd (Path.dropIdleEnd (Path.segments path)).dropLast)

/-- Where a document is written to: a folder gets a file with a name of its own. -/
def outputPath (d : Disk) (output : String) (format : Bundle.Format) (now : Bundle.Moment) :
    String :=
  if d.isFolder output then Path.onto output (Bundle.defaultName format now) else output

/-- Write a document, with the folders on the way to it. -/
def writeDocument (d : Disk) (path text : String) : Except Failure Disk :=
  match d.makeFolders (folderOf path) with
  | none => .error (.noFolder (folderOf path))
  | some d =>
    match d.write path text.toUTF8 with
    | none => .error (.unwritable path)
    | some d => .ok d

/-- The bundle that is exported. -/
def exported (p : Project) (o : ExportOptions) : Except Failure Bundle := do
  let bundle ← (Bundle.ofFile p.disk o.snippets).mapError fun f => .gather (.bundle f)
  if o.withSuggestions then
    let paths := (p.engine.rank bundle.snippets).value
    .ok { bundle with snippets := bundle.snippets ++ (p.load paths).value }
  else .ok bundle

/-- Export a bundle as a document. -/
def exportDocument (p : Project) (o : ExportOptions) (now : Bundle.Moment) :
    Except Failure Outcome := do
  let bundle ← exported p o
  let tree ←
    if o.showTree || p.config.includeTree then (drawing p .unicode).map some else .ok none
  let request := if o.requestFullCode then some p.config.fullCodeRequest else none
  let text := bundle.document tree request
  match o.output with
  | none => .ok { disk := p.disk, out := text }
  | some output =>
    let path := outputPath p.disk output o.format now
    let disk ← writeDocument p.disk path text
    let count := String.ofList (decimal bundle.snippets.length)
    .ok { disk, err := linesOf ["Exported " ++ count ++ " snippets to " ++ path] }

/-! ## Invocations -/

/-- Run a task in a project. -/
def Action.run (a : Action) (p : Project) (now : Bundle.Moment) : Except Failure Outcome :=
  match a with
  | .suggest snippets files json explain => showSuggestions p snippets files json explain
  | .imports file resolves json => showImports p file resolves json
  | .document o => exportDocument p o now
  | .tree style => (drawing p style).map fun text => { disk := p.disk, out := text }

/-- Run an invocation. -/
def Invocation.run (i : Invocation) (d : Disk) (now : Bundle.Moment) : Except Failure Outcome := do
  let config ← (Config.load d i.config).mapError .config
  let p ← (Project.ofConfig d config i.root).mapError .folder
  i.action.run p now

/-- What is printed when the user asks for the version. -/
def versionText : String := "ctxb 0.1.0\n"

/-- What is printed when the user asks for help. -/
def helpText : String :=
  linesOf [
    "Suggest related files for AI chat context from the import graph",
    "",
    "Usage: ctxb [--config FILE] [--root FOLDER] [-v] TASK",
    "",
    "Tasks:",
    "  suggest  [--snippets FILE] [--file PATH]... [--json] [--explain]",
    "  imports  FILE [--resolve] [--json]",
    "  bundle   --snippets FILE [--with-suggestions] [--tree] [--request-full-code]",
    "           [--format md|txt] [--output PATH]",
    "  tree     [--ascii]"]

/-- Run the command line with the given arguments. -/
def run (d : Disk) (args : List String) (now : Bundle.Moment) : Outcome :=
  match Invocation.ofArgs args with
  | .error .help => { disk := d, out := helpText }
  | .error .version => { disk := d, out := versionText }
  | .error .misuse => { disk := d, code := 2, err := helpText }
  | .ok i =>
    match i.run d now with
    | .ok outcome => outcome
    | .error f => { disk := d, code := 1, err := linesOf ["Error: " ++ f.message] }

end ImportScout.Cli
