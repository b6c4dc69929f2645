import ImportScout.Cli.Run
import Std.Time.Zoned
/-! # The program

The program takes a picture of the parts of the disk that an invocation is about, runs the command
line on it, and carries out what came of it: it prints, and writes the files that are new.
-/

namespace ImportScout.Host

/-! ## Pictures of the disk -/

/-- Put something at a place, unless something stands there. -/
def keep (d : Disk) (place : Place) (node : Node) : Disk :=
  match d.top.at? place with
  | some _ => d
  | none => { d with top := Node.put node d.top place }

/-- The content of a file. What cannot be read is shown as bytes that are no text. -/
def contentOf (path : String) : IO ByteArray := do
  try IO.FS.readBinFile path catch _ => pure ⟨#[0xFF]⟩

/-- A path that leads nowhere, because no name on a disk holds a null character. -/
def nowhere : String := "/\x00"

/-- What stands at a place, a folder being shown empty, and for a link the path it leads to, if it
leads anywhere. -/
def look (place : Place) : IO (Option (Node × Option String)) := do
  let path := Disk.pathOf place
  try
    match (← ((← IO.currentDir) / path).symlinkMetadata).type with
    | .dir => pure (some (.folder [], none))
    | .symlink =>
      try
        let target := (← IO.FS.realPath path).toString
        pure (some (.link target, some target))
      catch _ => pure (some (.link nowhere, none))
    | _ => pure (some (.file (← contentOf path), none))
  catch _ => pure none

/-- Take a picture of what stands on the way along `segs` from the place `here`, and tell where the
way ends. -/
partial def visit (d : Disk) (here : Place) : List String → IO (Disk × Option Place)
  | [] => pure (d, some here)
  | seg :: segs => do
    if Path.isIdle seg then visit d here segs
    else if seg = ".." then visit d here.dropLast segs
    else
      let place := here ++ [seg]
      match ← look place with
      | none => pure (d, none)
      | some (node, none) => visit (keep d place node) place segs
      | some (node, some target) =>
        match ← visit (keep d place node) [] (Path.segments target) with
        | (d, some place) => visit d place segs
        | (d, none) => pure (d, none)

/-- Take a picture of all that stands below a place, and of what the links below it lead to. The
places in `seen` are in the picture already. -/
partial def visitAll (d : Disk) (seen : List Place) (place : Place) :
    IO (Disk × List Place) := do
  if seen.contains place then return (d, seen)
  let mut d := d
  let mut seen := place :: seen
  let names ←
    try pure ((← ((← IO.currentDir) / Disk.pathOf place).readDir).toList.map (·.fileName))
    catch _ => pure []
  for name in names do
    let (next, reached) ← visit d place [name]
    d := next
    if let some below := reached then
      if (d.top.at? below).any Node.isFolder then
        let (next, more) ← visitAll d seen below
        d := next
        seen := more
  return (d, seen)

/-- Take a picture of what a path leads to. -/
def visitPath (d : Disk) (path : String) : IO (Disk × Option Place) :=
  visit d (d.start path) (Path.segments path)

/-- The paths that an invocation names beside its root. -/
def namedPaths (i : Cli.Invocation) : List String :=
  i.config.getD Config.defaultPath ::
    match i.action with
    | .suggest snippets _ _ _ => snippets.toList
    | .document o => o.snippets :: o.output.toList
    | .imports _ _ _ | .tree _ => []

/-- A picture of the disk as far as an invocation is about it. -/
def picture (i : Cli.Invocation) : IO Disk := do
  let working := Path.names (← IO.FS.realPath ".").toString
  let (start, _) ← visit ⟨.folder [], working.map Raw.ofText⟩ [] working
  let mut d := start
  for path in namedPaths i do
    d := (← visitPath d path).1
  let root :=
    match Config.load d i.config with
    | .ok c => i.root.getD c.root
    | .error _ => i.root.getD "."
  let (next, reached) ← visitPath d root
  d := next
  if let some place := reached then
    d := (← visitAll d [] place).1
  return d

/-! ## Carrying out -/

/-- Write the files that are new, and tell whether that went well. -/
def writeNew (before after : Disk) : IO (Except Cli.Failure Unit) := do
  let old := before.inventory []
  for (names, content) in after.inventory [] do
    unless old.any fun entry => entry.1 = names && entry.2.data = content.data do
      let place := names.map Raw.ofText
      let path := Disk.pathOf place
      try
        IO.FS.createDirAll (Disk.pathOf place.dropLast)
        IO.FS.writeBinFile path content
      catch _ => return .error (.unwritable path)
  return .ok ()

/-- The moment that it is now. -/
def now : IO Bundle.Moment := do
  let t ← Std.Time.PlainDateTime.now
  return ⟨t.date.year.toInt, t.date.month.toNat, t.date.day.toNat, t.time.hour.toNat,
    t.time.minute.toNat, t.time.second.toNat⟩

end ImportScout.Host

open ImportScout in
/-- Run the command line. -/
def main (args : List String) : IO UInt32 := do
  let d ←
    match Cli.Invocation.ofArgs args with
    | .ok i => Host.picture i
    | .error _ => pure ⟨.folder [], []⟩
  let outcome := Cli.run d args (← Host.now)
  match ← Host.writeNew d outcome.disk with
  | .error f =>
    IO.eprintln ("Error: " ++ f.message)
    return 1
  | .ok () =>
    IO.print outcome.out
    IO.eprint outcome.err
    return outcome.code.toUInt32
