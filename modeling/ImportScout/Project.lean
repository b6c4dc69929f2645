import ImportScout.Config.Codec
import ImportScout.Command.Definition
import ImportScout.Bundle.Codec
import ImportScout.Workspace.Folder
/-! # Projects

A project is a folder of a disk with its configuration. It resolves imports as it is configured:
by its command for definitions, if it has one, and then by probing. A bundle for it is gathered
from a file, from whole files of the project, or from both.
-/

namespace ImportScout

namespace Config

/-- The strategies of a configuration. Without a command for definitions imports are only
probed. -/
def chain (c : Config) : Chain :=
  match Command.ofList? c.definitionCommand with
  | none => Chain.manual c.probing
  | some command => Chain.standard command.toProvider c.probing

end Config

/-- A folder of a disk with its configuration. -/
structure Project where
  disk : Disk
  config : Config
  folder : FolderWorkspace

namespace Project

/-- The project with the given configuration, in the folder that it names or else in `root`. -/
def ofConfig (d : Disk) (c : Config) (root : Option String) :
    Except FolderWorkspace.OpenFault Project :=
  (FolderWorkspace.ofPath d (root.getD c.root) c.exclusions c.followLinks).map (⟨d, c, ·⟩)

/-- The files of a project. -/
def workspace (p : Project) : Workspace :=
  p.folder.toWorkspace p.disk

/-- What ranking works with. -/
def engine (p : Project) : Engine :=
  ⟨p.workspace, p.config.chain, p.config.probing.extensions, p.config.limits⟩

/-- The suggested files in full. -/
def load (p : Project) (paths : List String) : Traced (List Snippet) :=
  Bundle.load p.workspace p.config.probing.extensions paths

/-! ## Gathering -/

/-- Why there is no bundle to work on. -/
inductive GatherFault where
  /-- Neither a bundle nor a file is given. -/
  | nothing
  /-- The bundle cannot be had. -/
  | bundle (f : Bundle.ReadFault)
  /-- A file cannot become a snippet. -/
  | file (f : Bundle.FileFault)
  deriving DecidableEq, Repr

/-- The wording of a fault. -/
def GatherFault.message : GatherFault → String
  | .nothing => "Nothing to suggest from: pass --snippets <FILE> or --file <PATH>"
  | .bundle f => f.message
  | .file f => f.message

/-- The bundle at a path of the disk, or an empty one, with whole files of the project added as the
user's snippets. -/
def gather (p : Project) (bundle : Option String) (files : List String) :
    Traced (Except GatherFault Bundle) :=
  let start : Except GatherFault Bundle :=
    match bundle with
    | none => if files.isEmpty then .error .nothing else .ok {}
    | some path => (Bundle.ofFile p.disk path).mapError .bundle
  match start with
  | .error f => pure (.error f)
  | .ok b => do
    match ← Bundle.ofFiles p.workspace files with
    | .error f => pure (.error (.file f))
    | .ok snippets => pure (.ok { b with snippets := b.snippets ++ snippets })

end Project

end ImportScout
