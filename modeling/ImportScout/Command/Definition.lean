import ImportScout.Command.Script
import ImportScout.Resolve.Strategy
/-! # Definitions by command

A command can be asked where the import at a byte offset of a file is defined. Each line that it
puts out is a place; a command that fails knows none. The commands that can be asked are those
that print and the shell.
-/

namespace ImportScout.Command

open Text

/-- Why a command does not answer. -/
inductive Fault where
  /-- There is no such program. -/
  | unknown (program : String)
  /-- The command ended with this status and these complaints. -/
  | failed (status : Nat) (complaints : String)
  deriving DecidableEq, Repr

/-- The wording of a fault. -/
def Fault.message : Fault → String
  | .unknown program => s!"Failed to run definition command: {program}"
  | .failed status complaints =>
    s!"definition command exited with exit status: {status}: {complaints}"

/-- The folders that programs stand in. -/
def programFolders : List String := ["", "/bin/", "/usr/bin/"]

/-- What a program gives back. -/
def program? (name : String) : Option (List String → Output) :=
  match name with
  | "echo" => some Printing.programs.echo
  | "printf" => some Printing.programs.printf
  | "true" => some fun _ => {}
  | "false" => some fun _ => { status := 1 }
  | "sh" => some shell
  | _ => none

/-- Run a command. Texts with a null character in them cannot be handed to a program. -/
def run (c : Command) : Except Fault Output :=
  let texts := c.program :: c.args
  let found := programFolders.findSome? fun folder =>
    (dropStart? folder.toList c.program.toList).bind fun name => program? (String.ofList name)
  match found with
  | some program =>
    if texts.any fun text => text.toList.contains '\x00' then .error (.unknown c.program)
    else .ok (program c.args)
  | none => .error (.unknown c.program)

/-- The places that an output tells: its lines, without the blanks around them; empty lines tell
none. -/
def targets (out : Bytes) : List String :=
  ((lines (decodeLossy out)).map trim).filterMap fun line =>
    if line.isEmpty then none else some (String.ofList line)

/-- The places where the command says that what stands at `offset` in `file` is defined. -/
def definitions (c : Command) (file : String) (offset : Nat) :
    Except Fault (List String) :=
  match (c.expand file offset).run with
  | .error f => .error f
  | .ok output =>
    if output.status = 0 then .ok (targets output.out)
    else .error (.failed output.status (String.ofList (trim (decodeLossy output.err))))

/-- A command as a provider of definitions. -/
def toProvider (c : Command) : Provider :=
  .asking fun file offset =>
    match c.definitions file offset with
    | .ok targets => .ok targets
    | .error f => .error f.message

end ImportScout.Command
