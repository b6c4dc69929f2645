import ImportScout.Text.Split
import ImportScout.Text.Decimal
import ImportScout.Text.Utf8
/-! # Commands

A command is a program and its arguments. The arguments have places for the source file and for
the byte offset that the command is asked about. What a command gives back is two streams of bytes
and a status.
-/

namespace ImportScout

open Text

/-- A program and its arguments. -/
structure Command where
  program : String
  args : List String
  deriving DecidableEq, Repr

namespace Command

/-- The command with the given words, if there are any. -/
def ofList? : List String → Option Command
  | [] => none
  | program :: args => some ⟨program, args⟩

/-! ## Places -/

/-- What stands for the source file in an argument. -/
def filePlace : List Char := ['\x7b', 'f', 'i', 'l', 'e', '\x7d']

/-- What stands for the byte offset in an argument. -/
def offsetPlace : List Char := ['\x7b', 'o', 'f', 'f', 's', 'e', 't', '\x7d']

/-- An argument with its places filled: first those of the file, then those of the offset, which
the path of the file may have brought in. -/
def expandArg (file : String) (offset : Nat) (arg : String) : String :=
  String.ofList (replaceAll offsetPlace (decimal offset)
    (replaceAll filePlace file.toList arg.toList))

/-- A command with the places in its arguments filled. The program has no places. -/
def expand (c : Command) (file : String) (offset : Nat) : Command :=
  { c with args := c.args.map (expandArg file offset) }

/-! ## Results -/

/-- What a command gives back: what it has to say, what it complains of, and a status, which is
zero if all went well. -/
structure Output where
  out : Bytes := []
  err : Bytes := []
  status : Nat := 0
  deriving DecidableEq, Repr

/-- A complaint of one line, and the status that goes with it. -/
def Output.complaint (message : String) (status : Nat) : Output :=
  { err := bytesOf message ++ [0x0A], status }

end Command

end ImportScout
