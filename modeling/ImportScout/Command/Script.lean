import ImportScout.Command.Word
import ImportScout.Command.Print
/-! # Scripts

A script is a list of pipelines that run one after the other, some of them only if the one before
succeeds or fails. The commands are words of the shell: they print, succeed, fail, or end the
script. There are no files: what is sent to a file is lost, and nothing is read from one.
-/

namespace ImportScout.Command

open Text

/-! ## Structure -/

/-- When a pipeline runs. -/
inductive Condition where
  | always
  | afterSuccess
  | afterFailure
  deriving DecidableEq, Repr

/-- Commands of which each gets the output of the one before, and when they run. -/
structure Pipeline where
  condition : Condition
  commands : List (List LineMark)

/-- Why a text is no script. -/
inductive ScriptFault where
  /-- The text ends within quotes, on this line. -/
  | openQuotes (line : Nat)
  /-- On this line something stands where a command should. -/
  | unexpected (line : Nat) (what : String)

/-- The line of a fault. -/
def ScriptFault.line : ScriptFault → Nat
  | .openQuotes line | .unexpected line _ => line

/-- The wording of a fault. -/
def ScriptFault.message : ScriptFault → String
  | .openQuotes _ => "Syntax error: Unterminated quoted string"
  | .unexpected _ what => "Syntax error: " ++ what ++ " unexpected"

/-- How a mark is called in a complaint. -/
def Mark.name : Mark → String
  | .newline => "newline"
  | .semicolon => "\";\""
  | .andThen => "\"&&\""
  | .orElse => "\"||\""
  | .pipe => "\"|\""
  | .unknown c => "\"" ++ String.ofList [c] ++ "\""
  | .word _ | .toFile _ | .toStream _ _ | .fromFile => "word"

/-- The pipelines of a script, which ends on `lastLine`. The commands of the current pipeline are in
`commands`, the marks of its last command in `current`. An operator needs a command on both
sides. -/
def pipelines (lastLine : Nat) (condition : Condition) (commands : List (List LineMark))
    (current : List LineMark) : List LineMark → Except ScriptFault (List Pipeline)
  | [] =>
    if !current.isEmpty then .ok [⟨condition, commands ++ [current]⟩]
    else if commands.isEmpty && condition = .always then .ok []
    else .error (.unexpected lastLine "end of file")
  | (line, mark) :: marks =>
    let next (c : Condition) : Except ScriptFault (List Pipeline) :=
      if current.isEmpty then .error (.unexpected line mark.name)
      else (pipelines lastLine c [] [] marks).map (⟨condition, commands ++ [current]⟩ :: ·)
    match mark with
    | .newline =>
      if current.isEmpty then pipelines lastLine condition commands [] marks else next .always
    | .semicolon => next .always
    | .andThen => next .afterSuccess
    | .orElse => next .afterFailure
    | .pipe =>
      if current.isEmpty then .error (.unexpected line mark.name)
      else pipelines lastLine condition (commands ++ [current]) [] marks
    | .unknown _ => .error (.unexpected line mark.name)
    | mark => pipelines lastLine condition commands (current ++ [(line, mark)]) marks

/-! ## Streams -/

/-- Where a stream goes. -/
inductive Outlet where
  | out
  | err
  | nowhere
  deriving DecidableEq, Repr

/-- Where the two streams of a command go. -/
structure Outlets where
  out : Outlet := .out
  err : Outlet := .err

/-- The outlets after one more mark. Streams other than the first two are not used. -/
def Outlets.after (o : Outlets) : Mark → Outlets
  | .toFile 1 => { o with out := .nowhere }
  | .toFile 2 => { o with err := .nowhere }
  | .toStream 1 2 => { o with out := o.err }
  | .toStream 2 1 => { o with err := o.out }
  | _ => o

/-- What a command gives back when its streams go elsewhere. -/
def Outlets.route (o : Outlets) (r : Output) : Output :=
  let part (outlet : Outlet) : Bytes :=
    (if o.out = outlet then r.out else []) ++ if o.err = outlet then r.err else []
  { r with out := part .out, err := part .err }

/-- The words of a command, with their lines; those that name files do not count. -/
def commandWords : List LineMark → List (Nat × Word)
  | [] => []
  | (line, .word w) :: marks => (line, w) :: commandWords marks
  | (_, .toFile _) :: (_, .word _) :: marks | (_, .fromFile) :: (_, .word _) :: marks =>
    commandWords marks
  | _ :: marks => commandWords marks

/-! ## Running -/

/-- A script that runs: the texts of its parameters, what it has put out, and whether it has
ended. -/
structure Run where
  env : Environment
  out : Bytes := []
  err : Bytes := []
  ended : Bool := false

/-- The name of the shell in its complaints, with a line. -/
def complaintStart (e : Environment) (line : Nat) : String :=
  e.given.head?.getD "sh" ++ ": " ++ String.ofList (decimal line) ++ ": "

/-- The status that a script ends with, from the arguments of `exit`. -/
def exitOutput (e : Environment) (line : Nat) : List String → Output
  | [] => { status := e.status }
  | arg :: _ =>
    if arg.toList.all isDigit && arg != "" then { status := decimalValue arg.toList % 256 }
    else .complaint (complaintStart e line ++ "exit: Illegal number: " ++ arg) 2

/-- What a command of the shell gives back, and whether it ends the script. -/
def call (e : Environment) (line : Nat) (name : String) (args : List String) : Output × Bool :=
  let printing := Printing.words (e.given.head?.getD "sh") line
  match name with
  | "echo" => (printing.echo args, false)
  | "printf" => (printing.printf args, false)
  | "true" | ":" => ({}, false)
  | "false" => ({ status := 1 }, false)
  | "exit" => (exitOutput e line args, true)
  | "" => (.complaint (complaintStart e line ++ ": Permission denied") 127, false)
  | _ => (.complaint (complaintStart e line ++ name ++ ": not found") 127, false)

/-- Take the assignments off the front of a command. -/
def assign (e : Environment) : List (Nat × Word) → Environment × List (Nat × Word)
  | [] => (e, [])
  | (line, w) :: words =>
    match w.assignment? with
    | none => (e, (line, w) :: words)
    | some (name, value) =>
      assign { e with assigned := (name, value.text e) :: e.assigned } words

/-- The script after one more command. -/
def Run.command (r : Run) (marks : List LineMark) : Run :=
  let words := commandWords marks
  let negated := words.head?.map (·.2) = some [.char false '!']
  let (env, words) := assign r.env (if negated then words.drop 1 else words)
  let line := (words.head?.map (·.1)).getD 1
  let (result, ends, env) :=
    match words.flatMap fun (_, w) => w.fields r.env with
    | [] => (({} : Output), false, env)
    | name :: args =>
      let (result, ends) := call env line name args
      (result, ends, r.env)
  let result := (marks.foldl (fun (o : Outlets) mark => o.after mark.2) {}).route result
  let status :=
    if negated && !ends then (if result.status = 0 then 1 else 0) else result.status
  { env := { env with status }
    out := r.out ++ result.out
    err := r.err ++ result.err
    ended := ends }

/-- What a pipeline of several commands puts out and its status, from the script before it: no
command changes the script, and only the last one's output is left. -/
def Run.piped (r : Run) : List (List LineMark) → Run
  | [] => r
  | [marks] => { r.command marks with ended := false }
  | marks :: others => Run.piped { r with err := (r.command marks).err } others

/-- The script after one more pipeline. -/
def Run.pipeline (r : Run) (p : Pipeline) : Run :=
  let runs : Bool :=
    match p.condition with
    | .always => true
    | .afterSuccess => r.env.status = 0
    | .afterFailure => r.env.status ≠ 0
  if r.ended || !runs then r
  else
    match p.commands with
    | [marks] => r.command marks
    | several =>
      let last := r.piped several
      { last with env := { r.env with status := last.env.status } }

/-- The pipelines of a text, if it is a script. -/
def readScript (script : String) : Except ScriptFault (List Pipeline) :=
  match marks 1 .plain none script.toList with
  | .error line => .error (.openQuotes line)
  | .ok marks => pipelines (script.toList.count '\n' + 1) .always [] [] marks

/-- Run a script that is given its name and arguments. -/
def runScript (script : String) (given : List String) : Output :=
  match readScript script with
  | .error f => .complaint (complaintStart ⟨given, [], 0⟩ f.line ++ f.message) 2
  | .ok pipelines =>
    let last := pipelines.foldl Run.pipeline { env := { given } }
    { out := last.out, err := last.err, status := last.env.status }

/-- The shell. Without a script it has nothing to do. -/
def shell : List String → Output
  | [] => {}
  | ["-c"] => .complaint "sh: 0: -c requires an argument" 2
  | ["-c", script] => runScript script ["sh"]
  | "-c" :: script :: given => runScript script given
  | file :: _ => .complaint ("sh: 0: cannot open " ++ file ++ ": No such file") 2

end ImportScout.Command
