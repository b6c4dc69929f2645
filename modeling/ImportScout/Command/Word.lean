import ImportScout.Command.Basic
/-! # Words of a script

A script is cut into words and marks. Within a word characters may be quoted, which takes away
their special meaning, and parameters may stand for texts that are known only when the script
runs. A word becomes fields: the texts of parameters outside of quotes are cut at blanks.
-/

namespace ImportScout.Command

open Text

/-- A piece of a word. -/
inductive WordPiece where
  /-- A character. -/
  | char (quoted : Bool) (c : Char)
  /-- The text of a parameter. -/
  | param (quoted : Bool) (name : List Char)
  /-- Quotes, which make a word even if nothing stands in them. -/
  | quotes
  deriving DecidableEq, Repr

/-- A word. -/
abbrev Word := List WordPiece

/-- What a script consists of. -/
inductive Mark where
  /-- A word. -/
  | word (w : Word)
  /-- The end of a line. -/
  | newline
  /-- The end of a command within a line. -/
  | semicolon
  /-- What follows runs only if what comes before succeeds. -/
  | andThen
  /-- What follows runs only if what comes before fails. -/
  | orElse
  /-- The output of what comes before goes to what follows. -/
  | pipe
  /-- A stream goes to a file, named by the next word. -/
  | toFile (stream : Nat)
  /-- A stream goes where another one goes. -/
  | toStream (stream target : Nat)
  /-- Input comes from a file, named by the next word. -/
  | fromFile
  /-- A character that has a meaning which is not known here. -/
  | unknown (c : Char)
  deriving DecidableEq, Repr

/-- A mark and the line that it stands on. -/
abbrev LineMark := Nat × Mark

/-! ## Cutting -/

/-- Whether `c` may stand in the name of a variable. -/
def isNameChar (c : Char) : Bool :=
  isDigit c || ('a' ≤ c && c ≤ 'z') || ('A' ≤ c && c ≤ 'Z') || c == '_'

/-- The parameter after a dollar sign, and how many characters it takes. -/
def paramAt (cs : List Char) : Option (List Char × Nat) :=
  match cs with
  | [] => none
  | '\x7b' :: cs =>
    let name := cs.takeWhile (· ≠ '\x7d')
    if name.length < cs.length then some (name, name.length + 2) else none
  | c :: _ =>
    if isDigit c || ['@', '*', '#', '?', '$', '!', '-'].contains c then some ([c], 1)
    else
      match cs.takeWhile isNameChar with
      | [] => none
      | name => some (name, name.length)

/-- Where in a script a character stands. -/
inductive Quoting where
  | plain
  | single
  | double
  | comment
  deriving DecidableEq

/-- The mark of the word so far, if there is one. -/
def wordMark (line : Nat) (word : Option Word) : List LineMark :=
  word.toList.map fun w => (line, .word w.reverse)

/-- The stream that a word before an arrow names, by a single digit; one without digits is no part
of the arrow. -/
def streamOf (word : Option Word) : Option Nat :=
  match word with
  | some [.char false c] => if isDigit c then some (digitValue c) else none
  | _ => none

/-- The mark of an arrow to the right, and how many characters it takes after the first. -/
def arrow (stream : Nat) (cs : List Char) : Mark × Nat :=
  match cs with
  | '&' :: c :: _ => if isDigit c then (.toStream stream (digitValue c), 2) else (.toFile stream, 0)
  | '>' :: _ | '|' :: _ => (.toFile stream, 1)
  | _ => (.toFile stream, 0)

/-- The marks of a script, with their lines, or the line on which it ends within quotes. The word
so far is kept in `word`, its last piece first. -/
def marks (line : Nat) (quoting : Quoting) (word : Option Word) (cs : List Char) :
    Except Nat (List LineMark) :=
  let add (piece : WordPiece) : Option Word := some (piece :: word.getD [])
  match cs with
  | [] =>
    match quoting with
    | .plain | .comment => .ok (wordMark line word)
    | _ => .error line
  | c :: cs =>
    match quoting with
    | .comment =>
      if c = '\n' then (marks (line + 1) .plain none cs).map ((line, .newline) :: ·)
      else marks line .comment none cs
    | .single =>
      if c = '\'' then marks line .plain word cs
      else marks (if c = '\n' then line + 1 else line) .single (add (.char true c)) cs
    | .double =>
      match c, cs with
      | '"', cs => marks line .plain word cs
      | '\\', '\n' :: cs => marks (line + 1) .double word cs
      | '\\', d :: cs =>
        if ['$', '`', '"', '\\'].contains d then marks line .double (add (.char true d)) cs
        else marks line .double (add (.char true '\\')) (d :: cs)
      | '$', cs =>
        match paramAt cs with
        | some (name, length) =>
          marks line .double (add (.param true name)) (cs.drop length)
        | none => marks line .double (add (.char true '$')) cs
      | c, cs => marks (if c = '\n' then line + 1 else line) .double (add (.char true c)) cs
    | .plain =>
      let ended := wordMark line word
      match c, cs with
      | '\'', cs => marks line .single (add .quotes) cs
      | '"', cs => marks line .double (add .quotes) cs
      | '\\', '\n' :: cs => marks (line + 1) .plain word cs
      | '\\', d :: cs => marks line .plain (add (.char true d)) cs
      | '$', cs =>
        match paramAt cs with
        | some (name, length) =>
          marks line .plain (add (.param false name)) (cs.drop length)
        | none => marks line .plain (add (.char false '$')) cs
      | '\n', cs => (marks (line + 1) .plain none cs).map (ended ++ (line, .newline) :: ·)
      | ';', cs => (marks line .plain none cs).map (ended ++ (line, .semicolon) :: ·)
      | '&', '&' :: cs => (marks line .plain none cs).map (ended ++ (line, .andThen) :: ·)
      | '|', '|' :: cs => (marks line .plain none cs).map (ended ++ (line, .orElse) :: ·)
      | '|', cs => (marks line .plain none cs).map (ended ++ (line, .pipe) :: ·)
      | '>', cs =>
        let (mark, length) := arrow ((streamOf word).getD 1) cs
        let ended := if (streamOf word).isSome then [] else ended
        (marks line .plain none (cs.drop length)).map (ended ++ (line, mark) :: ·)
      | '<', cs => (marks line .plain none cs).map (ended ++ (line, .fromFile) :: ·)
      | c, cs =>
        if c = ' ' || c = '\t' then (marks line .plain none cs).map (ended ++ ·)
        else if ['&', '(', ')', '`'].contains c then
          (marks line .plain none cs).map (ended ++ (line, .unknown c) :: ·)
        else if c = '#' && word.isNone then marks line .comment none cs
        else marks line .plain (add (.char false c)) cs
  termination_by cs.length
  decreasing_by all_goals simp only [List.length_drop, List.length_cons]; omega

/-! ## Fields -/

/-- The texts of parameters: what was given to the script, the first being its name, the variables
that it has set, and the status of its last command. -/
structure Environment where
  given : List String
  assigned : List (String × String) := []
  status : Nat := 0

/-- The texts of a parameter. Only the list of all that was given has several. -/
def Environment.texts (e : Environment) (name : List Char) : List String :=
  match name with
  | ['@'] | ['*'] => e.given.drop 1
  | ['#'] => [String.ofList (decimal (e.given.length - 1))]
  | ['?'] => [String.ofList (decimal e.status)]
  | _ =>
    if name.all isDigit then (e.given[decimalValue name]?).toList
    else (e.assigned.lookup (String.ofList name)).toList

/-- Whether `c` separates fields. -/
def separatesFields (c : Char) : Bool :=
  c == ' ' || c == '\t' || c == '\n'

/-- The fields of a text that is cut at blanks, with what comes before it in the same word; the
field that is still open is kept beside those that are finished. -/
def cutFields (finished : List (List Char)) (field : Option (List Char)) :
    List Char → List (List Char) × Option (List Char)
  | [] => (finished, field)
  | c :: cs =>
    if separatesFields c then cutFields (finished ++ field.toList) none cs
    else cutFields finished (some (field.getD [] ++ [c])) cs

/-- The fields that a word becomes. -/
def Word.fields (e : Environment) (w : Word) : List String :=
  let (finished, field) := w.foldl (fun (finished, field) piece =>
    match piece with
    | .char _ c => (finished, some (field.getD [] ++ [c]))
    | .quotes => (finished, some (field.getD []))
    | .param true name =>
      match (e.texts name).map String.toList with
      | [] => (finished, if name = ['@'] && field = some [] then none else field)
      | [text] => (finished, some (field.getD [] ++ text))
      | text :: others =>
        if name = ['@'] then
          (finished ++ [field.getD [] ++ text] ++ others.dropLast, others.getLast?)
        else
          (finished, some (field.getD [] ++ joinWith [' '] (text :: others)))
    | .param false name =>
      cutFields finished field (joinWith [' '] ((e.texts name).map String.toList)))
    (([] : List (List Char)), (none : Option (List Char)))
  (finished ++ field.toList).map String.ofList

/-- A word as one text, not cut into fields. -/
def Word.text (e : Environment) (w : Word) : String :=
  String.ofList (w.flatMap fun piece =>
    match piece with
    | .char _ c => [c]
    | .quotes => []
    | .param _ name => joinWith [' '] ((e.texts name).map String.toList))

/-- The variable that a word sets, and the word it is set to: a name without quotes stands before
an equals sign. -/
def Word.assignment? (w : Word) : Option (String × Word) :=
  let isPlain (piece : WordPiece) : Bool :=
    match piece with
    | .char false c => isNameChar c
    | _ => false
  match w.takeWhile isPlain, w.dropWhile isPlain with
  | .char _ c :: name, .char false '=' :: value =>
    if isDigit c then none
    else some (Word.text ⟨[], [], 0⟩ (.char false c :: name), value)
  | _, _ => none

end ImportScout.Command
