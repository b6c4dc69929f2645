import ImportScout.Command.Escape
/-! # Printing commands

`echo` puts out its arguments with blanks between them, `printf` its arguments in the form that a
format describes. Both exist twice: as programs and as words of the shell, with small differences
that a `Printing` value tells.
-/

namespace ImportScout.Command

open Text

/-- How `echo` and `printf` behave. -/
structure Printing where
  /-- Whether `echo` reads escapes only when it is told to. -/
  echoIsPlain : Bool
  /-- The escapes of `echo`. -/
  inEcho : Escapes
  /-- The escapes of a format. -/
  inFormat : Escapes
  /-- The escapes of an argument that may have some. -/
  inArgument : Escapes
  /-- How complaints of `printf` start. -/
  start : String
  /-- What is said if there is no format, and the status. -/
  noFormat : String × Nat
  /-- What is said of an argument that should be a number. -/
  noNumber : String → String

namespace Printing

/-- The programs `echo` and `printf`. -/
def programs : Printing :=
  let letters := ('e', 27) :: Escapes.commonLetters
  { echoIsPlain := true
    inEcho := { letters, zeroOctal := true, hex := true, stops := true }
    inFormat := {
      letters := ('"', 0x22) :: letters, hex := true, needsHex := true, stops := true,
      takesNext := true }
    inArgument := {
      letters := ('"', 0x22) :: letters, zeroOctal := true, hex := true, stops := true }
    start := "printf: "
    noFormat := ("missing operand\nTry 'printf --help' for more information.", 1)
    noNumber := fun arg => "'" ++ arg ++ "': expected a numeric value" }

/-- The words `echo` and `printf` of the shell called `shell`. -/
def words (shell : String) (line : Nat) : Printing :=
  let letters := Escapes.commonLetters
  { echoIsPlain := false
    inEcho := { letters, zeroOctal := true, stops := true }
    inFormat := { letters }
    inArgument := { letters, zeroOctal := true, stops := true }
    start := shell ++ ": " ++ String.ofList (decimal line) ++ ": printf: "
    noFormat := ("usage: printf format [arg ...]", 2)
    noNumber := fun arg => arg ++ ": expected numeric value" }

/-! ## Echo -/

/-- The options of `echo` at the start of its arguments: whether the line is ended, whether escapes
are read, and the other arguments. -/
def options (plain : Bool) (ends escapes : Bool) : List String → Bool × Bool × List String
  | [] => (ends, escapes, [])
  | arg :: args =>
    match plain, arg.toList with
    | true, '-' :: c :: cs =>
      if (c :: cs).all (['n', 'e', 'E'].contains ·) then
        let escapes := ((c :: cs).reverse.find? (· ≠ 'n')).elim escapes (· = 'e')
        options plain (ends && !(c :: cs).contains 'n') escapes args
      else (ends, escapes, arg :: args)
    | false, ['-', 'n'] => (false, escapes, args)
    | _, _ => (ends, escapes, arg :: args)

/-- The arguments with blanks between them, with the escapes in them read, and whether one of these
ends all output. -/
def spaced (read : List Char → Bytes × Bool) : List String → Bytes × Bool
  | [] => ([], false)
  | [arg] => read arg.toList
  | arg :: args =>
    match read arg.toList with
    | (out, true) => (out, true)
    | (out, false) =>
      let (rest, stopped) := spaced read args
      (out ++ 0x20 :: rest, stopped)

/-- The command `echo`. -/
def echo (p : Printing) (args : List String) : Output :=
  let (ends, escapes, args) := options p.echoIsPlain true (!p.echoIsPlain) args
  let read := if escapes then p.inEcho.read else fun cs => (bytes cs, false)
  let (out, stopped) := spaced read args
  { out := if ends && !stopped then out ++ [0x0A] else out }

/-! ## Formats -/

/-- A part of a format. -/
inductive Piece where
  /-- Bytes that are put out as they are. -/
  | text (out : Bytes)
  /-- The end of all output. -/
  | stop
  /-- An argument: whether it stands to the left of its field, whether the field is filled with
  zeros, how wide the field is, how much of the argument is shown, and what it is shown as. -/
  | field (left zeros : Bool) (width : Nat) (precision : Option Nat) (kind : Char)

/-- A field after its percent sign, and what follows it. -/
def fieldOf (cs : List Char) : Option (Piece × List Char) :=
  let flags := cs.takeWhile (['-', '0', '+', ' ', '#'].contains ·)
  let cs := cs.dropWhile (['-', '0', '+', ' ', '#'].contains ·)
  let width := cs.takeWhile isDigit
  let cs := cs.dropWhile isDigit
  let (precision, cs) :=
    match cs with
    | '.' :: cs => (some (decimalValue (cs.takeWhile isDigit)), cs.dropWhile isDigit)
    | cs => (none, cs)
  match cs with
  | kind :: rest =>
    if ['s', 'b', 'c', 'd', 'i', 'u'].contains kind then
      some (.field (flags.contains '-') (flags.contains '0') (decimalValue width) precision kind,
        rest)
    else none
  | [] => none

/-- The pieces of a format, of which there are not more than `most`, or what is wrong with it. -/
def pieces (e : Escapes) : (most : Nat) → List Char → Except String (List Piece)
  | 0, _ | _, [] => .ok []
  | most + 1, '\\' :: cs =>
    match e.meaning cs with
    | .stop => .ok [.stop]
    | .broken => .error "missing hexadecimal number in escape"
    | .byte b length => (pieces e most (cs.drop length)).map (.text [b] :: ·)
    | .none =>
      let next := if e.takesNext then cs.take 1 else []
      (pieces e most (cs.drop next.length)).map (.text (0x5C :: bytes next) :: ·)
  | most + 1, '%' :: '%' :: cs => (pieces e most cs).map (.text [0x25] :: ·)
  | most + 1, '%' :: cs =>
    match fieldOf cs with
    | some (piece, rest) => (pieces e most rest).map (piece :: ·)
    | none => .error ("%" ++ String.ofList (cs.take 1) ++ ": invalid conversion specification")
  | most + 1, c :: cs => (pieces e most cs).map (.text (bytes [c]) :: ·)

/-- A number as it is written in an argument, if it is one. A missing one is zero. -/
def numberOf (arg : List Char) : Option Int :=
  let (negative, digits) :=
    match arg with
    | '-' :: cs => (true, cs)
    | '+' :: cs => (false, cs)
    | cs => (false, cs)
  if arg.isEmpty then some 0
  else if digits.isEmpty || !digits.all isDigit then none
  else some (if negative then -decimalValue digits else decimalValue digits)

/-- The bytes of an argument shown as `kind`, whether they end all output, and whether the argument
could be shown so. -/
def shown (p : Printing) (kind : Char) (precision : Option Nat) (arg : String) :
    Bytes × Bool × Bool :=
  let cut (out : Bytes) := precision.elim out out.take
  match kind with
  | 's' => (cut (bytesOf arg), false, true)
  | 'c' => ([(bytesOf arg).head?.getD 0], false, true)
  | 'b' =>
    let (out, stopped) := p.inArgument.read arg.toList
    (cut out, stopped, true)
  | _ =>
    let n := (numberOf arg.toList).getD 0
    let digits := padLeft '0' (precision.getD 0) (decimal n.natAbs)
    (bytes (if n < 0 then '-' :: digits else digits), false, (numberOf arg.toList).isSome)

/-- `out` in a field. -/
def inField (left zeros : Bool) (width : Nat) (out : Bytes) : Bytes :=
  let missing := width - out.length
  if left then out ++ List.replicate missing 0x20
  else if zeros then
    match out with
    | 0x2D :: digits => 0x2D :: (List.replicate missing 0x30 ++ digits)
    | _ => List.replicate missing 0x30 ++ out
  else List.replicate missing 0x20 ++ out

/-- What is put out by one reading of a format, with its arguments used up one by one. -/
structure Progress where
  out : Bytes := []
  rest : List String
  stopped : Bool := false
  complaints : List String := []

/-- What is put out after one more piece. -/
def Progress.after (p : Printing) (s : Progress) (piece : Piece) : Progress :=
  if s.stopped then s
  else
    match piece with
    | .text out => { s with out := s.out ++ out }
    | .stop => { s with stopped := true }
    | .field left zeros width precision kind =>
      let arg := s.rest.head?.getD ""
      let (out, stopped, ok) := shown p kind precision arg
      let zeros := zeros && ['d', 'i', 'u'].contains kind
      { s with
        out := s.out ++ inField left zeros width out
        rest := s.rest.drop 1, stopped
        complaints := s.complaints ++ if ok then [] else [p.noNumber arg] }

/-- Read a format again and again while there are arguments that it uses, at most `most` times. -/
def rounds (p : Printing) (format : List Piece) : (most : Nat) → Progress → Progress
  | 0, s => s
  | most + 1, s =>
    let next := format.foldl (Progress.after p) s
    if next.stopped || next.rest.isEmpty || next.rest.length = s.rest.length then next
    else rounds p format most next

/-- The complaints of `printf`, a line each. -/
def complain (p : Printing) (messages : List String) : Bytes :=
  messages.flatMap fun message => bytesOf (p.start ++ message) ++ [0x0A]

/-- The command `printf`. -/
def printf (p : Printing) (args : List String) : Output :=
  match if args.head? = some "--" then args.drop 1 else args with
  | [] => { err := p.complain [p.noFormat.1], status := p.noFormat.2 }
  | format :: args =>
    match pieces p.inFormat (format.length + 1) format.toList with
    | .error message => { err := p.complain [message], status := 1 }
    | .ok pieces =>
      let s := rounds p pieces (args.length + 1) { rest := args }
      let fails := !s.stopped && !s.complaints.isEmpty
      { out := s.out, err := p.complain s.complaints, status := if fails then 1 else 0 }

end Printing

end ImportScout.Command
