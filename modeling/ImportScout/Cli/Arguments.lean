import ImportScout.Cli.Invocation
/-! # Command line arguments

Arguments are read from left to right. A switch is given by its name or its letter, an option by
its name and a value, in one argument with an equals sign or in two. The name of a task ends the
arguments in front and starts its own. Two dashes end the switches and options. The first argument
that is out of place ends the reading, and so do the switches for help and for the version.
-/

namespace ImportScout.Cli

open Text

/-- Why reading ends without an invocation. -/
inductive Stop where
  /-- Some argument is out of place, or one is missing. -/
  | misuse
  /-- The user asks for help. -/
  | help
  /-- The user asks for the version. -/
  | version
  deriving DecidableEq, Repr

/-- An option that takes a value. -/
structure OptionRule where
  name : String
  /-- Whether it may be given more than once. -/
  repeats : Bool := false
  /-- Which values it takes. -/
  accepts : String → Bool := fun _ => true

/-- An option whose value is a path, which is never empty. -/
def OptionRule.path (name : String) : OptionRule :=
  { name, accepts := (· != "") }

/-- What may stand among the arguments. -/
structure Grammar where
  /-- The switches. -/
  switches : List String
  /-- The options. -/
  options : List OptionRule
  /-- Whether a path may stand by itself. -/
  takesPath : Bool := false
  /-- Whether the version can be asked for. -/
  hasVersion : Bool := false
  /-- The tasks that may follow. -/
  tasks : List String := []

/-- What has been given so far. -/
structure Given where
  switches : List String := []
  values : List (String × String) := []
  path : Option String := none
  deriving DecidableEq, Repr

namespace Given

/-- Whether a switch is given. -/
def has (g : Given) (name : String) : Bool :=
  g.switches.contains name

/-- The values of an option, in order. -/
def valuesOf (g : Given) (name : String) : List String :=
  (g.values.filter (·.1 == name)).map (·.2)

/-- The value of an option. -/
def value? (g : Given) (name : String) : Option String :=
  (g.valuesOf name).head?

/-- Give a switch, which can be done once. -/
def addSwitch (g : Given) (name : String) : Except Stop Given :=
  if g.has name then .error .misuse else .ok { g with switches := g.switches ++ [name] }

/-- Give a value to an option. -/
def addValue (g : Given) (rule : OptionRule) (v : String) : Except Stop Given :=
  if (!rule.repeats && (g.value? rule.name).isSome) || !rule.accepts v then .error .misuse
  else .ok { g with values := g.values ++ [(rule.name, v)] }

/-- Give the path that stands by itself. -/
def addPath (g : Given) (grammar : Grammar) (path : String) : Except Stop Given :=
  if grammar.takesPath && g.path.isNone && path != "" then .ok { g with path := some path }
  else .error .misuse

end Given

/-! ## Reading -/

namespace Grammar

/-- The switch of a letter. -/
def letters : List (Char × String) :=
  [('v', "verbose"), ('h', "help"), ('V', "version")]

/-- Take a switch, unless it ends the reading. -/
def takeSwitch (grammar : Grammar) (g : Given) (name : String) : Except Stop Given :=
  if name = "help" then .error .help
  else if name = "version" && grammar.hasVersion then .error .version
  else if grammar.switches.contains name then g.addSwitch name
  else .error .misuse

/-- Take the switches of letters that are written together. -/
def takeLetters (grammar : Grammar) (g : Given) (cs : List Char) : Except Stop Given :=
  cs.foldlM (fun g c =>
    match letters.lookup c with
    | some name => grammar.takeSwitch g name
    | none => .error .misuse) g

/-- Whether an argument can be the value of the option before it: it does not look like a switch,
though a dash alone may stand for a file. -/
def isValue (arg : String) : Bool :=
  arg = "-" || arg.toList.head? != some '-'

/-- The name of an option and the value after its equals sign, if there is one. -/
def nameAndValue (cs : List Char) : String × Option String :=
  let name := cs.takeWhile (· ≠ '=')
  (String.ofList name,
    if name.length < cs.length then some (String.ofList (cs.drop (name.length + 1))) else none)

/-- Read arguments up to the name of a task, which is given back with the arguments after it. -/
def read (grammar : Grammar) (g : Given) :
    List String → Except Stop (Given × Option (String × List String))
  | [] => .ok (g, none)
  | arg :: args =>
    if grammar.tasks.contains arg then .ok (g, some (arg, args))
    else
      match arg.toList with
      | ['-', '-'] => do
        let g ← args.foldlM (fun g path => g.addPath grammar path) g
        .ok (g, none)
      | '-' :: '-' :: cs =>
        let (name, attached) := nameAndValue cs
        match grammar.options.find? (·.name == name), attached, args with
        | some rule, some v, args => do grammar.read (← g.addValue rule v) args
        | some rule, none, v :: args =>
          if isValue v then do grammar.read (← g.addValue rule v) args else .error .misuse
        | some _, none, [] => .error .misuse
        | none, none, args => do grammar.read (← grammar.takeSwitch g name) args
        | none, some _, _ => .error .misuse
      | '-' :: c :: cs => do grammar.read (← grammar.takeLetters g (c :: cs)) args
      | _ => do grammar.read (← g.addPath grammar arg) args

end Grammar

/-! ## Tasks -/

/-- The options that may stand with any task. -/
def sharedOptions : List OptionRule :=
  [.path "config", .path "root"]

/-- The names of the formats. -/
def formats : List (String × Bundle.Format) :=
  [("md", .md), ("txt", .txt)]

/-- The tasks and what may stand among their arguments. -/
def taskGrammars : List (String × Grammar) :=
  [("suggest",
    { switches := ["verbose", "json", "explain"]
      options := sharedOptions ++ [.path "snippets", { name := "file", repeats := true }] }),
  ("imports",
    { switches := ["verbose", "resolve", "json"]
      options := sharedOptions
      takesPath := true }),
  ("bundle",
    { switches := ["verbose", "with-suggestions", "tree", "request-full-code"]
      options := sharedOptions ++ [.path "snippets", .path "output",
        { name := "format", accepts := fun v => (formats.lookup v).isSome }] }),
  ("tree", { switches := ["verbose", "ascii"], options := sharedOptions })]

/-- The names of the tasks. -/
def taskNames : List String :=
  taskGrammars.map (·.1)

/-- What may stand in front of a task. -/
def frontGrammar : Grammar where
  switches := ["verbose"]
  options := sharedOptions
  hasVersion := true
  tasks := taskNames ++ ["help"]

/-- The task of the given name with what was given to it. What it needs must be there. -/
def actionOf? (name : String) (g : Given) : Option Action :=
  match name with
  | "suggest" =>
    some (.suggest (g.value? "snippets") (g.valuesOf "file") (g.has "json") (g.has "explain"))
  | "imports" => g.path.map fun file => .imports file (g.has "resolve") (g.has "json")
  | "bundle" =>
    (g.value? "snippets").map fun snippets => .document {
      snippets
      withSuggestions := g.has "with-suggestions"
      showTree := g.has "tree"
      requestFullCode := g.has "request-full-code"
      format := ((g.value? "format").bind fun v => formats.lookup v).getD .md
      output := g.value? "output" }
  | "tree" => some (.tree (if g.has "ascii" then .ascii else .unicode))
  | _ => none

/-- Help is asked for on nothing or on one task. -/
def helpOn : List String → Stop
  | [] => .help
  | [name] => if frontGrammar.tasks.contains name then .help else .misuse
  | _ => .misuse

/-- The invocation that arguments stand for. A shared setting may be given in front of the task
and after it; then the later one holds. -/
def Invocation.ofArgs (args : List String) : Except Stop Invocation := do
  match ← frontGrammar.read {} args with
  | (_, none) => .error .misuse
  | (front, some (name, args)) =>
    match taskGrammars.lookup name with
    | none => .error (helpOn args)
    | some grammar => do
      let (g, _) ← grammar.read {} args
      match actionOf? name g with
      | none => .error .misuse
      | some action =>
        .ok {
          config := g.value? "config" <|> front.value? "config"
          root := g.value? "root" <|> front.value? "root"
          verbose := front.has "verbose" || g.has "verbose"
          action }

end ImportScout.Cli
