import ImportScout.Rank.Frequency
/-! # Configurations

What a project can set for itself: where it lies and what is left out of searches, how imports are
resolved, how many files are suggested, and what goes into an exported document. The defaults are
those of the library. A configuration has to keep some bounds; the first it breaks is reported.
-/

namespace ImportScout

/-- The settings of a project. -/
structure Config where
  /-- The root folder. -/
  root : String := "."
  /-- The globs of files that searches leave out. -/
  exclusions : List String := []
  /-- Whether searches follow links. -/
  followLinks : Bool := false
  /-- The bounds of ranking. -/
  limits : Limits := {}
  /-- How specifiers are turned into files. -/
  probing : ProbeOptions := .standard
  /-- The command that is asked for definitions; none if empty. -/
  definitionCommand : List String := []
  /-- Whether exported documents show the project tree. -/
  includeTree : Bool := false
  /-- The request that closes a document which asks for whole files. -/
  fullCodeRequest : String :=
    "When you suggest changes, reply with the full code of every file you modify."
  /-- How much is logged. -/
  logLevel : String := "warn"
  deriving DecidableEq, Repr

namespace Config

/-- The levels of logging, the most talkative first. -/
def logLevels : List String :=
  ["trace", "debug", "info", "warn", "error"]

/-- What is logged: at least `debug` if the user wants to see more. -/
def logFilter (configured : String) (verbose : Bool) : String :=
  if verbose && configured != "trace" then "debug" else configured

/-- Why there is no configuration. -/
inductive Fault where
  /-- The file at this path cannot be read as text. -/
  | unreadable (path : String)
  /-- The text is no TOML, or sets something to a value of the wrong kind. -/
  | malformed
  /-- This bound of ranking is zero. -/
  | zeroLimit (name : String)
  /-- This extension does not start with a dot. -/
  | noExtension (ext : String)
  /-- This is no level of logging. -/
  | unknownLevel (level : String)
  deriving DecidableEq, Repr

/-- The wording of a fault. -/
def Fault.message : Fault → String
  | .unreadable path => s!"Failed to read config file: {path}"
  | .malformed => "Failed to parse config file"
  | .zeroLimit name => s!"suggestions.{name} must be >= 1"
  | .noExtension ext =>
    s!"resolver.extensions entries must start with '.', got '{ext}'"
  | .unknownLevel level =>
    s!"Unknown log level: '{level}'. Must be one of " ++ ", ".intercalate logLevels ++ "."

/-! ## Bounds -/

/-- Whether a text is an extension, which starts with a dot. -/
def isExtension (ext : String) : Bool :=
  ext.toList.head? == some '.'

/-- The bounds that a configuration breaks, in the order in which they are looked at. -/
def faults (c : Config) : List Fault :=
  (if c.limits.maxSuggestions = 0 then [.zeroLimit "max_suggestions"] else []) ++
    (if c.limits.shortlistSize = 0 then [.zeroLimit "shortlist_size"] else []) ++
    (if c.limits.minFrequency = 0 then [.zeroLimit "min_frequency"] else []) ++
    (c.probing.extensions.filter fun ext => !isExtension ext).map .noExtension ++
    (if logLevels.contains c.logLevel then [] else [.unknownLevel c.logLevel])

/-- The configuration itself, if it keeps all bounds, and else the first fault. -/
def checked (c : Config) : Except Fault Config :=
  match c.faults with
  | [] => .ok c
  | f :: _ => .error f

/-- The defaults keep all bounds. -/
theorem faults_default : faults {} = [] := by
  decide +kernel

end Config

end ImportScout
