import ImportScout.Config.Basic
import ImportScout.Toml.Record
import ImportScout.Disk.Locate
/-! # Configurations in TOML

A configuration is written in five sections, each of which may be missing, as may every key.
-/

namespace ImportScout.Config

open Toml

/-- The values of the fields of a section, which may be missing. -/
def section? (names : List String) : Option Toml → Option (List (Option Toml))
  | none => some (names.map fun _ => none)
  | some v => v.fields? names

/-- The configuration with the given workspace section. -/
def withWorkspace (c : Config) (v : Option Toml) : Option Config := do
  match ← section? ["root", "exclude_globs", "follow_symlinks"] v with
  | [root, exclusions, followLinks] =>
    some { c with
      root := ← withDefault c.root text? root
      exclusions := ← withDefault c.exclusions texts? exclusions
      followLinks := ← withDefault c.followLinks bool? followLinks }
  | _ => none

/-- The configuration with the given section on suggestions. -/
def withSuggestions (c : Config) (v : Option Toml) : Option Config := do
  match ← section? ["max_suggestions", "shortlist_size", "min_frequency"] v with
  | [maxSuggestions, shortlistSize, minFrequency] =>
    let l := c.limits
    some { c with
      limits := {
        maxSuggestions := ← withDefault l.maxSuggestions natural? maxSuggestions
        shortlistSize := ← withDefault l.shortlistSize natural? shortlistSize
        minFrequency := ← withDefault l.minFrequency natural? minFrequency } }
  | _ => none

/-- The configuration with the given section on resolving. -/
def withResolver (c : Config) (v : Option Toml) : Option Config := do
  match ← section? ["extensions", "alias_roots", "definition_command"] v with
  | [extensions, aliasRoots, command] =>
    let p := c.probing
    some { c with
      probing := {
        extensions := ← withDefault p.extensions texts? extensions
        aliasRoots := ← withDefault p.aliasRoots texts? aliasRoots }
      definitionCommand := ← withDefault c.definitionCommand texts? command }
  | _ => none

/-- The configuration with the given section on exported documents. -/
def withExport (c : Config) (v : Option Toml) : Option Config := do
  match ← section? ["include_tree", "request_full_code_prompt"] v with
  | [includeTree, request] =>
    some { c with
      includeTree := ← withDefault c.includeTree bool? includeTree
      fullCodeRequest := ← withDefault c.fullCodeRequest text? request }
  | _ => none

/-- The configuration with the given section on logging. -/
def withLog (c : Config) (v : Option Toml) : Option Config := do
  match ← section? ["level"] v with
  | [level] => some { c with logLevel := ← withDefault c.logLevel text? level }
  | _ => none

/-- The configuration that a document describes. -/
def ofToml? (v : Toml) : Option Config := do
  match ← v.fields? ["workspace", "suggestions", "resolver", "export", "log"] with
  | [workspace, suggestions, resolver, document, log] =>
    let c ← withWorkspace {} workspace
    let c ← c.withSuggestions suggestions
    let c ← c.withResolver resolver
    let c ← c.withExport document
    c.withLog log
  | _ => none

/-- The configuration that a text describes. -/
def parse (text : String) : Except Fault Config :=
  match (document? text).bind ofToml? with
  | none => .error .malformed
  | some c => c.checked

/-! ## Files -/

/-- Where a configuration is looked for if the user names none. -/
def defaultPath : String := "./config/ctxb.toml"

/-- The configuration in the file that a path leads to. -/
def ofFile (d : Disk) (path : String) : Except Fault Config :=
  match d.read? path with
  | none => .error (.unreadable path)
  | some text => parse text

/-- The configuration in the named file, or else in the default file if it is there. A named file
must be there. -/
def load (d : Disk) (named : Option String) : Except Fault Config :=
  match named with
  | some path => ofFile d path
  | none => if d.pathExists defaultPath then ofFile d defaultPath else .ok {}

end ImportScout.Config
