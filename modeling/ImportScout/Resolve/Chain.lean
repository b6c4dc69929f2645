import ImportScout.Resolve.Strategy
/-! # Chains of strategies

Strategies are tried in order until one finds a file outside of third-party code. The answer is
the path of that file without its extension. Failing to resolve is no error.
-/

namespace ImportScout

/-- Strategies in the order in which they are tried. -/
abbrev Chain := List Strategy

namespace Chain

/-- Probing only. -/
def manual (options : ProbeOptions) : Chain :=
  [.manual options]

/-- A provider first, probing second. -/
def standard (provider : Provider) (options : ProbeOptions) : Chain :=
  [.definition provider, .manual options]

/-- What a strategy's answer is worth: the path without its extension, unless it lies in
third-party code. -/
def accept (found : Option String) : Option String :=
  match found with
  | none => none
  | some path =>
    let path := Path.slashed path
    if Path.isVendored path then none else some (Path.dropExtension path)

/-- The file that an import refers to, without its extension. -/
def resolve (w : Workspace) (req : Request) : Chain → Traced (Option String)
  | [] => pure none
  | s :: chain => do
    match accept (← s.resolve w req) with
    | some path => pure (some path)
    | none => resolve w req chain

end Chain

end ImportScout
