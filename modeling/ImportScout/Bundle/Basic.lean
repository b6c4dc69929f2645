import ImportScout.Snippet
import ImportScout.Rank.Score
/-! # Bundles

A bundle is a prompt and the snippets that were collected for it. Snippets can also be made from
whole files: from those that the user names, and from those that were suggested.
-/

namespace ImportScout

/-- A prompt and the snippets collected for it. -/
structure Bundle where
  prompt : String := ""
  snippets : List Snippet := []
  deriving DecidableEq, Repr

namespace Bundle

/-- Why a file that the user names cannot become a snippet. -/
inductive FileFault where
  /-- It lies outside the workspace. -/
  | outside (file : String)
  /-- The workspace does not give its text. -/
  | unread (f : Fault)
  deriving DecidableEq, Repr

/-- The wording of a fault. -/
def FileFault.message : FileFault → String
  | .outside file => s!"{file} is outside the workspace"
  | .unread f => f.message

/-- Whole files as the user's snippets, in order, up to the first fault. -/
def ofFiles (w : Workspace) : List String → Traced (Except FileFault (List Snippet))
  | [] => pure (.ok [])
  | file :: files =>
    match Path.relativeTo? w.root file with
    | none => pure (.error (.outside file))
    | some path => do
      match ← w.open? path with
      | .error f => pure (.error (.unread f))
      | .ok text =>
        let rest ← ofFiles w files
        pure (rest.map (Snippet.fullFile path text .user :: ·))

/-- The whole file that a suggested path refers to, if it can still be found and read. -/
def loadOne (w : Workspace) (extensions : List String) (path : String) :
    Traced (Option Snippet) := do
  match ← Probe.fileFor w extensions path with
  | .error _ | .ok none => pure none
  | .ok (some file) =>
    match ← w.open? file with
    | .error _ => pure none
    | .ok text => pure (some (Snippet.fullFile file text .suggestion))

/-- The suggested files in full; those that cannot be found or read are left out. -/
def load (w : Workspace) (extensions : List String) : List String → Traced (List Snippet)
  | [] => pure []
  | path :: paths => do
    let found ← loadOne w extensions path
    let rest ← load w extensions paths
    pure (found.toList ++ rest)

end Bundle

end ImportScout
