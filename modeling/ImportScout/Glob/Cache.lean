import ImportScout.Glob.Parser
/-! # A cache of globs

Globs that have been read once are kept. A text that is no glob is not kept, and asking for it
again gives the same fault again.
-/

namespace ImportScout.Glob

/-- The style of searches in a workspace: stars stop at slashes and brackets must be closed. -/
def searchStyle : Style :=
  { separator := .stops }

/-- The globs that have been read, by their text. -/
structure Cache where
  entries : List (String × Glob) := []

namespace Cache

/-- How many globs are kept. -/
def size (c : Cache) : Nat :=
  c.entries.length

/-- Whether `pattern` describes `path`, and the cache afterwards. -/
def accepts (c : Cache) (pattern path : String) : Except Fault Bool × Cache :=
  match c.entries.lookup pattern with
  | some glob => (.ok (glob.accepts path), c)
  | none =>
    match parse searchStyle pattern with
    | .error fault => (.error fault, c)
    | .ok glob => (.ok (glob.accepts path), ⟨(pattern, glob) :: c.entries⟩)

end Cache

end ImportScout.Glob
