import ImportScout.Rank.Frequency
import ImportScout.Rank.Hub
/-! # Scores

Files that enough snippets import survive. The most frequent survivors form the shortlist, and
only for them the imports of the file itself are counted, as this is the step that reads files.
The score of a survivor weighs its frequency ten times as much as its own imports; the best scores
are suggested, ties in the order in which the files were first seen.
-/

namespace ImportScout

/-- How many imports of its own outweigh one more snippet that imports a file. -/
def frequencyWeight : Nat := 10

/-- A suggested file and why. -/
structure Score where
  /-- The file, without its extension. -/
  path : String
  /-- How many snippets import it. -/
  frequency : Nat
  /-- How many project files it imports itself, if it was on the shortlist. -/
  hub : Nat
  deriving DecidableEq, Repr

/-- The weighted sum by which files are ranked. -/
def Score.composite (s : Score) : Nat :=
  s.frequency * frequencyWeight + s.hub

namespace Engine

/-- The files that enough snippets import. -/
def survivors (l : Limits) (tally : List (String × Nat)) : List (String × Nat) :=
  tally.filter fun entry => l.minFrequency ≤ entry.2

/-- The survivors whose own imports are counted: the most frequent ones, ties in order. -/
def shortlist (l : Limits) (alive : List (String × Nat)) : List String :=
  ((alive.mergeSort fun a b => b.2 ≤ a.2).take l.shortlistSize).map (·.1)

/-- The hub scores of the given files. -/
def hubScores (e : Engine) : List String → Traced (List (String × Nat))
  | [] => pure []
  | path :: paths => do
    let hub ← hubScore e.workspace e.extensions path
    let others ← hubScores e paths
    pure ((path, hub) :: others)

/-- The scores of the survivors, files without a hub score counting nothing for it. -/
def scored (alive hubs : List (String × Nat)) : List Score :=
  alive.map fun (path, frequency) => ⟨path, frequency, (hubs.lookup path).getD 0⟩

/-- Scores from the best to the worst, ties in order. -/
def ranked (scores : List Score) : List Score :=
  scores.mergeSort fun a b => b.composite ≤ a.composite

/-- The scores of the suggested files, the best first. -/
def score (e : Engine) (snippets : List Snippet) : Traced (List Score) := do
  let tally ← e.frequencies snippets
  let alive := survivors e.limits tally
  let hubs ← e.hubScores (shortlist e.limits alive)
  pure ((ranked (scored alive hubs)).take e.limits.maxSuggestions)

/-- The suggested files, the best first. -/
def rank (e : Engine) (snippets : List Snippet) : Traced (List String) := do
  let scores ← e.score snippets
  pure (scores.map (·.path))

end Engine

end ImportScout
