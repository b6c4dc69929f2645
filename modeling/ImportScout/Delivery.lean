/-! # Deliveries

Suggestions are handed to whoever asked for them. A collector keeps every delivery; of two
rankings that overlap, the one that delivers last wins.
-/

namespace ImportScout

/-- All deliveries so far, oldest first. -/
structure Collector where
  deliveries : List (List String) := []
  deriving DecidableEq, Repr

namespace Collector

/-- Take one more delivery. -/
def deliver (c : Collector) (suggestions : List String) : Collector :=
  ⟨c.deliveries ++ [suggestions]⟩

/-- The most recent delivery, if there is one. -/
def last? (c : Collector) : Option (List String) :=
  c.deliveries.getLast?

/-- The last to deliver wins. -/
@[simp] theorem last?_deliver (c : Collector) (suggestions : List String) :
    (c.deliver suggestions).last? = some suggestions := by
  simp [last?, deliver]

end Collector

end ImportScout
