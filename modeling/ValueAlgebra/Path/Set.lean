import ValueAlgebra.Path.Apply
import ValueAlgebra.RuleSet

/-!
# Sets of paths

A path is in such a set once, whatever the marks of its keys.
-/

namespace ValueAlgebra

/-- The rules of sets of paths. -/
inductive PathRules where
  | steps

instance [Host] : Rules PathRules Path where
  hash _ := Path.hash
  equivalent _ := Path.equals
  same _ _ := true

/-- A set of paths. -/
abbrev PathSet := RuleSet PathRules Path

namespace PathSet

variable [Host]

/-- The set without paths. -/
def empty : PathSet :=
  RuleSet.empty .steps

/-- The set of some paths. -/
def of (paths : List Path) : PathSet :=
  RuleSet.ofList .steps paths

/-- Adds a path and all paths on the way to it, from the empty one on. -/
def insertAllSteps (s : PathSet) (path : Path) : PathSet :=
  (List.range (path.length + 1)).foldl
    (fun s n => RuleSet.insert s ⟨path.steps.take n⟩) s

end PathSet

end ValueAlgebra
