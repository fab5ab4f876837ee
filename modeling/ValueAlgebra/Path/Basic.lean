import ValueAlgebra.Value.Basic

/-!
# Paths

A path leads from a value to a part of it, step by step. The empty path leads to the value itself.
-/

namespace ValueAlgebra

/-- One step of a path. -/
inductive Step where
  /-- To an attribute of an object, or to the variant of a union. -/
  | attr (name : String)
  /-- To an element: of a list or tuple by a number, of a map by a string, and of a set by the
  element itself, which may be unknown. -/
  | index (key : Value)

/-- A sequence of steps from a value to a part of it. -/
structure Path where
  steps : List Step

namespace Path

/-- The path to the value itself. -/
def root : Path :=
  ⟨[]⟩

instance : Inhabited Path := ⟨root⟩

/-- The path with one more step. -/
def push (path : Path) (step : Step) : Path :=
  ⟨path.steps ++ [step]⟩

/-- The path to an attribute of what a path leads to. -/
def attr (path : Path) (name : String) : Path :=
  path.push (.attr name)

/-- The path to an element of what a path leads to. -/
def index (path : Path) (key : Value) : Path :=
  path.push (.index key)

/-- One path followed by another. -/
def append (a b : Path) : Path :=
  ⟨a.steps ++ b.steps⟩

instance : Append Path := ⟨append⟩

def length (path : Path) : Nat :=
  path.steps.length

/-- The path without its last step. -/
def dropLast (path : Path) : Path :=
  ⟨path.steps.dropLast⟩

end Path

end ValueAlgebra
