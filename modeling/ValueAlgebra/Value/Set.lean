import ValueAlgebra.Value.Access

/-!
# Sets of values outside of a value

A `ValueSet` has elements of one type, without marks. It can be taken from the value of a set and
turned into one.
-/

namespace ValueAlgebra

/-- A set of values of one type. -/
abbrev ValueSet := RuleSet ValueRules Value

namespace ValueSet

variable [Host]

/-- The set of a type without elements. -/
def ofType (e : Ty) : ValueSet :=
  RuleSet.empty ⟨e⟩

/-- Adds an element without marks, of the type of the set, and tells whether it is new. -/
def add (s : ValueSet) (v : Value) : Except Fault (Bool × ValueSet) :=
  let e := s.rules.element
  let element := Value.conformTo e v
  if v.containsMarked then .error .markedElement
  else if element.ty ≠ e then .error (.wrongElementType element.ty e)
  else .ok (!s.has element, s.insert element)

/-- The value of the set. -/
def toValue (s : ValueSet) : Value :=
  .ofRuleSet s

/-- A combination of two sets of one type. -/
def combine (f : ValueSet → ValueSet → ValueSet) (a b : ValueSet) : Except Fault ValueSet :=
  match RuleSet.combine f a b with
  | some c => .ok c
  | none => .error .differentRules

/-- The elements between braces. -/
def describe (s : ValueSet) : Except Fault String :=
  (Value.describeAll s.values).map Ty.braced

end ValueSet

/-- The elements of the value of a set. -/
def Value.asSet [Host] (v : Value) : Except Fault ValueSet :=
  v.reading "as_value_set" fun
    | .set e items => some (.ofList ⟨e⟩ items)
    | _ => none

end ValueAlgebra
