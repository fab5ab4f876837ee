import ValueAlgebra.Text.Cluster
import ValueAlgebra.Text.Normalize
import ValueAlgebra.Value.Range

/-!
# Refining values

A `Refining` collects what is said about a value. On an unknown value each restriction narrows what
it may become: a restriction that says less than what is known is ignored, and one that contradicts
it is a fault. On a known value each restriction is an assertion. Nothing is kept about an unknown
value of unknown type.

`Refining.result` gives the refined value, which is known where one result alone is left.
-/

namespace ValueAlgebra

open Text

/-- A value and what has been said about it. -/
structure Refining where
  /-- The value, without marks. -/
  value : Value
  marks : MarkSet
  /-- What is known, unless the type is unknown too. -/
  refinement : Option Refinement

/-- Starts to refine a value. -/
def Value.refine (v : Value) : Refining :=
  { value := v.unmark
    marks := v.marks
    refinement :=
      if !v.isKnown && v.ty.isDynamic then none else some (.ofContent v.content) }

namespace Refining

/-- What faults say about the value. -/
def subject (s : Refining) : Subject :=
  ⟨s.value.isKnown, s.value.ty⟩

/-- Changes what is known, unless the type is unknown. -/
def narrow (s : Refining) (f : Refinement → Except Fault Refinement) : Except Fault Refining :=
  match s.refinement with
  | none => .ok s
  | some r => (f r).map fun r => { s with refinement := some r }

/-- The value is not null. -/
def notNull (s : Refining) : Except Fault Refining :=
  s.narrow fun r =>
    if r.nullness = .null then .error (.nullAsNonNull s.subject)
    else .ok { r with nullness := .notNull }

/-- The value is null. -/
def null (s : Refining) : Except Fault Refining :=
  s.narrow fun r =>
    if r.nullness = .notNull then .error (.nonNullAsNull s.subject)
    else .ok { r with nullness := .null }

/-! ## Bounds of a number -/

/-- The number of a bound. An unknown bound says nothing. -/
def boundNumber (side : Side) (bound : Value) : Except Fault (Option Number) :=
  if bound.ty ≠ .dynamic ∧ bound.ty ≠ .number then .error (.boundType side bound.ty)
  else if bound.isNull then .error (.nullBound side)
  else .ok bound.number?

/-- No number of the value lies below a bound. -/
def raiseLower (s : Refining) (lower : Bound) : Except Fault Refining :=
  s.narrow fun r =>
    if s.value.ty ≠ .number then .error (.noNumericRange s.subject)
    else if !lower.isAbove r.lower then .ok r
    else if lower.crosses r.upper then
      .error (.crossedBounds s.subject .lower lower.value r.upper.value)
    else .ok { r with lower := lower }

/-- No number of the value lies above a bound. -/
def cutUpper (s : Refining) (upper : Bound) : Except Fault Refining :=
  s.narrow fun r =>
    if s.value.ty ≠ .number then .error (.noNumericRange s.subject)
    else if !upper.isBelow r.upper then .ok r
    else if r.lower.crosses upper then
      .error (.crossedBounds s.subject .upper upper.value r.lower.value)
    else .ok { r with upper := upper }

/-- The value is at least this number, or above it. -/
def atLeast (s : Refining) (bound : Value) (inclusive : Bool) : Except Fault Refining := do
  match ← boundNumber .lower bound with
  | none => return s
  | some min => s.raiseLower ⟨min, inclusive⟩

/-- The value is at most this number, or below it. -/
def atMost (s : Refining) (bound : Value) (inclusive : Bool) : Except Fault Refining := do
  match ← boundNumber .upper bound with
  | none => return s
  | some max => s.cutUpper ⟨max, inclusive⟩

/-- The value lies between two numbers or is one of them. -/
def between (s : Refining) (min max : Value) : Except Fault Refining := do
  (← s.atLeast min true).atMost max true

/-! ## The start of a string -/

/-- The value starts with exactly this text. -/
def startsWith (s : Refining) (stem : String) : Except Fault Refining :=
  s.narrow fun r =>
    let new := normalize stem
    if s.value.ty ≠ .string then .error (.noStem s.subject)
    else if new.toList.isPrefixOf r.stem.toList then .ok r
    else if (s.value.isKnown && !s.value.isNull) || !r.stem.toList.isPrefixOf new.toList then
      .error (.inconsistentStem s.subject new)
    else .ok { r with stem := new }

/-- The value starts with this text, but what follows may still join its last cluster of
characters. -/
def startsWithOpen (s : Refining) (stem : String) : Except Fault Refining :=
  s.startsWith (dropLastCluster (normalize stem))

/-! ## The length of a collection -/

/-- No collection is longer than this. -/
def lengthLimit : Nat := Nat.pow 2 64 - 1

/-- The value has at least this many elements. -/
def lengthAtLeast (s : Refining) (min : Nat) : Except Fault Refining :=
  s.narrow fun r =>
    if !s.value.ty.isCollection then .error (.noLength s.subject)
    else if min ≤ r.minLength then .ok r
    else if r.maxLength.getD lengthLimit < min then
      .error (.crossedLengths s.subject .lower min (r.maxLength.getD lengthLimit))
    else .ok { r with minLength := min }

/-- The value has at most this many elements. -/
def lengthAtMost (s : Refining) (max : Nat) : Except Fault Refining :=
  s.narrow fun r =>
    if !s.value.ty.isCollection then .error (.noLength s.subject)
    else if r.maxLength.getD lengthLimit ≤ max then .ok r
    else if max < r.minLength then .error (.crossedLengths s.subject .upper max r.minLength)
    else .ok { r with maxLength := some max }

/-- The value has exactly this many elements. -/
def length (s : Refining) (n : Nat) : Except Fault Refining := do
  (← s.lengthAtLeast n).lengthAtMost n

/-! ## The result -/

/-- The number of elements for which there is room in a list. -/
def listCapacity : Nat := Nat.pow 2 56

/-- The one value that an unknown of some type and refinement can be, if no other is left. -/
def onlyResult? (t : Ty) (r : Refinement) : Except Fault (Option Value) :=
  match r.nullness, t with
  | .null, t => .ok (some (.null t))
  | .unknown, _ => .ok none
  | .notNull, .number =>
    .ok <| if r.lower.inclusive && r.upper.inclusive && r.lower.value == r.upper.value then
      some (.number r.lower.value)
    else none
  | .notNull, .list e =>
    if r.maxLength.getD lengthLimit ≠ r.minLength then .ok none
    else if listCapacity < r.minLength then .error .capacityOverflow
    else .ok (some (.bare (.list e (List.replicate r.minLength (.unknown e)))))
  | .notNull, .set e =>
    .ok <| match r.maxLength, r.minLength with
      | some 0, 0 => some (.bare (.set e []))
      | some 1, 1 => some (.bare (.set e [.unknown e]))
      | _, _ => none
  | .notNull, .map e =>
    .ok <| if r.maxLength = some 0 ∧ r.minLength = 0 then some (.bare (.map e [])) else none
  | _, _ => .ok none

/-- The refined value, with the marks of the value that was refined. A known value stays what it
is. -/
def result (s : Refining) : Except Fault Value :=
  match s.value.isKnown, s.refinement with
  | false, some r => do
    match ← onlyResult? s.value.ty r with
    | some v => return v.withMarks s.marks
    | none => return (Value.refined s.value.ty r).withMarks s.marks
  | _, _ => .ok (s.value.withMarks s.marks)

end Refining

/-- A value that is known not to be null. -/
def Value.refineNotNull (v : Value) : Except Fault Value := do
  (← v.refine.notNull).result

/-- Something said about a value. -/
inductive Restriction where
  | notNull
  | null
  | atLeast (bound : Value) (inclusive : Bool)
  | atMost (bound : Value) (inclusive : Bool)
  | between (min max : Value)
  | startsWith (stem : String)
  | startsWithOpen (stem : String)
  | lengthAtLeast (min : Nat)
  | lengthAtMost (max : Nat)
  | length (n : Nat)

/-- Adds a restriction to what has been said about a value. -/
def Refining.restrict (s : Refining) : Restriction → Except Fault Refining
  | .notNull => s.notNull
  | .null => s.null
  | .atLeast bound inclusive => s.atLeast bound inclusive
  | .atMost bound inclusive => s.atMost bound inclusive
  | .between min max => s.between min max
  | .startsWith stem => s.startsWith stem
  | .startsWithOpen stem => s.startsWithOpen stem
  | .lengthAtLeast min => s.lengthAtLeast min
  | .lengthAtMost max => s.lengthAtMost max
  | .length n => s.length n

/-- A value with some restrictions, in their order. -/
def Value.restrict (v : Value) (restrictions : List Restriction) : Except Fault Value := do
  (← restrictions.foldlM Refining.restrict v.refine).result

end ValueAlgebra
