import ValueAlgebra.Number.Decimal
import ValueAlgebra.Ty.Name

/-!
# Refinements

What is known about an unknown value beyond its type: whether it can be null, bounds of a number,
the text that a string starts with, and bounds of the length of a collection. A refinement that says
nothing is `Refinement.unconstrained`. Only the fields that fit the type of the value are ever
narrowed.
-/

namespace ValueAlgebra

open Text

/-- What is known about whether a value is null. -/
inductive Nullness where
  | unknown
  | null
  | notNull
deriving DecidableEq, Repr

/-- One end of a range of numbers. -/
structure Bound where
  value : Number
  /-- The end belongs to the range. -/
  inclusive : Bool
deriving DecidableEq, Repr

namespace Bound

/-- The lower end of the range of all numbers. -/
def lowest : Bound :=
  ⟨.negInf, true⟩

/-- The upper end of the range of all numbers. -/
def highest : Bound :=
  ⟨.posInf, true⟩

/-- Whether a number is on the inner side of a lower end. -/
def admitsAbove (lower : Bound) (n : Number) : Bool :=
  if lower.inclusive then lower.value ≤ n else lower.value < n

/-- Whether a number is on the inner side of an upper end. -/
def admitsBelow (upper : Bound) (n : Number) : Bool :=
  if upper.inclusive then n ≤ upper.value else n < upper.value

/-- Whether a lower and an upper end leave no number between them. -/
def crosses (lower upper : Bound) : Bool :=
  upper.value < lower.value ||
    (lower.value == upper.value && !(lower.inclusive && upper.inclusive))

/-- Whether a lower end says more than another one. -/
def isAbove (new current : Bound) : Bool :=
  current.value < new.value ||
    (new.value == current.value && current.inclusive && !new.inclusive)

/-- Whether an upper end says more than another one. -/
def isBelow (new current : Bound) : Bool :=
  new.value < current.value ||
    (new.value == current.value && current.inclusive && !new.inclusive)

end Bound

/-- What is known about an unknown value beyond its type. -/
structure Refinement where
  nullness : Nullness := .unknown
  lower : Bound := .lowest
  upper : Bound := .highest
  /-- The text that a string starts with. -/
  stem : String := ""
  minLength : Nat := 0
  /-- The greatest length of a collection, where there is one. -/
  maxLength : Option Nat := none
deriving DecidableEq, Repr

namespace Refinement

/-- The refinement that says nothing. -/
def unconstrained : Refinement := {}

instance : Inhabited Refinement := ⟨unconstrained⟩

/-- The refinement that only rules null out. -/
def notNull : Refinement := { nullness := .notNull }

/-- The parts of a refinement that say something. -/
def parts (r : Refinement) : List String :=
  (match r.nullness with
    | .unknown => []
    | .null => ["null"]
    | .notNull => ["not_null"]) ++
  (if r.lower = .lowest then []
    else [(if r.lower.inclusive then ">= " else "> ") ++ r.lower.value.render]) ++
  (if r.upper = .highest then []
    else [(if r.upper.inclusive then "<= " else "< ") ++ r.upper.value.render]) ++
  (if r.stem = "" then [] else ["prefix " ++ quoted r.stem]) ++
  (if r.minLength = 0 then [] else ["len >= " ++ toString r.minLength]) ++
  (match r.maxLength with
    | none => []
    | some max => ["len <= " ++ toString max])

/-- The parts of a refinement between braces. -/
def describe (r : Refinement) : String :=
  Ty.braced r.parts

end Refinement

end ValueAlgebra
