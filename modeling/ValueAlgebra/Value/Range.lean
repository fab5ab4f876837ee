import ValueAlgebra.Value.Equality

/-!
# The range of a value

The range of an unknown value is what its refinement leaves possible. The range of a known value is
as narrow as the fields of a refinement can say, so that both cases can be treated alike.
-/

namespace ValueAlgebra

/-- What a value, known or not, may turn out to be. -/
structure Range where
  /-- The value, without marks. -/
  raw : Value
  refinement : Refinement

namespace Refinement

/-- The refinement of a collection of this length. -/
def exactLength (n : Nat) : Refinement :=
  { nullness := .notNull, minLength := n, maxLength := some n }

/-- The narrowest refinement that a content meets. Elements of a set that are not wholly known may
turn out to be equal to others. -/
def ofContent : Content → Refinement
  | .unknown _ r => r
  | .null _ => { nullness := .null }
  | .number n => { nullness := .notNull, lower := ⟨n, true⟩, upper := ⟨n, true⟩ }
  | .string s => { nullness := .notNull, stem := s }
  | .list _ items => exactLength items.length
  | .map _ entries => exactLength entries.length
  | .set _ items =>
    let distinct := items.countP Value.isWhollyKnown
    { nullness := .notNull
      minLength := if items.isEmpty then 0 else max distinct 1
      maxLength := some items.length }
  | _ => .notNull

end Refinement

namespace Range

def type (r : Range) : Ty :=
  r.raw.ty

/-- Null is not ruled out. -/
def couldBeNull (r : Range) : Bool :=
  r.refinement.nullness != .notNull

def definitelyNotNull (r : Range) : Bool :=
  r.refinement.nullness == .notNull

/-- Whether a value without marks is among the possible results. -/
def includesBare [Host] (r : Range) (v : Value) : Value :=
  match r.raw.content, v.content with
  | .unknown _ _, .unknown _ _ => .undecided
  | .unknown _ _, .null _ => if r.couldBeNull then .undecided else .bool false
  | .unknown t refinement, content =>
    if t = .dynamic ∨ v.ty = .dynamic then .undecided
    else if v.ty ≠ t then .bool false
    else if refinement.admits content then .undecided
    else .bool false
  | .null _, .unknown _ _ => .undecided
  | .null _, _ => .bool v.isNull
  | _, _ => r.raw.equals v

/-- Whether a value is among the possible results. The answer carries the marks of the value. -/
def includes [Host] (r : Range) (v : Value) : Value :=
  (r.includesBare v.unmarkDeep).withMarks v.deepMarks

end Range

/-- The possible results of a value. Marks do not count. -/
def Value.range (v : Value) : Range :=
  ⟨v.unmark, .ofContent v.content⟩

end ValueAlgebra
