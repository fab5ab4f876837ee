import ValueAlgebra.Number.Binary64
import ValueAlgebra.RuleSet
import ValueAlgebra.Ty.Build
import ValueAlgebra.Value.Describe
import ValueAlgebra.Value.Refine

/-!
# Making values

The elements of a collection need a common type. Nulls and unknowns of unknown type take the type of
the others. The marks of set elements move to the set.
-/

namespace ValueAlgebra

open Text

/-- The rules of sets of values of one type: an element is found only where equality is decided. -/
structure ValueRules where
  /-- The type of the elements. -/
  element : Ty

instance [Host] : Rules ValueRules Value where
  hash _ := Value.hash
  equivalent _ a b := (a.equals b).isKnownTrue
  order _ := Value.setOrder
  same a b := a.element == b.element

namespace Value

/-! ## Primitive values -/

/-- A string, in canonical form. -/
def string (s : String) : Value :=
  bare (.string (normalize s))

/-- The number that the shortest digits of a floating point number stand for. -/
def ofBinary64 (x : Binary64) : Except Fault Value :=
  match Number.ofBinary64? x with
  | some n => .ok (number n)
  | none => .error .notANumber

/-- The number that a text in decimal notation stands for. -/
def parseNumber (s : String) : Except Number.ParseError Value :=
  (Number.parse s).map number

/-! ## Common types -/

/-- The type that `t` and the others share, where an unknown type goes with any other. -/
def commonTypeFrom? (t : Ty) : List Ty → Option Ty
  | [] => some t
  | u :: us =>
    if t = .dynamic then commonTypeFrom? u us
    else if u = .dynamic ∨ t = u then commonTypeFrom? t us
    else none

/-- The type that some values share. -/
def commonType? (vs : List Value) : Option Ty :=
  commonTypeFrom? .dynamic (types vs)

/-- Gives a null or unknown of unknown type the type of the other elements. -/
def conformTo (e : Ty) (v : Value) : Value :=
  if v.ty ≠ .dynamic ∨ e = .dynamic then v
  else (if v.isNull then null e else unknown e).withMarks v.marks

/-! ## Collections -/

variable [Host]

/-- The type that the elements of a new collection share. -/
def elementTypeFor (kind : CollectionKind) (vs : List Value) (describe : Except Fault String) :
    Except Fault Ty :=
  if vs.isEmpty then .error (.noElements kind)
  else
    match commonType? vs with
    | some e => .ok e
    | none => describe.bind fun text => .error (.inconsistentElements kind text)

/-- A list of at least one element. -/
def list (vs : List Value) : Except Fault Value := do
  let e ← elementTypeFor .list vs ((describeAll vs).map fun ts =>
    "[" ++ Ty.commaSeparated ts ++ "]")
  return bare (.list e (vs.map (conformTo e)))

def emptyList (e : Ty) : Value :=
  bare (.list e [])

/-- The value of a set. -/
def ofRuleSet (s : RuleSet ValueRules Value) : Value :=
  bare (.set s.rules.element s.values)

/-- A set of values of one type, with their marks. -/
def setOf (e : Ty) (vs : List Value) : Value :=
  let elements := vs.map (conformTo e)
  (ofRuleSet (.ofList ⟨e⟩ (elements.map unmarkDeep))).withMarks (.unions (elements.map deepMarks))

/-- A set of at least one element. -/
def set (vs : List Value) : Except Fault Value := do
  let e ← elementTypeFor .set vs ((describeAll vs).map fun ts =>
    "[" ++ Ty.commaSeparated ts ++ "]")
  return setOf e vs

def emptySet (e : Ty) : Value :=
  bare (.set e [])

/-- A map of at least one entry. The last entry of a key stays. -/
def map (entries : List (String × Value)) : Except Fault Value := do
  let entries := Ty.namedParts entries
  let e ← elementTypeFor .map (Entries.values entries) ((describeEntries entries).map Ty.braced)
  return bare (.map e (Entries.mapValues (conformTo e) entries))

def emptyMap (e : Ty) : Value :=
  bare (.map e [])

/-! ## Structures -/

/-- An object. The last attribute of a name stays. -/
def object (attributes : List (String × Value)) : Value :=
  bare (.object (Ty.namedParts attributes))

def tuple (vs : List Value) : Value :=
  bare (.tuple vs)

/-- A value of a union type, in one of its variants. -/
def union (t : Ty) (variant : String) (v : Value) : Except Fault Value := do
  let variants ← t.unionVariants
  let variant := normalize variant
  match variants.lookup variant with
  | none => throw (.noVariant t variant)
  | some wanted =>
    let fits :=
      if wanted.hasDynamic then v.ty.conforms wanted else v.ty == wanted.withoutOptional
    if fits then return bare (.union variants variant v)
    else throw (.variantMismatch variant wanted v.ty)

/-- A native value in a capsule. -/
def capsule (t : Ty) (p : Payload) : Except Fault Value :=
  match t with
  | .capsule c =>
    if p.native.kind = c.native then .ok (bare (.capsule c p))
    else .error (.capsuleHolds c (Host.nativeName c.native))
  | t => .error (.notACapsuleType t)

end Value

end ValueAlgebra
