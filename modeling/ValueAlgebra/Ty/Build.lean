import ValueAlgebra.Fault
import ValueAlgebra.Text.Normalize

/-!
# Making types and looking up their parts

Names of attributes and variants are brought to canonical form, and of several parts of one name the
last one stays. A part that a type does not have is a fault.
-/

namespace ValueAlgebra.Ty

open Text

/-- Named parts by their canonical names. -/
def namedParts {α : Type} (parts : List (String × α)) : List (String × α) :=
  Entries.ofList (parts.map fun part => (normalize part.1, part.2))

/-- An object type. Each optional name has to be one of the attributes. -/
def objectOf (attributes : List (String × Ty)) (optional : List String) : Except Fault Ty :=
  let attributes := namedParts attributes
  let optional := Names.ofList (optional.map normalize)
  match optional.find? fun name => !Entries.contains name attributes with
  | some missing => .error (.undeclaredOptional missing)
  | none => .ok (.object attributes optional)

/-- A union type. It needs a variant. -/
def unionOf (variants : List (String × Ty)) : Except Fault Ty :=
  let variants := namedParts variants
  if variants.isEmpty then .error .emptyUnion else .ok (.union variants)

/-- The element type of a list, set or map. -/
def elementType (t : Ty) : Except Fault Ty :=
  match t.element? with
  | some e => .ok e
  | none => .error (.noElementType t)

/-- The attributes of an object type, and which of them are optional. -/
def objectParts : Ty → Except Fault (List (String × Ty) × List String)
  | .object attributes optional => .ok (attributes, optional)
  | t => .error (.wrongTypeKind .object t)

def attributeTypes (t : Ty) : Except Fault (List (String × Ty)) :=
  t.objectParts.map (·.1)

/-- The type of an attribute of an object type. -/
def attributeType (t : Ty) (name : String) : Except Fault Ty := do
  match (← t.attributeTypes).lookup name with
  | some part => return part
  | none => throw (.noAttributeType name)

/-- Whether an attribute of an object type is optional. -/
def attributeOptional (t : Ty) (name : String) : Except Fault Bool := do
  let (attributes, optional) ← t.objectParts
  if Entries.contains name attributes then return optional.contains name
  else throw (.noAttributeType name)

def optionalAttributes (t : Ty) : Except Fault (List String) :=
  t.objectParts.map (·.2)

def tupleElementTypes : Ty → Except Fault (List Ty)
  | .tuple elements => .ok elements
  | t => .error (.wrongTypeKind .tuple t)

def unionVariants : Ty → Except Fault (List (String × Ty))
  | .union variants => .ok variants
  | t => .error (.wrongTypeKind .union t)

def capsuleType : Ty → Except Fault CapsuleType
  | .capsule c => .ok c
  | t => .error (.wrongTypeKind .capsule t)

end ValueAlgebra.Ty
