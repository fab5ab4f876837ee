import ValueAlgebra.Number.Decimal
import ValueAlgebra.Path.Basic
import ValueAlgebra.Ty.Name

/-!
# Faults and failures

A `Fault` is a misuse: an operation was applied to something that it is not made for. A `Failure`
is a fault or a `PathError`, which says that a part of a value could not be converted or found, and
where it is. Both are kept as causes. `Fault.message` has the wording of faults; that of path errors
needs the rules of conversion and is found beside them.
-/

namespace ValueAlgebra

open Text

/-- The kinds of collections that are built from elements. -/
inductive CollectionKind where
  | list
  | set
  | map
deriving DecidableEq, Repr

def CollectionKind.name : CollectionKind → String
  | .list => "list"
  | .set => "set"
  | .map => "map"

/-- The kinds of types that have parts of their own to look up. -/
inductive TypeKind where
  | object
  | tuple
  | union
  | capsule
deriving DecidableEq, Repr

def TypeKind.name : TypeKind → String
  | .object => "object"
  | .tuple => "tuple"
  | .union => "union"
  | .capsule => "capsule"

/-- The value that a refinement is about. -/
structure Subject where
  known : Bool
  type : Ty

/-- A short description of the value that a refinement is about. -/
def Subject.describe (s : Subject) : String :=
  (if s.known then "known " else "unknown ") ++ s.type.name ++ " value"

/-- The two ends of a range of numbers. -/
inductive Side where
  | lower
  | upper
deriving DecidableEq, Repr

def Side.name : Side → String
  | .lower => "lower"
  | .upper => "upper"

/-- Which marks or content make an operation on a value impossible. -/
inductive Obstacle where
  | marked
  | unknown
  | null
deriving DecidableEq, Repr

/-- How an operation is applied to a value with an obstacle. -/
def Obstacle.phrase : Obstacle → String
  | .marked => "a marked value; unmark it first"
  | .unknown => "an unknown value"
  | .null => "a null value"

/-- Why an operation cannot be applied. -/
inductive Fault where
  -- Types
  | undeclaredOptional (name : String)
  | emptyUnion
  | noElementType (type : Ty)
  | noAttributeType (name : String)
  | wrongTypeKind (wanted : TypeKind) (type : Ty)
  | equalsWithoutRawEquals (capsule : String)
  | wrongNative (wanted : String)
  -- Making values
  | notANumber
  | exponentOverflow
  | noElements (kind : CollectionKind)
  | inconsistentElements (kind : CollectionKind) (elements : String)
  | noVariant (union : Ty) (variant : String)
  | variantMismatch (variant : String) (wanted got : Ty)
  | notACapsuleType (type : Ty)
  | capsuleHolds (capsule : CapsuleType) (held : String)
  | capacityOverflow
  -- Sets
  | differentRules
  | markedElement
  | wrongElementType (got wanted : Ty)
  -- Taking values apart
  | obstacle (operation : String) (what : Obstacle)
  | wrongContent (operation : String) (type : Ty)
  | noAttribute (type : Ty) (name : String)
  | attributeOfNull (name : String)
  | nullKey
  | listIndexType (type : Ty)
  | tupleIndexType (type : Ty)
  | tupleIndexNotWhole
  | tupleIndexOutOfRange (index : Nat)
  | indexOutOfRange (index : Number)
  | mapKeyType (type : Ty)
  | indexOfNull (type : Ty)
  | indexOfNullMap
  | noEntry (key : String)
  | elementOfNullSet
  -- Operations
  | operandType (operation : String) (wanted : Ty) (position : Nat) (got : Ty)
  | nullOperand (operation : String) (wanted : Ty)
  | noNumericResult (operation : String) (a b : Number)
  -- Refinements
  | nullAsNonNull (subject : Subject)
  | nonNullAsNull (subject : Subject)
  | boundType (side : Side) (type : Ty)
  | nullBound (side : Side)
  | noNumericRange (subject : Subject)
  | crossedBounds (subject : Subject) (side : Side) (new current : Number)
  | noStem (subject : Subject)
  | inconsistentStem (subject : Subject) (stem : String)
  | noLength (subject : Subject)
  | crossedLengths (subject : Subject) (side : Side) (new current : Nat)
  -- Conversions
  | capsuleConversion (wanted got : Ty)
  | deepConversion

namespace Fault

/-- What is reported of a fault. -/
def message : Fault → String
  | undeclaredOptional name =>
    "optional attribute " ++ quoted name ++ " is not an attribute of the object type"
  | emptyUnion => "a union type must have at least one variant"
  | noElementType t => "element_type called on " ++ t.name
  | noAttributeType name => "object type has no attribute " ++ quoted name
  | wrongTypeKind wanted t =>
    "not " ++ (if wanted = .object then "an " else "a ") ++ wanted.name ++ " type: " ++ t.name
  | equalsWithoutRawEquals capsule =>
    "capsule type " ++ quoted capsule ++ " defines equals without raw_equals"
  | wrongNative wanted => "capsule payload is not a " ++ wanted
  | notANumber => "NaN is not a valid number value"
  | exponentOverflow => Number.ParseError.exponentOverflow.message
  | noElements .map => "Value::map requires at least one entry; use Value::map_empty"
  | noElements kind =>
    "Value::" ++ kind.name ++ " requires at least one element; use Value::" ++ kind.name ++ "_empty"
  | inconsistentElements kind elements =>
    "inconsistent " ++ kind.name ++ " element types in " ++ elements
  | noVariant union variant =>
    "union type " ++ union.structureText ++ " has no variant " ++ quoted variant
  | variantMismatch variant wanted got =>
    "union variant " ++ quoted variant ++ " requires " ++ wanted.name ++ " but the value is "
      ++ got.name
  | notACapsuleType t => "capsule value requires a capsule type, not " ++ t.name
  | capsuleHolds capsule held =>
    "capsule type " ++ quoted capsule.name ++ " holds " ++ held ++ " values"
  | capacityOverflow => "capacity overflow"
  | differentRules => "cannot combine sets with different rules"
  | markedElement => "marked values cannot be stored in a ValueSet; unmark them first"
  | wrongElementType got wanted =>
    "cannot add a " ++ got.name ++ " value to a set of " ++ wanted.name
  | obstacle operation what => operation ++ " called on " ++ what.phrase
  | wrongContent operation t => operation ++ " called on a " ++ t.name ++ " value"
  | noAttribute t name => t.name ++ " has no attribute " ++ quoted name
  | attributeOfNull name => "get_attr(" ++ quoted name ++ ") called on a null value"
  | nullKey => "index called with a null key"
  | listIndexType t => "list index must be a number, not " ++ t.name
  | tupleIndexType t => "tuple index must be a number, not " ++ t.name
  | tupleIndexNotWhole => "tuple index must be a whole number"
  | tupleIndexOutOfRange index => "tuple index " ++ toString index ++ " is out of range"
  | indexOutOfRange index => "index " ++ index.render ++ " is out of range"
  | mapKeyType t => "map key must be a string, not " ++ t.name
  | indexOfNull t => "index called on a null " ++ t.name
  | indexOfNullMap => "index called on a null map"
  | noEntry key => "map has no element for key " ++ quoted key
  | elementOfNullSet => "has_element called on a null set"
  | operandType operation wanted position got =>
    operation ++ ": type mismatch: want " ++ wanted.name ++ " but value " ++ toString position
      ++ " is " ++ got.name
  | nullOperand operation wanted => operation ++ ": cannot operate on a null " ++ wanted.name
  | noNumericResult operation a b =>
    operation ++ ": " ++ a.render ++ " and " ++ b.render ++ " have no numeric result"
  | nullAsNonNull subject => "refining a null " ++ subject.describe ++ " as non-null"
  | nonNullAsNull subject => "refining a non-null " ++ subject.describe ++ " as null"
  | boundType side t =>
    "number range " ++ side.name ++ " bound must be a number, not " ++ t.name
  | nullBound side => "number range " ++ side.name ++ " bound must not be null"
  | noNumericRange subject => "cannot refine the numeric range of a " ++ subject.describe
  | crossedBounds subject .lower new current =>
    "refining a " ++ subject.describe ++ " with lower bound " ++ new.render
      ++ " beyond its upper bound " ++ current.render
  | crossedBounds subject .upper new current =>
    "refining a " ++ subject.describe ++ " with upper bound " ++ new.render
      ++ " below its lower bound " ++ current.render
  | noStem subject => "cannot refine the string prefix of a " ++ subject.describe
  | inconsistentStem subject stem =>
    "refining a " ++ subject.describe ++ " with inconsistent prefix " ++ quoted stem
  | noLength subject => "cannot refine the length of a " ++ subject.describe
  | crossedLengths subject .lower new current =>
    "refining a " ++ subject.describe ++ " with length lower bound " ++ toString new
      ++ " beyond its upper bound " ++ toString current
  | crossedLengths subject .upper new current =>
    "refining a " ++ subject.describe ++ " with length upper bound " ++ toString new
      ++ " below its lower bound " ++ toString current
  | capsuleConversion wanted got =>
    "capsule conversion to " ++ wanted.name ++ " produced a " ++ got.name ++ " value"
  | deepConversion => "a capsule became a value that is nested too deeply to be converted again"

end Fault

/-- Why a step of a path leads nowhere. -/
inductive StepProblem where
  | attributeOfNull
  | notAnObject
  | noAttribute (name : String)
  | indexOfNull
  | notAList
  | notAMap
  | keyType
  | noElement
deriving DecidableEq, Repr

def StepProblem.message : StepProblem → String
  | .attributeOfNull => "attempt to access attribute of null value"
  | .notAnObject => "not an object type"
  | .noAttribute name => "object has no attribute " ++ quoted name
  | .indexOfNull => "cannot index a null value"
  | .notAList => "not a list type"
  | .notAMap => "not a map type"
  | .keyType => "key value not number or string"
  | .noElement => "value does not have given index key"

/-- Why a part of a value could not be converted or found. -/
inductive Complaint where
  /-- No conversion leads from one type to the other. -/
  | mismatch (got wanted : Ty)
  | numberRequired
  | boolRequired
  /-- A bool was written in capitals. -/
  | lowercaseRequired (b : Bool)
  | elementsDiffer (kind : CollectionKind)
  | missingAttribute (name : String)
  | variantRefused (name : String)
  | variantsClash (first second : String)
  | noVariantChosen
  | notAVariant (name : String)
  /-- A step of a path leads nowhere. -/
  | step (position : Nat) (problem : StepProblem)
  /-- A complaint in the words of a capsule type or a caller. -/
  | custom (text : String)

/-- A complaint about a part of a value. -/
structure PathError where
  /-- The way to the part. -/
  path : Path
  complaint : Complaint

/-- Why no value came out: a misuse, or a part of a value that could not be converted. -/
inductive Failure where
  | fault (cause : Fault)
  | path (error : PathError)

/-- The failure of a part of a value, if this one was found in a part that a path leads to. Faults
have no place. -/
def Failure.under (path : Path) : Failure → Failure
  | .fault cause => .fault cause
  | .path error => .path { error with path := path ++ error.path }

/-- Takes a fault for a failure. -/
def orFailure {α : Type} : Except Fault α → Except Failure α
  | .ok a => .ok a
  | .error cause => .error (.fault cause)

instance {α : Type} : Coe (Except Fault α) (Except Failure α) := ⟨orFailure⟩

/-- The failure of a part of a value. -/
def Path.fail {α : Type} (path : Path) (complaint : Complaint) : Except Failure α :=
  .error (.path ⟨path, complaint⟩)

end ValueAlgebra
