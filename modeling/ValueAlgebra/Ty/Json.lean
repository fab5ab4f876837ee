import ValueAlgebra.Json.Basic
import ValueAlgebra.Ty.Build

/-!
# Types as JSON

A primitive type and the unknown type are stored as their names, and every other type as an array
that starts with its kind: `["list", "number"]`, `["object", {"a": "bool"}, ["a"]]`. Capsule types
have no stored form. `Ty.toJson` writes this form and `Ty.ofJson` reads it. `Ty.outline` is the form
for readers, in which a capsule type has its name.
-/

namespace ValueAlgebra.Ty

open Text

/-- What a datum is expected to be. -/
inductive Expected where
  | type
  | string
  | map
  | sequence
deriving DecidableEq, Repr

def Expected.phrase : Expected → String
  | .type => "a type name string or a [kind, ...] array"
  | .string => "a string"
  | .map => "a map"
  | .sequence => "a sequence"

/-- Why a type cannot be stored, or a datum is no type. -/
inductive JsonError where
  | capsule (name : String)
  | unexpected (got : Json) (wanted : Expected)
  /-- The array of a type is too short. -/
  | missing (length : Nat)
  | unknownName (name : String)
  | unknownKind (kind : String)
  | undeclaredOptional (name : String)
  | emptyUnion
  | extraElements (kind : String)
  /-- The parts were refused where the type is made. -/
  | refused (cause : Fault)

/-- What is reported of a type that cannot be stored or read. -/
def JsonError.message : JsonError → String
  | .capsule name => "capsule type " ++ quoted name ++ " cannot be serialized"
  | .unexpected got wanted =>
    "invalid type: " ++ got.describe ++ ", expected " ++ wanted.phrase
  | .missing length =>
    "invalid length " ++ toString length ++ ", expected " ++ Expected.type.phrase
  | .unknownName name => "invalid primitive type name " ++ quoted name
  | .unknownKind kind => "invalid type kind " ++ quoted kind
  | .undeclaredOptional name => (Fault.undeclaredOptional name).message
  | .emptyUnion => Fault.emptyUnion.message
  | .extraElements kind => "unexpected extra elements in " ++ kind ++ " type specification"
  | .refused cause => cause.message

/-! ## Writing -/

/-- The stored form of a type with one kind of parts. -/
def jsonPair (kind : String) (parts : Json) : Json :=
  .array [.string kind, parts]

mutual

/-- The shape of a type. A capsule type is shown by its name alone, which does not determine it. -/
def outline : Ty → Json
  | .number => .string "number"
  | .string => .string "string"
  | .bool => .string "bool"
  | .dynamic => .string "dynamic"
  | .list e => jsonPair "list" e.outline
  | .set e => jsonPair "set" e.outline
  | .map e => jsonPair "map" e.outline
  | .object attributes optional =>
    if optional.isEmpty then jsonPair "object" (.object (outlineEntries attributes))
    else
      .array [.string "object", .object (outlineEntries attributes),
        .array (optional.map .string)]
  | .tuple elements => jsonPair "tuple" (.array (outlineAll elements))
  | .union variants => jsonPair "union" (.object (outlineEntries variants))
  | .capsule c => jsonPair "capsule" (.string c.name)

/-- The shapes of some types. -/
def outlineAll : List Ty → List Json
  | [] => []
  | t :: ts => t.outline :: outlineAll ts

/-- The shapes of some named types. -/
def outlineEntries : List (String × Ty) → List (String × Json)
  | [] => []
  | (name, t) :: ts => (name, t.outline) :: outlineEntries ts

end

mutual

/-- The first capsule type in a type. -/
def firstCapsule? : Ty → Option CapsuleType
  | .list e | .set e | .map e => e.firstCapsule?
  | .object attributes _ => firstCapsuleEntries? attributes
  | .tuple elements => firstCapsuleAll? elements
  | .union variants => firstCapsuleEntries? variants
  | .capsule c => some c
  | _ => none

/-- The first capsule type in some types. -/
def firstCapsuleAll? : List Ty → Option CapsuleType
  | [] => none
  | t :: ts => t.firstCapsule?.orElse fun _ => firstCapsuleAll? ts

/-- The first capsule type in some named types. -/
def firstCapsuleEntries? : List (String × Ty) → Option CapsuleType
  | [] => none
  | (_, t) :: ts => t.firstCapsule?.orElse fun _ => firstCapsuleEntries? ts

end

/-- The stored form of a type: its shape, unless there is a capsule type in it. -/
def toJson (t : Ty) : Except JsonError Json :=
  match t.firstCapsule? with
  | some c => .error (.capsule c.name)
  | none => .ok t.outline

/-! ## Reading -/

/-- The type of a name. -/
def ofName : String → Except JsonError Ty
  | "number" => .ok .number
  | "string" => .ok .string
  | "bool" => .ok .bool
  | "dynamic" => .ok .dynamic
  | name => .error (.unknownName name)

/-- A list of texts. -/
def readNames : Json → Except JsonError (List String)
  | .array items => items.mapM fun
    | .string s => .ok s
    | item => .error (.unexpected item .string)
  | other => .error (.unexpected other .sequence)

/-- An object type out of its parts as they are stored. -/
def ofObjectParts (attributes : List (String × Ty)) (optional : List String) :
    Except JsonError Ty :=
  match optional.find? fun name => !Entries.contains name attributes with
  | some name => .error (.undeclaredOptional name)
  | none => (objectOf attributes optional).mapError .refused

/-- A union type out of its variants as they are stored. -/
def ofVariants (variants : List (String × Ty)) : Except JsonError Ty :=
  if variants.isEmpty then .error .emptyUnion else (unionOf variants).mapError .refused

/-- A type may have no elements after its parts. -/
def endOfType (kind : String) (rest : List Json) (t : Ty) : Except JsonError Ty :=
  if rest.isEmpty then .ok t else .error (.extraElements kind)

mutual

/-- The type that a datum is the stored form of. -/
def ofJson : Json → Except JsonError Ty
  | .string name => ofName name
  | .array [] => .error (.missing 0)
  | .array (.string "list" :: e :: rest) => do endOfType "list" rest (.list (← ofJson e))
  | .array (.string "set" :: e :: rest) => do endOfType "set" rest (.set (← ofJson e))
  | .array (.string "map" :: e :: rest) => do endOfType "map" rest (.map (← ofJson e))
  | .array (.string "tuple" :: .array items :: rest) => do
    endOfType "tuple" rest (.tuple (← ofJsonAll items))
  | .array (.string "tuple" :: other :: _) => .error (.unexpected other .sequence)
  | .array (.string "object" :: .object fields :: rest) => do
    let attributes ← ofJsonEntries fields
    match rest with
    | [] => ofObjectParts attributes []
    | names :: rest =>
      let t ← ofObjectParts attributes (← readNames names)
      endOfType "object" rest t
  | .array (.string "object" :: other :: _) => .error (.unexpected other .map)
  | .array (.string "union" :: .object fields :: rest) => do
    endOfType "union" rest (← ofVariants (← ofJsonEntries fields))
  | .array (.string "union" :: other :: _) => .error (.unexpected other .map)
  | .array (.string kind :: rest) =>
    if ["list", "set", "map", "tuple", "object", "union"].contains kind && rest.isEmpty then
      .error (.missing 1)
    else
      .error (.unknownKind kind)
  | .array (other :: _) => .error (.unexpected other .string)
  | other => .error (.unexpected other .type)

/-- The types that some data are the stored forms of. -/
def ofJsonAll : List Json → Except JsonError (List Ty)
  | [] => .ok []
  | item :: items => do
    let t ← ofJson item
    let ts ← ofJsonAll items
    return t :: ts

/-- The named types that some fields are the stored forms of. -/
def ofJsonEntries : List (String × Json) → Except JsonError (List (String × Ty))
  | [] => .ok []
  | (name, item) :: items => do
    let t ← ofJson item
    let ts ← ofJsonEntries items
    return (name, t) :: ts

end

end ValueAlgebra.Ty
