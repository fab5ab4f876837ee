import ValueAlgebra.Conversion.Resolve

/-!
# Mismatches

`Ty.mismatch` explains why a value of one type cannot stand in for another one. Of several problems
it names one: attributes that are missing come before parts that cannot be converted, and these come
before parts that some values convert from. A problem of a part is explained in turn.

`PathError.message` is the text of a complaint.
-/

namespace ValueAlgebra

open Text

/-- Why a value of one type cannot stand in for another one. -/
inductive Mismatch where
  /-- It is of the wrong type. -/
  | required (wanted : Ty)
  /-- It lacks attributes. -/
  | missingAttributes (names : List String)
  /-- Its elements have no type in common. -/
  | differingElements (kind : CollectionKind)
  /-- An attribute cannot stand in for another one. -/
  | attribute (name : String) (inner : Mismatch)
  /-- An attribute cannot stand in for the element of a map. -/
  | entry (name : String) (inner : Mismatch)
  /-- An element of a tuple cannot stand in for the element of a collection. -/
  | item (i : Nat) (inner : Mismatch)
  /-- The elements of a collection cannot stand in for those of another one. -/
  | elementType (kind : CollectionKind) (inner : Mismatch)
  /-- A variant cannot stand in for another one. -/
  | variant (name : String) (inner : Mismatch)
  /-- A variant is not among the wanted ones. -/
  | variantRefused (name : String)
  /-- An attribute is not among the wanted variants. -/
  | notAVariant (name : String)

/-- How far a type is from another one. -/
inductive Obstruction where
  /-- All values convert. -/
  | clear
  /-- Some values may convert. -/
  | narrow
  /-- No value converts. -/
  | blocked
deriving DecidableEq, Repr

/-- The types wanted of some named parts. -/
abbrev WantedParts :=
  String → Option Ty

/-- Each part is wanted to be of the type of its name. -/
def WantedParts.named (types : List (String × Ty)) : WantedParts :=
  fun name => types.lookup name

/-- All parts are wanted to be of one type. -/
def WantedParts.same (type : Ty) : WantedParts :=
  fun _ => some type

/-- The required attributes that an object lacks. -/
def Ty.lackedAttributes (got wanted : List (String × Ty)) (optional : List String) : List String :=
  (Entries.names wanted).filter fun name =>
    !Entries.contains name got && !optional.contains name

/-- The first of some names that is not wanted. -/
def Ty.firstUnwanted? (got wanted : List (String × Ty)) : Option String :=
  (Entries.names got).find? fun name => !Entries.contains name wanted

/-! ## Explanations -/

section

variable [Host]

namespace Obstruction

/-- How far a value of one type is from standing in for another one. -/
def between (got wanted : Ty) : Obstruction :=
  if got = wanted then .clear
  else if (Conversion.plan? .lenient got wanted).isNone then .blocked
  else if (Conversion.plan? .safe got wanted).isNone then .narrow
  else .clear

/-- The obstruction to report of several types: one that no value passes, if there is one. -/
def worst (pairs : List (Ty × Ty)) : Obstruction :=
  if pairs.any fun pair => between pair.1 pair.2 == .blocked then .blocked else .narrow

/-- The obstruction to report of named parts. -/
def worstNamed (got : List (String × Ty)) (wanted : WantedParts) : Obstruction :=
  worst (got.filterMap fun part => (wanted part.1).map fun t => (part.2, t))

/-- The obstruction to report of the elements of a tuple. -/
def worstItem (got : List Ty) (wanted : Ty) : Obstruction :=
  worst (got.map fun part => (part, wanted))

end Obstruction

namespace Ty

mutual

/-- Why a value of one type cannot stand in for another one. -/
def mismatch : Ty → Ty → Mismatch
  | .object got _, .object wanted optional =>
    let lacked := lackedAttributes got wanted optional
    if lacked ≠ [] then .missingAttributes lacked
    else
      match mismatchAt? (.worstNamed got (.named wanted)) got (.named wanted) with
      | some (name, inner) => .attribute name inner
      | none => .required (.object wanted optional)
  | .tuple _, .list .dynamic => .differingElements .list
  | .tuple _, .set .dynamic => .differingElements .set
  | .object _ _, .map .dynamic => .differingElements .map
  | .object got _, .map wanted =>
    match mismatchAt? (.worstNamed got (.same wanted)) got (.same wanted) with
    | some (name, inner) => .entry name inner
    | none => .required (.map wanted)
  | .tuple got, .list wanted =>
    match mismatchFrom? (.worstItem got wanted) wanted 0 got with
    | some (i, inner) => .item i inner
    | none => .required (.list wanted)
  | .tuple got, .set wanted =>
    match mismatchFrom? (.worstItem got wanted) wanted 0 got with
    | some (i, inner) => .item i inner
    | none => .required (.set wanted)
  | .list got, .list wanted | .set got, .list wanted =>
    if got = wanted then .required (.list wanted) else .elementType .list (got.mismatch wanted)
  | .list got, .set wanted | .set got, .set wanted =>
    if got = wanted then .required (.set wanted) else .elementType .set (got.mismatch wanted)
  | .map got, .map wanted =>
    if got = wanted then .required (.map wanted) else .elementType .map (got.mismatch wanted)
  | .union got, .union wanted =>
    match firstUnwanted? got wanted with
    | some name => .variantRefused name
    | none =>
      match mismatchAt? (.worstNamed got (.named wanted)) got (.named wanted) with
      | some (name, inner) => .variant name inner
      | none => .required (.union wanted)
  | .object got _, .union wanted =>
    match firstUnwanted? got wanted with
    | some name => .notAVariant name
    | none =>
      match mismatchAt? (.worstNamed got (.named wanted)) got (.named wanted) with
      | some (name, inner) => .attribute name inner
      | none => .required (.union wanted)
  | _, wanted => .required wanted

/-- The mismatch of the first named part with an obstruction. -/
def mismatchAt? (o : Obstruction) : List (String × Ty) → WantedParts → Option (String × Mismatch)
  | [], _ => none
  | (name, got) :: rest, wanted =>
    match wanted name with
    | some t =>
      if Obstruction.between got t = o then some (name, got.mismatch t)
      else mismatchAt? o rest wanted
    | none => mismatchAt? o rest wanted

/-- The mismatch of the first element of a tuple with an obstruction. -/
def mismatchFrom? (o : Obstruction) (wanted : Ty) : Nat → List Ty → Option (Nat × Mismatch)
  | _, [] => none
  | i, got :: rest =>
    if Obstruction.between got wanted = o then some (i, got.mismatch wanted)
    else mismatchFrom? o wanted (i + 1) rest

end

end Ty

end

/-! ## Texts -/

/-- Required attributes in a sentence. -/
def attributesRequired : List String → String
  | [name] => "attribute " ++ quoted name ++ " is required"
  | [a, b] => "attributes " ++ quoted a ++ " and " ++ quoted b ++ " are required"
  | names =>
    "attributes " ++ Ty.commaSeparated (names.dropLast.map quoted) ++ ", and "
      ++ quoted (names.getLastD "") ++ " are required"

namespace Mismatch

/-- A mismatch in a sentence. -/
def message : Mismatch → String
  | .required wanted => wanted.constraintName ++ " required"
  | .missingAttributes names => attributesRequired names
  | .differingElements kind =>
    "all " ++ kind.name ++ " elements must have the same type, but the "
      ++ (if kind = .map then "object" else "tuple") ++ " has differing element types"
  | .attribute name inner => "attribute " ++ quoted name ++ ": " ++ inner.message
  | .entry name inner => "element " ++ quoted name ++ ": " ++ inner.message
  | .item i inner => "element " ++ toString i ++ ": " ++ inner.message
  | .elementType kind inner => "incorrect " ++ kind.name ++ " element type: " ++ inner.message
  | .variant name inner => "variant " ++ quoted name ++ ": " ++ inner.message
  | .variantRefused name => "union variant " ++ quoted name ++ " is not accepted"
  | .notAVariant name => "attribute " ++ quoted name ++ " does not name a union variant"

end Mismatch

/-- How a variant of a union is selected. -/
def selectionRule : String :=
  "exactly one attribute must be non-null to select a union variant"

variable [Host]

/-- A complaint in a sentence. -/
def Complaint.message : Complaint → String
  | .mismatch got wanted => (got.mismatch wanted).message
  | .numberRequired => "a number is required"
  | .boolRequired => "a bool is required"
  | .lowercaseRequired b =>
    "a bool is required; to convert from string, use lowercase "
      ++ quoted (if b then "true" else "false")
  | .elementsDiffer kind => "element types must all match for conversion to " ++ kind.name
  | .missingAttribute name => "map has no element for required attribute " ++ quoted name
  | .variantRefused name => (Mismatch.variantRefused name).message
  | .variantsClash first second =>
    selectionRule ++ ", but both " ++ quoted first ++ " and " ++ quoted second ++ " are set"
  | .noVariantChosen => selectionRule
  | .notAVariant name => (Mismatch.notAVariant name).message
  | .step position problem => "at step " ++ toString position ++ ": " ++ problem.message
  | .custom text => text

/-- The text of the complaint of an error at a path. -/
def PathError.message (e : PathError) : String :=
  e.complaint.message

end ValueAlgebra
