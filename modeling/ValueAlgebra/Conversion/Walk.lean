import ValueAlgebra.Conversion.Run

/-!
# Conversions along one path

`Conversion.convertAt` converts a value that is found at a path inside of a larger value. One path is
kept all the way: a step is added before a part is converted and dropped afterwards, whatever came
of the part, and a complaint is about the path as it is at that time. What is decided later starts
from an empty path, and the path is put in front of its failures.

`Conversion.run` gives each part a path of its own instead.
-/

namespace ValueAlgebra

open Text

/-- A computation at a path. It leaves a path behind, also where it fails. -/
abbrev Walk (α : Type) :=
  ExceptT Failure (StateM Path) α

namespace Walk

variable {α : Type}

/-- What comes of a computation that starts at a path, and the path that it leaves behind. -/
def start (walk : Walk α) (path : Path) : Except Failure α × Path :=
  walk.run path

/-- What depends on the path and leaves it as it is. -/
def here (f : Path → Except Failure α) : Walk α :=
  ExceptT.mk fun path => (f path, path)

/-- What may be a misuse, wherever it is. -/
def of (x : Except Fault α) : Walk α :=
  here fun _ => orFailure x

def fail (complaint : Complaint) : Walk α :=
  here fun path => path.fail complaint

/-- A computation one step further. The step is taken back before a failure gets any further. -/
def inside (step : Step) (walk : Walk α) : Walk α :=
  ExceptT.mk do
    modify fun path => path.push step
    let outcome ← walk.run
    modify Path.dropLast
    return outcome

/-- A computation on an empty path of its own. The path is put in front of its failures. -/
def apart (walk : Walk α) : Walk α :=
  here fun path => (walk.start .root).1.mapError (Failure.under path)

end Walk

/-- A way to convert parts along the path. The last argument tells this place in the run from all
others. -/
abbrev Walker :=
  Conversion → Value → List Nat → Walk Value

/-- A part of a value, how it is to be converted, and the step to it. -/
structure PartStep where
  conversion : Conversion
  part : Value
  step : Step

namespace Walker

/-- Converts parts one by one. -/
def runAll (walk : Walker) (site : List Nat) (plans : List PartStep) : Walk (List Value) :=
  plans.zipIdx.mapM fun (p, i) => (walk p.conversion p.part ((2 * i) :: site)).inside p.step

/-- Converts values one by one where the path is. A value without a conversion stays. -/
def runSecond (walk : Walker) (site : List Nat) (values : List (Value × Option Conversion)) :
    Walk (List Value) :=
  values.zipIdx.mapM fun ((v, conversion?), i) =>
    match conversion? with
    | some c => walk c v ((2 * i + 1) :: site)
    | none => pure v

variable [Host]

/-- Elements of one type. Elements of different types are converted to what their types have in
common. -/
def homogenize (walk : Walker) (kind : CollectionKind) (mode : Mode) (site : List Nat)
    (values : List Value) : Walk (List Value) :=
  if (Value.commonType? values).isSome then pure values
  else
    match Unification.plan? mode (Value.types values) with
    | none => .fail (.elementsDiffer kind)
    | some u => do
      let values ← walk.runSecond site (values.zip u.conversions)
      if (Value.commonType? values).isSome then return values
      else .fail (.elementsDiffer kind)

/-- Converts the elements of a collection into a list or set. -/
def convertItems (walk : Walker) (kind : CollectionKind) (mode : Mode) (element : Conversion)
    (wanted : Ty) (v : Value) (site : List Nat) : Walk Value := do
  let elements ← .of v.elements
  let values ← walk.runAll site (elements.map fun (key, part) =>
    ⟨element, part, .index (if kind = .set then .unknown wanted else key)⟩)
  if values.isEmpty then
    return emptyCollection kind wanted (← .of v.ty.elementType)
  let values ← walk.homogenize kind mode site values
  .of (if kind = .set then Value.set values else Value.list values)

/-- Converts the elements of a map. -/
def convertEntries (walk : Walker) (mode : Mode) (element : Conversion) (wanted : Ty) (v : Value)
    (site : List Nat) : Walk Value := do
  let elements ← .here fun _ => v.namedElements
  let values ← walk.runAll site (elements.map fun (_, key, part) => ⟨element, part, .index key⟩)
  if values.isEmpty then
    return emptyCollection .map wanted (← .of v.ty.elementType)
  let values ← walk.homogenize .map mode site values
  .of (Value.map ((elements.map (·.1)).zip values))

/-- Converts as many elements of a tuple as there are conversions. -/
def convertTuple (walk : Walker) (conversions : List Conversion) (v : Value) (site : List Nat) :
    Walk (List Value) := do
  let elements ← .of v.elements
  walk.runAll site ((elements.zip conversions).map fun ((key, part), conversion) =>
    ⟨conversion, part, .index key⟩)

/-- Converts the parts for which there is a conversion of their name. -/
def convertNamed (walk : Walker) (conversions : List (String × Conversion))
    (locate : String → Value → Step) (v : Value) (site : List Nat) :
    Walk (List (String × Value)) := do
  let elements ← .here fun _ => v.namedElements
  let plans := elements.filterMap fun (name, key, part) =>
    (conversions.lookup name).map fun conversion =>
      (name, PartStep.mk conversion part (locate name key))
  let values ← walk.runAll site (plans.map (·.2))
  return (plans.map (·.1)).zip values

/-- Converts what a variant holds. -/
def convertVariant (walk : Walker) (conversions : List (String × Conversion)) (target : Ty)
    (name : String) (part : Value) (complaint : Complaint) (site : List Nat) : Walk Value :=
  match conversions.lookup name with
  | none => .fail complaint
  | some conversion => do
    let inner ← (walk conversion part (0 :: site)).inside (.attr name)
    .of (Value.union target name inner)

/-- Converts the one attribute of an object that is not null. -/
def convertSelection (walk : Walker) (conversions : List (String × Conversion)) (target : Ty)
    (v : Value) (site : List Nat) : Walk Value := do
  let elements ← .of v.elements
  match ← .here fun path => select path none elements with
  | .undecided => .of (Value.unknown target).refineNotNull
  | .variant name part =>
    walk.convertVariant conversions target name part (.notAVariant name) site

/-- Applies a rule to a value that is known and not null, as `Rule.apply`. -/
def applyRule (walk : Walker) (rule : Rule Conversion) (target : Ty) (v : Value)
    (site : List Nat) : Walk Value :=
  match rule with
  | .keep | .decideLater => return v
  | .primitive rule => .here fun path => rule.apply v path
  | .object attributes absent => do
    let converted ← walk.convertNamed attributes (fun name _ => .attr name) v site
    return .object (converted ++ Entries.mapValues Value.null absent)
  | .tuple elements => do return .tuple (← walk.convertTuple elements v site)
  | .collection kind mode element wanted => do
    let _ ← .of v.size
    if kind = .map then walk.convertEntries mode element wanted v site
    else walk.convertItems kind mode element wanted v site
  | .gather kind mode elements wanted => do
    let values ← walk.convertTuple elements v site
    if values.isEmpty then return emptyCollection kind wanted wanted.withoutOptional
    let values ← walk.homogenize kind mode site values
    .of (if kind = .set then Value.set values else Value.list values)
  | .emptyMap wanted => return .emptyMap wanted
  | .entries mode attributes => do
    let converted ← walk.convertNamed attributes (fun _ key => .index key) v site
    let values ← walk.homogenize .map mode site (Entries.values converted)
    .of (Value.map ((Entries.names converted).zip values))
  | .pick conversions attributes optional => do
    let converted ← walk.convertNamed conversions (fun _ key => .index key) v site
    let missing ← .here fun path => missingAttributes converted optional path attributes
    return .object (converted ++ missing)
  | .union variants => do
    let (name, part) ← .of v.variant
    walk.convertVariant variants target name part (.variantRefused name) site
  | .select variants => walk.convertSelection variants target v site
  | .intoCapsule accept => do
    let native ← .here fun path => accept v path
    .of (Value.capsule target ⟨native, site⟩)
  | .outOfCapsule offer => do
    let payload ← .of (v.payload "capsule_payload")
    let converted ← .here fun path => offer payload.native path
    if converted.ty.conforms target then return converted
    else throw (.fault (.capsuleConversion target converted.ty))

/-- Plans anew with the type of a value that is known and not null, and converts the value. -/
def convertDecided (walk : Walker) (v : Value) (target : Ty) (site : List Nat) : Walk Value :=
  match Rule.between? .lenient v.ty target with
  | some rule => walk.applyRule rule target v site
  | none => .fail (.mismatch v.ty target)

/-- Converts a value that is known and not null. -/
def applyDecided (walk : Walker) (rule : Rule Conversion) (target : Ty) (v : Value)
    (site : List Nat) : Walk Value :=
  match rule with
  | .decideLater => (walk.convertDecided v target site).apart
  | rule => walk.applyRule rule target v site

end Walker

namespace Conversion

variable [Host]

/-- Converts a value with a way to convert its parts. -/
def walkWith (walk : Walker) (c : Conversion) (v : Value) (site : List Nat) : Walk Value :=
  match c with
  | .forget => return Value.dynamic.withMarks v.marks
  | .toward target rule =>
    if target = .dynamic then return v
    else
      let converted : Walk Value :=
        if !v.isKnown then .of (v.unmark.convertUnknown target)
        else if v.isNull then pure (.null (v.ty.converted target))
        else walk.applyDecided rule target v.unmark site
      do return (← converted).withMarks v.marks

/-- Converts a value along the path. Parts are less high than the value, as for
`Conversion.run`. -/
def walk (c : Conversion) (v : Value) (site : List Nat) : Walk Value :=
  c.walkWith (fun conversion part site =>
    if part.height < v.height then conversion.walk part site
    else throw (.fault .deepConversion)) v site
termination_by v.height

/-- Converts a value that is found at a path. What is left of the path comes with the result. -/
def convertAt (c : Conversion) (v : Value) (path : Path) (site : List Nat) :
    Except Failure Value × Path :=
  (c.walk v site).start path

/-- Converts a value that is not inside of another one. -/
def convert (c : Conversion) (v : Value) (site : List Nat) : Except Failure Value :=
  (c.convertAt v .root site).1

end Conversion

end ValueAlgebra
