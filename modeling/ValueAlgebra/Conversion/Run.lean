import ValueAlgebra.Conversion.OpenParts
import ValueAlgebra.Value.Access
import ValueAlgebra.Value.Height

/-!
# Running conversions

`Conversion.run` carries out a planned conversion on a value that is found at some path. Marks pass
from a value to the result. Nulls and unknowns take the type that the conversion gives to values of
their type. What happens to other values is the rule of the plan: mostly, parts are converted and
put together again.

Where the elements of a collection turn out to have different types, since the wanted type leaves
them open, their types are unified and the elements are converted a second time.

`Value.convert` plans and runs at once, and complains of a mismatch where there is no conversion.
-/

namespace ValueAlgebra

open Text

/-- A way to run the conversions of parts: of a value that is found at a path. The last argument
tells this place in the run from all others, which gives new capsules an identity of their own. -/
abbrev Runner :=
  Conversion → Value → Path → List Nat → Except Failure Value

/-- A part of a value and how it is to be converted. -/
structure PartPlan where
  conversion : Conversion
  part : Value
  path : Path

/-- Converts parts one by one. -/
def Runner.runAll (run : Runner) (site : List Nat) (plans : List PartPlan) :
    Except Failure (List Value) :=
  plans.zipIdx.mapM fun (p, i) => run p.conversion p.part p.path ((2 * i) :: site)

/-- Converts values at one path one by one. A value without a conversion stays. -/
def Runner.runSecond (run : Runner) (path : Path) (site : List Nat)
    (values : List (Value × Option Conversion)) : Except Failure (List Value) :=
  values.zipIdx.mapM fun ((v, conversion?), i) =>
    match conversion? with
    | some c => run c v path ((2 * i + 1) :: site)
    | none => .ok v

/-! ## Nulls and unknowns -/

variable [Host]

/-- The type that nulls and unknowns of a type get when they are converted. -/
def Ty.converted (source target : Ty) : Ty :=
  (target.filledFrom source).withoutOptional

/-- The bounds of the number of elements that an unknown value has as a collection. -/
def Value.lengthBounds? (v : Value) : Option (Nat × Option Nat) :=
  match v.ty with
  | .list _ | .set _ | .map _ =>
    some (v.range.refinement.minLength, v.range.refinement.maxLength)
  | .tuple elements => some (elements.length, some elements.length)
  | .object attributes _ => some (attributes.length, some attributes.length)
  | _ => none

/-- An unknown of the target type that keeps what is known about null and about the number of
elements. The elements of a set may turn out to be equal. -/
def Value.convertUnknown (v : Value) (target : Ty) : Except Fault Value := do
  let t := v.ty.converted target
  if v.ty.isDynamic || t.isDynamic then return .unknown t
  let s := (Value.unknown t).refine
  let s ← if v.range.definitelyNotNull then s.notNull else pure s
  match t.isCollection, v.lengthBounds? with
  | true, some (lower, upper?) =>
    let s ← s.lengthAtLeast (if t.isSet then min lower 1 else lower)
    let s ← match upper? with
      | some upper => s.lengthAtMost upper
      | none => pure s
    s.result
  | _, _ => s.result

/-! ## Primitive values -/

/-- The bool that a text stands for. -/
def boolOfText (s : String) (path : Path) : Except Failure Value :=
  if s = "true" ∨ s = "1" then .ok (.bool true)
  else if s = "false" ∨ s = "0" then .ok (.bool false)
  else if s.map Char.toLower = "true" then path.fail (.lowercaseRequired true)
  else if s.map Char.toLower = "false" then path.fail (.lowercaseRequired false)
  else path.fail .boolRequired

/-- The number that a text stands for. -/
def numberOfText (s : String) (path : Path) : Except Failure Value :=
  match Value.parseNumber s with
  | .ok v => .ok v
  | .error .exponentOverflow => .error (.fault .exponentOverflow)
  | .error _ => path.fail .numberRequired

/-- Converts a primitive value. -/
def PrimitiveRule.apply (rule : PrimitiveRule) (v : Value) (path : Path) : Except Failure Value :=
  match rule with
  | .numberToString => orFailure (v.asNumber.map fun n => .string n.render)
  | .boolToString => orFailure (v.asBool.map fun b => .string (if b then "true" else "false"))
  | .stringToNumber => do numberOfText (← orFailure v.asString) path
  | .stringToBool => do boolOfText (← orFailure v.asString) path

/-! ## Collections -/

/-- Elements of one type. Elements of different types are converted to what their types have in
common. -/
def homogenize (run : Runner) (kind : CollectionKind) (mode : Mode) (path : Path)
    (site : List Nat) (values : List Value) : Except Failure (List Value) :=
  if (Value.commonType? values).isSome then .ok values
  else
    match Unification.plan? mode (Value.types values) with
    | none => path.fail (.elementsDiffer kind)
    | some u => do
      let values ← run.runSecond path site (values.zip u.conversions)
      if (Value.commonType? values).isSome then return values
      else path.fail (.elementsDiffer kind)

/-- The elements of a value with their names. -/
def Value.namedElements (v : Value) : Except Failure (List (String × Value × Value)) := do
  let elements ← orFailure v.elements
  elements.mapM fun (key, part) => orFailure (key.asString.map fun name => (name, key, part))

/-- An empty collection. Where the wanted element type is open, the source gives it. -/
def emptyCollection (kind : CollectionKind) (wanted source : Ty) : Value :=
  let e := if wanted = .dynamic then source else wanted.withoutOptional
  match kind with
  | .list => .emptyList e
  | .set => .emptySet e
  | .map => .emptyMap e

/-- Converts the elements of a collection into a list or set. -/
def convertItems (run : Runner) (kind : CollectionKind) (mode : Mode) (element : Conversion)
    (wanted : Ty) (v : Value) (path : Path) (site : List Nat) : Except Failure Value := do
  let elements ← orFailure v.elements
  let values ← run.runAll site (elements.map fun (key, part) =>
    ⟨element, part, path.index (if kind = .set then .unknown wanted else key)⟩)
  if values.isEmpty then
    return emptyCollection kind wanted (← orFailure v.ty.elementType)
  let values ← homogenize run kind mode path site values
  if kind = .set then Value.set values else Value.list values

/-- Converts the elements of a map. -/
def convertEntries (run : Runner) (mode : Mode) (element : Conversion) (wanted : Ty) (v : Value)
    (path : Path) (site : List Nat) : Except Failure Value := do
  let elements ← v.namedElements
  let values ← run.runAll site (elements.map fun (_, key, part) =>
    ⟨element, part, path.index key⟩)
  if values.isEmpty then
    return emptyCollection .map wanted (← orFailure v.ty.elementType)
  let values ← homogenize run .map mode path site values
  Value.map ((elements.map (·.1)).zip values)

/-! ## Structures -/

/-- Converts as many elements of a tuple as there are conversions. -/
def convertTuple (run : Runner) (conversions : List Conversion) (v : Value) (path : Path)
    (site : List Nat) : Except Failure (List Value) := do
  let elements ← orFailure v.elements
  run.runAll site ((elements.zip conversions).map fun ((key, part), conversion) =>
    ⟨conversion, part, path.index key⟩)

/-- Converts the parts for which there is a conversion of their name. -/
def convertNamed (run : Runner) (conversions : List (String × Conversion))
    (locate : String → Value → Path) (v : Value) (site : List Nat) :
    Except Failure (List (String × Value)) := do
  let elements ← v.namedElements
  let plans := elements.filterMap fun (name, key, part) =>
    (conversions.lookup name).map fun conversion =>
      (name, PartPlan.mk conversion part (locate name key))
  let values ← run.runAll site (plans.map (·.2))
  return (plans.map (·.1)).zip values

/-- Nulls for the attributes of an object that a map has no element for. -/
def missingAttributes (found : List (String × Value)) (optional : List String) (path : Path) :
    List (String × Ty) → Except Failure (List (String × Value))
  | [] => .ok []
  | (name, t) :: ts => do
    if Entries.contains name found then missingAttributes found optional path ts
    else if optional.contains name then
      let rest ← missingAttributes found optional path ts
      return (name, .null t.withoutOptional) :: rest
    else path.fail (.missingAttribute name)

/-! ## Unions -/

/-- Which attribute of an object selects a variant. -/
inductive Selection where
  /-- An attribute is unknown. -/
  | undecided
  | variant (name : String) (part : Value)

/-- Looks for the one attribute that is not null. -/
def select (path : Path) :
    Option (String × Value) → List (Value × Value) → Except Failure Selection
  | none, [] => path.fail .noVariantChosen
  | some (name, part), [] => .ok (.variant name part)
  | chosen, (key, part) :: elements =>
    if !part.isKnown then .ok .undecided
    else if part.isNull then select path chosen elements
    else do
      let name ← orFailure key.asString
      match chosen with
      | some (first, _) => path.fail (.variantsClash first name)
      | none => select path (some (name, part)) elements

/-- Converts what a variant holds. -/
def convertVariant (run : Runner) (conversions : List (String × Conversion)) (target : Ty)
    (name : String) (part : Value) (complaint : Complaint) (path : Path) (site : List Nat) :
    Except Failure Value :=
  match conversions.lookup name with
  | none => path.fail complaint
  | some conversion => do
    let inner ← run conversion part (path.attr name) (0 :: site)
    Value.union target name inner

/-- Converts the one attribute of an object that is not null. -/
def convertSelection (run : Runner) (conversions : List (String × Conversion)) (target : Ty)
    (v : Value) (path : Path) (site : List Nat) : Except Failure Value := do
  match ← select path none (← orFailure v.elements) with
  | .undecided => (Value.unknown target).refineNotNull
  | .variant name part =>
    convertVariant run conversions target name part (.notAVariant name) path site

/-! ## Running -/

/-- Applies a rule to a value that is known and not null, on the way to a target type. A value whose
type is known leaves nothing to decide later. -/
def Rule.apply (run : Runner) (rule : Rule Conversion) (target : Ty) (v : Value) (path : Path)
    (site : List Nat) : Except Failure Value :=
  match rule with
  | .keep | .decideLater => .ok v
  | .primitive rule => rule.apply v path
  | .object attributes absent => do
    let converted ← convertNamed run attributes (fun name _ => path.attr name) v site
    return .object (converted ++ Entries.mapValues Value.null absent)
  | .tuple elements => do return .tuple (← convertTuple run elements v path site)
  | .collection kind mode element wanted => do
    let _ ← orFailure v.size
    if kind = .map then convertEntries run mode element wanted v path site
    else convertItems run kind mode element wanted v path site
  | .gather kind mode elements wanted => do
    let values ← convertTuple run elements v path site
    if values.isEmpty then return emptyCollection kind wanted wanted.withoutOptional
    let values ← homogenize run kind mode path site values
    if kind = .set then Value.set values else Value.list values
  | .emptyMap wanted => .ok (.emptyMap wanted)
  | .entries mode attributes => do
    let converted ← convertNamed run attributes (fun _ key => path.index key) v site
    let values ← homogenize run .map mode path site (Entries.values converted)
    Value.map ((Entries.names converted).zip values)
  | .pick conversions attributes optional => do
    let converted ← convertNamed run conversions (fun _ key => path.index key) v site
    let missing ← missingAttributes converted optional path attributes
    return .object (converted ++ missing)
  | .union variants => do
    let (name, part) ← orFailure v.variant
    convertVariant run variants target name part (.variantRefused name) path site
  | .select variants => convertSelection run variants target v path site
  | .intoCapsule accept => do
    let native ← accept v path
    Value.capsule target ⟨native, site⟩
  | .outOfCapsule offer => do
    let payload ← orFailure (v.payload "capsule_payload")
    let converted ← offer payload.native path
    if converted.ty.conforms target then return converted
    else throw (.fault (.capsuleConversion target converted.ty))

/-- Plans anew with the type of a value that is known and not null, and converts the value. -/
def Value.convertDecided (run : Runner) (v : Value) (target : Ty) (site : List Nat) :
    Except Failure Value :=
  match Rule.between? .lenient v.ty target with
  | some rule => rule.apply run target v .root site
  | none => Path.root.fail (.mismatch v.ty target)

/-- Converts a value that is known and not null. What is decided later is a conversion of its own,
which knows nothing of the way to the value. -/
def Rule.applyDecided (run : Runner) (rule : Rule Conversion) (target : Ty) (v : Value)
    (path : Path) (site : List Nat) : Except Failure Value :=
  match rule with
  | .decideLater => (v.convertDecided run target site).mapError (Failure.under path)
  | rule => rule.apply run target v path site

/-- Runs a conversion with a way to run those of parts. -/
def Conversion.runWith (run : Runner) (c : Conversion) (v : Value) (path : Path)
    (site : List Nat) : Except Failure Value :=
  match c with
  | .forget => .ok (Value.dynamic.withMarks v.marks)
  | .toward target rule =>
    if target = .dynamic then .ok v
    else
      let converted : Except Failure Value :=
        if !v.isKnown then orFailure (v.unmark.convertUnknown target)
        else if v.isNull then .ok (.null (v.ty.converted target))
        else rule.applyDecided run target v.unmark path site
      converted.map fun w => w.withMarks v.marks

/-- Runs a conversion on a value that is found at a path. Parts are less high than the value, and
conversions make no part higher than it was, unless a capsule becomes a deeply nested value. -/
def Conversion.run (c : Conversion) (v : Value) (path : Path) (site : List Nat) :
    Except Failure Value :=
  c.runWith (fun conversion part path site =>
    if part.height < v.height then conversion.run part path site
    else .error (.fault .deepConversion)) v path site
termination_by v.height

/-- Converts a value to a type. -/
def Value.convert (v : Value) (target : Ty) (site : List Nat) : Except Failure Value :=
  if v.ty = target then .ok v
  else
    match Conversion.plan? .lenient v.ty target with
    | some c => c.run v .root site
    | none => Path.root.fail (.mismatch v.ty target)

end ValueAlgebra
