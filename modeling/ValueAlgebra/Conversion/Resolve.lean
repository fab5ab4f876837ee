import ValueAlgebra.Capsule
import ValueAlgebra.Conversion.Plan
import ValueAlgebra.Ty.Preference
import ValueAlgebra.Ty.Weight

/-!
# Planning conversions and unifying types

`Conversion.plan?` finds the conversion from one type to another. `Unification.plan?` finds a type
for all of some types, and the conversions into it. Each needs the other: a structure becomes a
collection of unknown element type by unifying the types of its parts, and types are unified where
they all convert into one.

Both end because the types they look at get lighter. The weight of the target does not matter.
-/

namespace ValueAlgebra

/-! ## Rules without parts -/

/-- The conversions between primitive types. Every primitive has a form as a string. -/
def PrimitiveRule.between? (mode : Mode) : Ty → Ty → Option PrimitiveRule
  | .number, .string => some .numberToString
  | .bool, .string => some .boolToString
  | .string, .number => if mode = .lenient then some .stringToNumber else none
  | .string, .bool => if mode = .lenient then some .stringToBool else none
  | _, _ => none

namespace CapsuleType

variable [Host]

/-- How a value of a type becomes a native value of a capsule type, if that accepts the type. -/
def accepting? (c : CapsuleType) (source : Ty) :
    Option (Value → Path → Except Failure Native) :=
  c.operations.conversionFrom.bind fun accepts => accepts source

/-- How a native value of a capsule type becomes a value of a type, if that is offered. -/
def offering? (c : CapsuleType) (target : Ty) :
    Option (Native → Path → Except Failure Value) :=
  c.operations.conversionTo.bind fun offers => offers target

end CapsuleType

/-- The conversions that capsule types provide. The target is asked before the source. -/
def Rule.ofCapsules? [Host] {γ : Type} (mode : Mode) (source target : Ty) : Option (Rule γ) :=
  let into? : Option (Rule γ) := match target with
    | .capsule c => (c.accepting? source).map .intoCapsule
    | _ => none
  let outOf? : Option (Rule γ) := match source with
    | .capsule c => (c.offering? target).map .outOfCapsule
    | _ => none
  if mode = .lenient then into?.orElse fun _ => outOf? else none

/-- The collection type of an element type. -/
def CollectionKind.type : CollectionKind → Ty → Ty
  | .list, e => .list e
  | .set, e => .set e
  | .map, e => .map e

/-! ## Mixtures of types -/

/-- What kinds of types there are among some types. -/
inductive Mixture where
  /-- Collections or structures of one kind, and `dynamic`. Nothing can be said about the type that
  all will have. -/
  | undecided
  | collections (kind : CollectionKind)
  | mapsAndObjects
  | objects
  | tuples
  /-- Objects and tuples, which have nothing in common. -/
  | incompatible
  | others
deriving DecidableEq, Repr

/-- Whether all of some types are of a kind or `dynamic`, and not all of them are `dynamic`. -/
def Mixture.isOnly (kind : Ty → Bool) (types : List Ty) : Bool :=
  types.any kind && types.all fun t => kind t || t.isDynamic

def Mixture.of (types : List Ty) : Mixture :=
  let settled (mixture : Mixture) := if types.any Ty.isDynamic then .undecided else mixture
  if isOnly Ty.isMap types then settled (.collections .map)
  else if types.any Ty.isMap && types.all (fun t => t.isMap || t.isObject) then .mapsAndObjects
  else if isOnly Ty.isList types then settled (.collections .list)
  else if isOnly Ty.isSet types then settled (.collections .set)
  else if isOnly Ty.isObject types then settled .objects
  else if isOnly Ty.isTuple types then settled .tuples
  else if types.any Ty.isObject && types.any Ty.isTuple then .incompatible
  else .others

/-- The attribute names of an object type. -/
def Ty.attributeNames : Ty → List String
  | .object attributes _ => Entries.names attributes
  | _ => []

/-- The number of elements of a tuple type. -/
def Ty.itemCount : Ty → Nat
  | .tuple elements => elements.length
  | _ => 0

/-! ## Plans -/

variable [Host]

mutual

/-- The rule of the conversion from one type to another. -/
def Rule.between? (mode : Mode) (source target : Ty) : Option (Rule Conversion) :=
  if target = .dynamic then some .keep
  else if source = .dynamic then
    if mode = .lenient then some .decideLater else none
  else if source = target then some .keep
  else
    match source, target with
    | .object sources _, .object targets optional =>
      (Conversion.planObject? mode sources optional targets).map fun plans =>
        .object plans.1 plans.2
    | .tuple sources, .tuple targets => (Conversion.planEach? mode sources targets).map .tuple
    | .list source, .list wanted | .set source, .list wanted =>
      (Conversion.plan? mode source wanted).map fun element =>
        .collection .list mode element wanted
    | .list source, .set wanted =>
      if mode = .lenient then
        (Conversion.plan? mode source wanted).map fun element =>
          .collection .set mode element wanted
      else none
    | .set source, .set wanted =>
      (Conversion.plan? mode source wanted).map fun element =>
        .collection .set mode element wanted
    | .map source, .map wanted =>
      (Conversion.plan? mode source wanted).map fun element =>
        .collection .map mode element wanted
    | .tuple sources, .list wanted => Rule.gathering? mode .list sources wanted
    | .tuple sources, .set wanted => Rule.gathering? mode .set sources wanted
    | .object sources _, .map wanted => Rule.ofEntries? mode sources wanted
    | .map source, .object targets optional =>
      if mode = .lenient then
        (Conversion.planFrom? source targets).map fun plans => .pick plans targets optional
      else none
    | .union sources, .union targets =>
      (Conversion.planNamed? mode targets sources).map .union
    | .object sources _, .union targets =>
      if mode = .lenient ∧ sources ≠ [] then
        (Conversion.planNamed? mode targets sources).map .select
      else none
    | source, target =>
      ((PrimitiveRule.between? mode source target).map .primitive).orElse fun _ =>
        Rule.ofCapsules? mode source target
termination_by (2 * source.weight, 0)
decreasing_by
  all_goals
    simp only [Ty.weight, Prod.lex_def]
    omega

/-- A conversion from one type to another. -/
def Conversion.plan? (mode : Mode) (source target : Ty) : Option Conversion :=
  (Rule.between? mode source target).map (.toward target)
termination_by (2 * source.weight, 1)
decreasing_by simp [Prod.lex_def]

/-- Conversions of some types into one. -/
def Conversion.planAll? (mode : Mode) (target : Ty) : List Ty → Option (List Conversion)
  | [] => some []
  | source :: sources => do
    let plan ← Conversion.plan? mode source target
    let plans ← Conversion.planAll? mode target sources
    return plan :: plans
termination_by sources => (2 * Ty.weightAll sources + 1, sources.length)
decreasing_by
  all_goals
    have := Ty.weight_pos source
    simp only [Ty.weightAll, Prod.lex_def]
    omega

/-- Conversions of as many types as there are targets, one by one. -/
def Conversion.planEach? (mode : Mode) : List Ty → List Ty → Option (List Conversion)
  | [], [] => some []
  | source :: sources, target :: targets => do
    let plan ← Conversion.plan? mode source target
    let plans ← Conversion.planEach? mode sources targets
    return plan :: plans
  | _, _ => none
termination_by sources => (2 * Ty.weightAll sources + 1, sources.length)
decreasing_by
  all_goals
    have := Ty.weight_pos source
    simp only [Ty.weightAll, Prod.lex_def]
    omega

/-- Conversions of named types into one. -/
def Conversion.planEntries? (mode : Mode) (target : Ty) :
    List (String × Ty) → Option (List (String × Conversion))
  | [] => some []
  | (name, source) :: sources => do
    let plan ← Conversion.plan? mode source target
    let plans ← Conversion.planEntries? mode target sources
    return (name, plan) :: plans
termination_by sources => (2 * Ty.weightEntries sources + 1, sources.length)
decreasing_by
  all_goals
    have := Ty.weight_pos source
    simp only [Ty.weightEntries, Prod.lex_def]
    omega

/-- Conversions of named types, each into the target of its name. -/
def Conversion.planNamed? (mode : Mode) (targets : List (String × Ty)) :
    List (String × Ty) → Option (List (String × Conversion))
  | [] => some []
  | (name, source) :: sources => do
    let target ← targets.lookup name
    let plan ← Conversion.plan? mode source target
    let plans ← Conversion.planNamed? mode targets sources
    return (name, plan) :: plans
termination_by sources => (2 * Ty.weightEntries sources + 1, sources.length)
decreasing_by
  all_goals
    have := Ty.weight_pos source
    simp only [Ty.weightEntries, Prod.lex_def]
    omega

/-- Conversions of one type into named targets. -/
def Conversion.planFrom? (source : Ty) :
    List (String × Ty) → Option (List (String × Conversion))
  | [] => some []
  | (name, target) :: targets => do
    let plan ← Conversion.plan? .lenient source target
    let plans ← Conversion.planFrom? source targets
    return (name, plan) :: plans
termination_by targets => (2 * source.weight + 1, targets.length)
decreasing_by
  all_goals
    simp only [List.length_cons, Prod.lex_def, true_and]
    omega

/-- Conversions for the attributes of an object, and the attributes that are left out. -/
def Conversion.planObject? (mode : Mode) (sources : List (String × Ty)) (optional : List String) :
    List (String × Ty) → Option (List (String × Conversion) × List (String × Ty))
  | [] => some ([], [])
  | (name, target) :: targets =>
    match _ : sources.lookup name with
    | some source => do
      let plan ← Conversion.plan? mode source target
      let (plans, absent) ← Conversion.planObject? mode sources optional targets
      return ((name, plan) :: plans, absent)
    | none =>
      if optional.contains name then do
        let (plans, absent) ← Conversion.planObject? mode sources optional targets
        return (plans, (name, target.withoutOptional) :: absent)
      else none
termination_by targets => (2 * Ty.weightEntries sources + 1, targets.length)
decreasing_by
  · have := Ty.weight_le_of_lookup ‹sources.lookup name = some source›
    simp only [Prod.lex_def]
    omega
  all_goals
    simp only [List.length_cons, Prod.lex_def, true_and]
    omega

/-- The rule from a tuple to a list or set. Where the wanted element type is open, the types of the
elements are unified. Only a tuple all of whose elements are of open type gives a collection of
open element type. -/
def Rule.gathering? (mode : Mode) (kind : CollectionKind) (sources : List Ty) (wanted : Ty) :
    Option (Rule Conversion) := do
  let wanted ←
    if wanted.isDynamic && !sources.isEmpty then
      match Unification.plan? mode sources with
      | some u =>
        if u.target.isDynamic && !sources.all Ty.isDynamic then none else some u.target
      | none => none
    else some wanted
  let plans ← Conversion.planAll? mode wanted sources
  return .gather kind mode plans wanted
termination_by (2 * Ty.weightAll sources + 1, sources.length + 4)
decreasing_by
  all_goals
    simp only [Prod.lex_def, true_and]
    omega

/-- The rule from an object to a map. Where the wanted element type is open, the types of the
attributes are unified. -/
def Rule.ofEntries? (mode : Mode) (sources : List (String × Ty)) (wanted : Ty) :
    Option (Rule Conversion) :=
  if sources.isEmpty then some (.emptyMap wanted.withoutOptional)
  else do
    let wanted ←
      if wanted.isDynamic then
        (Unification.plan? mode (Entries.values sources)).map Unification.target
      else some wanted
    let plans ← Conversion.planEntries? mode wanted sources
    return .entries mode plans
termination_by (2 * Ty.weightEntries sources + 1, sources.length + 4)
decreasing_by
  all_goals
    have := Ty.weightAll_values sources
    have : (Entries.values sources).length = sources.length := List.length_map _
    simp only [Prod.lex_def, true_and]
    omega

/-- Conversions of some types into a target. A type that is the target needs none. -/
def Unification.conversionsInto? (mode : Mode) (target : Ty) :
    List Ty → Option (List (Option Conversion))
  | [] => some []
  | source :: sources => do
    let plan ←
      if source = target then some none else (Conversion.plan? mode source target).map some
    let plans ← Unification.conversionsInto? mode target sources
    return plan :: plans
termination_by sources => (2 * Ty.weightAll sources + 1, sources.length)
decreasing_by
  all_goals
    have := Ty.weight_pos source
    simp only [Ty.weightAll, Prod.lex_def]
    omega

/-- The unification of some types in a target. -/
def Unification.into? (mode : Mode) (types : List Ty) (target : Ty) : Option Unification :=
  (Unification.conversionsInto? mode target types).map fun plans => ⟨target, plans⟩
termination_by (2 * Ty.weightAll types + 1, types.length + 1)
decreasing_by
  simp only [Prod.lex_def, true_and]
  omega

/-- The unification of some types in the first of them, from the most general one on, that all
others convert to. -/
def Unification.inOneOf? (mode : Mode) (types : List Ty) : Option Unification :=
  (Ty.preferenceOrder types).findSome? fun i =>
    types[i]?.bind fun t => Unification.into? mode types t
termination_by (2 * Ty.weightAll types + 1, types.length + 2)
decreasing_by
  simp only [Prod.lex_def, true_and]
  omega

/-- The type that parts of some types have in common. -/
def Unification.ofParts? (mode : Mode) (parts : Ty.Parts) (first : Ty) (rest : List Ty) :
    Option Ty :=
  (Unification.plan? mode (parts.all (first :: rest))).map fun u => u.target
termination_by (2 * Ty.weightAll (first :: rest) + 1, 0)
decreasing_by
  have := parts.weightAll_all_lt first rest
  simp only [Prod.lex_def]
  omega

/-- The unification of some types in a collection of what parts of them have in common. -/
def Unification.inCollection? (mode : Mode) (kind : CollectionKind) (parts : Ty.Parts) (first : Ty)
    (rest : List Ty) : Option Unification := do
  let e ← Unification.ofParts? mode parts first rest
  Unification.into? mode (first :: rest) (kind.type e)
termination_by (2 * Ty.weightAll (first :: rest) + 1, rest.length + 3)
decreasing_by
  all_goals
    simp only [List.length_cons, Prod.lex_def, true_and]
    omega

/-- A type that all of some types convert to. Types of one kind give a type of this kind, whose
parts are unified. Objects with different attributes give a map and tuples of different lengths a
list. Other types give the most general one of them that all others convert to. -/
def Unification.plan? (mode : Mode) : List Ty → Option Unification
  | [] => some ⟨.dynamic, []⟩
  | first :: rest =>
    if first.isDynamic && rest.all Ty.isDynamic || rest.all (fun t => t == first) then
      some ⟨first, (first :: rest).map fun _ => none⟩
    else
      match Mixture.of (first :: rest) with
      | .undecided => some ⟨.dynamic, (first :: rest).map fun _ => some .forget⟩
      | .collections kind => Unification.inCollection? mode kind Ty.elementPart first rest
      | .mapsAndObjects =>
        (Unification.inCollection? mode .map Ty.entryParts first rest).orElse fun _ =>
          Unification.inOneOf? mode (first :: rest)
      | .objects =>
        if rest.all fun t => t.attributeNames == first.attributeNames then do
          let attributes ← first.attributeNames.mapM fun name =>
            (Unification.ofParts? mode (Ty.attributePart name) first rest).map fun a => (name, a)
          (Unification.into? mode (first :: rest) (.object attributes [])).orElse fun _ =>
            Unification.inCollection? mode .map Ty.entryParts first rest
        else Unification.inCollection? mode .map Ty.entryParts first rest
      | .tuples =>
        if rest.all fun t => t.itemCount == first.itemCount then do
          let elements ← (List.range first.itemCount).mapM fun i =>
            Unification.ofParts? mode (Ty.itemPart i) first rest
          (Unification.into? mode (first :: rest) (.tuple elements)).orElse fun _ =>
            Unification.inCollection? mode .list Ty.itemParts first rest
        else Unification.inCollection? mode .list Ty.itemParts first rest
      | .incompatible => none
      | .others => Unification.inOneOf? mode (first :: rest)
termination_by types => (2 * Ty.weightAll types + 1, types.length + 3)
decreasing_by
  all_goals
    simp only [List.length_cons, Prod.lex_def, true_and]
    omega

end

end ValueAlgebra
