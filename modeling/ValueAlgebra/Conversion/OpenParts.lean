import ValueAlgebra.Conversion.Resolve

/-!
# Filling the open parts of a type

A conversion to a type with `dynamic` parts leaves it to the value what these parts become. A null
or an unknown value has no parts that could tell, so its type does: `Ty.filledFrom` puts the parts
of a source type in the place of the `dynamic` parts of a target. A source that is `dynamic` itself,
or that has no such part, changes nothing.
-/

namespace ValueAlgebra.Ty

/-! ## Parts of a source -/

section

variable [Host]

/-- What types have in common if they can be unified, or else `dynamic`. -/
def common (types : List Ty) : Ty :=
  match Unification.plan? .lenient types with
  | some u => u.target
  | none => .dynamic

/-- What the elements of a list or set are made of. -/
def itemSource : Ty → Ty
  | .list s | .set s => s
  | .tuple sources => common sources
  | _ => .dynamic

/-- What the elements of a map are made of. -/
def entrySource : Ty → Ty
  | .map s => s
  | .object sources _ => common (Entries.values sources)
  | _ => .dynamic

end

/-- What an attribute is made of. -/
def attributeSource (name : String) : Ty → Ty
  | .map s => s
  | .object sources _ => (sources.lookup name).getD .dynamic
  | _ => .dynamic

/-- What a variant is made of. -/
def variantSource (name : String) : Ty → Ty
  | .union sources => (sources.lookup name).getD .dynamic
  | _ => .dynamic

/-- What the elements of a tuple of some length are made of. -/
def itemSources (length : Nat) : Ty → List Ty
  | .tuple sources => if sources.length = length then sources else []
  | _ => []

/-! ## Filling -/

variable [Host]

mutual

/-- A type whose open parts are replaced by the parts of a source type, as far as it has them. -/
def filledFrom : Ty → Ty → Ty
  | .dynamic, source => source
  | .list e, source => .list (e.filledFrom source.itemSource)
  | .set e, source => .set (e.filledFrom source.itemSource)
  | .map e, source => .map (e.filledFrom source.entrySource)
  | .object attributes optional, source => .object (fillAttributes attributes source) optional
  | .tuple elements, source => .tuple (fillItems elements (source.itemSources elements.length))
  | .union variants, source => .union (fillVariants variants source)
  | t, _ => t

/-- Attributes whose open parts are replaced by those of a source type. -/
def fillAttributes : List (String × Ty) → Ty → List (String × Ty)
  | [], _ => []
  | (name, t) :: ts, source =>
    (name, t.filledFrom (source.attributeSource name)) :: fillAttributes ts source

/-- Variants whose open parts are replaced by those of a source type. -/
def fillVariants : List (String × Ty) → Ty → List (String × Ty)
  | [], _ => []
  | (name, t) :: ts, source =>
    (name, t.filledFrom (source.variantSource name)) :: fillVariants ts source

/-- Elements of a tuple whose open parts are replaced by those of source types one by one. -/
def fillItems : List Ty → List Ty → List Ty
  | [], _ => []
  | t :: ts, sources => t.filledFrom (sources.headD .dynamic) :: fillItems ts sources.tail

end

end ValueAlgebra.Ty
