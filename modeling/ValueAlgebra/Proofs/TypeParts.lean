import ValueAlgebra.Proofs.Names
import ValueAlgebra.Ty.Weight

/-!
# Properties of all parts of a type

`Ty.components` lists the types that a type is directly made of, and `Ty.induction` is induction
over them. `Ty.Everywhere p` says that a type and all types inside it have a property `p`. The
properties of types that matter for conversions are of this form: names in canonical form, no
optional attributes, no dynamic parts.

A property is structural (`Ty.Structural`) where it hangs on the head of a type alone: on its kind,
the names of its parts and their number. Of the variants of a union it may ask, too, that none of
their attributes is optional.

Main statements:

* `Ty.withoutOptional_eq_self_iff`: requiring every attribute changes nothing where none is
  optional.
* `Ty.hasDynamic_eq_false_iff`: a type without dynamic parts is nowhere `dynamic`.
* `Ty.Everywhere.withoutOptional`: structural properties survive requiring every attribute.
-/

namespace ValueAlgebra.Ty

/-! ## Components -/

/-- The types that a type is directly made of. -/
def components : Ty → List Ty
  | .list e | .set e | .map e => [e]
  | .object attributes _ => Entries.values attributes
  | .tuple elements => elements
  | .union variants => Entries.values variants
  | _ => []

theorem weight_lt_of_mem_components {s t : Ty} (h : s ∈ t.components) : s.weight < t.weight := by
  cases t with
  | list e | set e | map e =>
    rw [components, List.mem_singleton] at h
    simp [weight, h]
  | object as _ | union as =>
    have := weight_le_of_mem h
    simp only [components, weightAll_values] at this
    simp only [weight]
    omega
  | tuple ts =>
    have := weight_le_of_mem h
    simp only [components] at this
    simp only [weight]
    omega
  | number | string | bool | dynamic | capsule => simp [components] at h

/-- Induction over the components of types. -/
theorem induction {motive : Ty → Prop}
    (step : ∀ t, (∀ s ∈ t.components, motive s) → motive t) (t : Ty) : motive t := by
  refine step t fun s hs => ?_
  have := weight_lt_of_mem_components hs
  exact induction step s
termination_by t.weight

/-! ## Properties of a type and all types inside it -/

/-- A property of a type and of all types inside it. -/
inductive Everywhere (p : Ty → Prop) : Ty → Prop where
  | intro {t : Ty} (here : p t) (inside : ∀ s ∈ t.components, Everywhere p s) : Everywhere p t

namespace Everywhere

variable {p q : Ty → Prop} {t s : Ty}

theorem here (h : Everywhere p t) : p t := by
  cases h
  assumption

theorem inside (h : Everywhere p t) (hs : s ∈ t.components) : Everywhere p s := by
  cases h with
  | intro _ inside => exact inside s hs

theorem mono (h : Everywhere p t) (hpq : ∀ t, p t → q t) : Everywhere q t := by
  induction h with
  | intro here _ ih => exact .intro (hpq _ here) ih

theorem and (hp : Everywhere p t) (hq : Everywhere q t) : Everywhere (fun t => p t ∧ q t) t := by
  induction hp with
  | intro here _ ih => exact .intro ⟨here, hq.here⟩ fun s hs => ih s hs (hq.inside hs)

theorem ofAttribute {as : List (String × Ty)} {os : List String} {name : String} {a : Ty}
    (h : Everywhere p (.object as os)) (ha : (name, a) ∈ as) : Everywhere p a :=
  h.inside (Entries.mem_values ha)

theorem ofVariant {vs : List (String × Ty)} {name : String} {a : Ty}
    (h : Everywhere p (.union vs)) (ha : (name, a) ∈ vs) : Everywhere p a :=
  h.inside (Entries.mem_values ha)

theorem ofItem {ts : List Ty} (h : Everywhere p (.tuple ts)) (hs : s ∈ ts) : Everywhere p s :=
  h.inside hs

end Everywhere

theorem everywhere_iff {p : Ty → Prop} {t : Ty} :
    Everywhere p t ↔ p t ∧ ∀ s ∈ t.components, Everywhere p s :=
  ⟨fun h => ⟨h.here, fun _ => h.inside⟩, fun h => .intro h.1 h.2⟩

theorem everywhere_leaf {p : Ty → Prop} {t : Ty} (hc : t.components = []) :
    Everywhere p t ↔ p t := by
  rw [everywhere_iff, hc]
  simp

theorem everywhere_list {p : Ty → Prop} {e : Ty} :
    Everywhere p (.list e) ↔ p (.list e) ∧ Everywhere p e := by
  rw [everywhere_iff]
  simp [components]

theorem everywhere_set {p : Ty → Prop} {e : Ty} :
    Everywhere p (.set e) ↔ p (.set e) ∧ Everywhere p e := by
  rw [everywhere_iff]
  simp [components]

theorem everywhere_map {p : Ty → Prop} {e : Ty} :
    Everywhere p (.map e) ↔ p (.map e) ∧ Everywhere p e := by
  rw [everywhere_iff]
  simp [components]

theorem everywhere_object {p : Ty → Prop} {as : List (String × Ty)} {os : List String} :
    Everywhere p (.object as os) ↔ p (.object as os) ∧ ∀ a ∈ Entries.values as, Everywhere p a :=
  everywhere_iff

theorem everywhere_tuple {p : Ty → Prop} {ts : List Ty} :
    Everywhere p (.tuple ts) ↔ p (.tuple ts) ∧ ∀ t ∈ ts, Everywhere p t :=
  everywhere_iff

theorem everywhere_union {p : Ty → Prop} {vs : List (String × Ty)} :
    Everywhere p (.union vs) ↔ p (.union vs) ∧ ∀ a ∈ Entries.values vs, Everywhere p a :=
  everywhere_iff

/-! ## Checks of all types inside a type -/

section

mutual

/-- Whether a type and all types inside it pass a check. -/
def all (p : Ty → Bool) : Ty → Bool
  | .list e => p (.list e) && all p e
  | .set e => p (.set e) && all p e
  | .map e => p (.map e) && all p e
  | .object attributes optional => p (.object attributes optional) && allEntries p attributes
  | .tuple elements => p (.tuple elements) && allItems p elements
  | .union variants => p (.union variants) && allEntries p variants
  | t => p t

def allItems (p : Ty → Bool) : List Ty → Bool
  | [] => true
  | t :: ts => all p t && allItems p ts

def allEntries (p : Ty → Bool) : List (String × Ty) → Bool
  | [] => true
  | (_, t) :: ts => all p t && allEntries p ts

end

variable {p : Ty → Bool}

theorem allItems_iff {ts : List Ty} : allItems p ts = true ↔ ∀ t ∈ ts, all p t = true := by
  induction ts with
  | nil => simp [allItems]
  | cons t ts ih => simp [allItems, ih]

theorem allEntries_iff {ts : List (String × Ty)} :
    allEntries p ts = true ↔ ∀ t ∈ Entries.values ts, all p t = true := by
  induction ts with
  | nil => simp [allEntries]
  | cons t ts ih =>
    obtain ⟨name, t⟩ := t
    simp [allEntries, ih]

theorem all_step {t : Ty} : all p t = true ↔ p t = true ∧ ∀ s ∈ t.components, all p s = true := by
  cases t <;> simp [all, components, allItems_iff, allEntries_iff]

theorem all_iff {t : Ty} : all p t = true ↔ Everywhere (p · = true) t := by
  refine induction (motive := fun t => all p t = true ↔ Everywhere (p · = true) t) ?_ t
  intro t ih
  rw [all_step, everywhere_iff]
  exact and_congr_right fun _ => forall₂_congr ih

/-- What can be checked of a type can be checked of all types inside of it. -/
instance {q : Ty → Prop} [DecidablePred q] (t : Ty) : Decidable (Everywhere q t) :=
  decidable_of_iff (all (fun t => decide (q t)) t = true) (by
    rw [all_iff]
    simp only [decide_eq_true_eq])

end

/-! ## Dynamic parts -/

theorem anyHasDynamic_eq_false {ts : List Ty} :
    anyHasDynamic ts = false ↔ ∀ t ∈ ts, t.hasDynamic = false := by
  induction ts with
  | nil => simp [anyHasDynamic]
  | cons t ts ih => simp [anyHasDynamic, ih]

theorem anyHasDynamicEntry_eq_false {ts : List (String × Ty)} :
    anyHasDynamicEntry ts = false ↔ ∀ t ∈ Entries.values ts, t.hasDynamic = false := by
  induction ts with
  | nil => simp [anyHasDynamicEntry]
  | cons t ts ih =>
    obtain ⟨name, t⟩ := t
    simp [anyHasDynamicEntry, ih]

/-- Dynamic parts of a type are those of its components, unless it is `dynamic`. -/
theorem hasDynamic_eq_false_step {t : Ty} :
    t.hasDynamic = false ↔ t ≠ .dynamic ∧ ∀ s ∈ t.components, s.hasDynamic = false := by
  cases t with
  | object | union => simp [hasDynamic, components, anyHasDynamicEntry_eq_false]
  | tuple => simp [hasDynamic, components, anyHasDynamic_eq_false]
  | _ => simp [hasDynamic, components]

theorem hasDynamic_eq_false_iff {t : Ty} :
    t.hasDynamic = false ↔ Everywhere (· ≠ .dynamic) t := by
  refine induction (motive := fun t => t.hasDynamic = false ↔ Everywhere (· ≠ .dynamic) t) ?_ t
  intro t ih
  rw [hasDynamic_eq_false_step, everywhere_iff]
  exact and_congr_right fun _ => forall₂_congr ih

/-! ## Optional attributes -/

theorem withoutOptionalAll_eq_map (ts : List Ty) :
    withoutOptionalAll ts = ts.map withoutOptional := by
  induction ts with
  | nil => rfl
  | cons t ts ih => rw [withoutOptionalAll, ih, List.map_cons]

theorem withoutOptionalEntries_eq_mapValues (ts : List (String × Ty)) :
    withoutOptionalEntries ts = Entries.mapValues withoutOptional ts := by
  induction ts with
  | nil => rfl
  | cons t ts ih =>
    obtain ⟨name, t⟩ := t
    rw [withoutOptionalEntries, ih]
    rfl

theorem components_withoutOptional (t : Ty) :
    t.withoutOptional.components = t.components.map withoutOptional := by
  cases t <;>
    simp [withoutOptional, components, withoutOptionalAll_eq_map,
      withoutOptionalEntries_eq_mapValues]

/-- The names of the optional attributes of an object type. -/
def optionalNames : Ty → List String
  | .object _ optional => optional
  | _ => []

/-- No attribute is optional, at any depth. -/
def OptionalFree (t : Ty) : Prop :=
  t.Everywhere fun t => t.optionalNames = []

theorem optionalFree_withoutOptional (t : Ty) : t.withoutOptional.OptionalFree := by
  refine induction (motive := fun t => t.withoutOptional.OptionalFree) ?_ t
  intro t ih
  refine .intro ?_ fun s hs => ?_
  · cases t <;> rfl
  · rw [components_withoutOptional] at hs
    obtain ⟨u, hu, rfl⟩ := List.mem_map.1 hs
    exact ih u hu

theorem OptionalFree.withoutOptional_eq {t : Ty} (h : t.OptionalFree) :
    t.withoutOptional = t := by
  induction h with
  | @intro t here _ ih =>
    cases t with
    | list e | set e | map e => simp [withoutOptional, ih e (by simp [components])]
    | object as os =>
      have hos : os = [] := here
      rw [withoutOptional, withoutOptionalEntries_eq_mapValues, Entries.mapValues_eq_self ih, hos]
    | union vs =>
      rw [withoutOptional, withoutOptionalEntries_eq_mapValues, Entries.mapValues_eq_self ih]
    | tuple ts =>
      have : ts.map withoutOptional = ts.map id := List.map_congr_left ih
      rw [withoutOptional, withoutOptionalAll_eq_map, this, List.map_id]
    | number | string | bool | dynamic | capsule => rfl

theorem withoutOptional_eq_self_iff {t : Ty} : t.withoutOptional = t ↔ t.OptionalFree :=
  ⟨fun h => h ▸ optionalFree_withoutOptional t, OptionalFree.withoutOptional_eq⟩

theorem hasDynamic_withoutOptional (t : Ty) : t.withoutOptional.hasDynamic = t.hasDynamic := by
  refine induction (motive := fun t => t.withoutOptional.hasDynamic = t.hasDynamic) ?_ t
  intro t ih
  rw [Bool.eq_iff_iff, ← not_iff_not, Bool.not_eq_true, Bool.not_eq_true, hasDynamic_eq_false_step,
    hasDynamic_eq_false_step, components_withoutOptional]
  refine and_congr ?_ ?_
  · cases t <;> simp [withoutOptional]
  · rw [List.forall_mem_map]
    exact forall₂_congr fun s hs => by rw [ih s hs]

/-! ## Structural properties -/

/-- The names of the parts of a type. -/
def partNames : Ty → List String
  | .object attributes _ => Entries.names attributes
  | .union variants => Entries.names variants
  | _ => []

/-- A property that hangs on the kind of a type and on the names and the number of its parts, and on
whether attributes of variants are optional. It holds of primitives and collections, and it does not
get lost where attributes become required. -/
structure Structural (p : Ty → Prop) : Prop where
  number : p .number
  string : p .string
  bool : p .bool
  list : ∀ e, p (.list e)
  set : ∀ e, p (.set e)
  map : ∀ e, p (.map e)
  object : ∀ {as bs os}, p (.object as os) → Entries.names bs = Entries.names as →
    p (.object bs [])
  tuple : ∀ {ts us}, p (.tuple ts) → us.length = ts.length → p (.tuple us)
  union : ∀ {as bs}, p (.union as) → Entries.names bs = Entries.names as →
    (∀ b ∈ Entries.values bs, b.OptionalFree) → p (.union bs)

namespace Structural

variable {p q : Ty → Prop}

theorem and (hp : Structural p) (hq : Structural q) : Structural fun t => p t ∧ q t where
  number := ⟨hp.number, hq.number⟩
  string := ⟨hp.string, hq.string⟩
  bool := ⟨hp.bool, hq.bool⟩
  list e := ⟨hp.list e, hq.list e⟩
  set e := ⟨hp.set e, hq.set e⟩
  map e := ⟨hp.map e, hq.map e⟩
  object h hn := ⟨hp.object h.1 hn, hq.object h.2 hn⟩
  tuple h hl := ⟨hp.tuple h.1 hl, hq.tuple h.2 hl⟩
  union h hn ho := ⟨hp.union h.1 hn ho, hq.union h.2 hn ho⟩

/-- A structural property survives requiring every attribute of one type. -/
theorem withoutOptional (hp : Structural p) {t : Ty} (h : p t) : p t.withoutOptional := by
  cases t with
  | list e => exact hp.list _
  | set e => exact hp.set _
  | map e => exact hp.map _
  | object as os =>
    rw [Ty.withoutOptional, withoutOptionalEntries_eq_mapValues]
    exact hp.object h (Entries.names_mapValues ..)
  | tuple ts =>
    rw [Ty.withoutOptional, withoutOptionalAll_eq_map]
    exact hp.tuple h (List.length_map _)
  | union vs =>
    rw [Ty.withoutOptional, withoutOptionalEntries_eq_mapValues]
    refine hp.union h (Entries.names_mapValues ..) ?_
    rw [Entries.values_mapValues]
    exact List.forall_mem_map.2 fun u _ => optionalFree_withoutOptional u
  | number | string | bool | dynamic | capsule => exact h

end Structural

theorem Everywhere.withoutOptional {p : Ty → Prop} (hp : Structural p) {t : Ty}
    (h : Everywhere p t) : Everywhere p t.withoutOptional := by
  induction h with
  | @intro t here _ ih =>
    refine .intro (hp.withoutOptional here) fun s hs => ?_
    rw [components_withoutOptional] at hs
    obtain ⟨u, hu, rfl⟩ := List.mem_map.1 hs
    exact ih u hu

theorem structural_optionalNames : Structural fun t => t.optionalNames = [] where
  number := rfl
  string := rfl
  bool := rfl
  list _ := rfl
  set _ := rfl
  map _ := rfl
  object _ _ := rfl
  tuple _ _ := rfl
  union _ _ _ := rfl

/-- No attribute is optional inside of the variants of a union. -/
def VariantsRequired (t : Ty) : Prop :=
  ∀ variants, t = .union variants → ∀ u ∈ Entries.values variants, u.OptionalFree

theorem structural_variantsRequired : Structural VariantsRequired where
  number := nofun
  string := nofun
  bool := nofun
  list _ := nofun
  set _ := nofun
  map _ := nofun
  object _ _ := nofun
  tuple _ _ := nofun
  union _ _ ho vs h u hu := by
    cases h
    exact ho u hu

theorem structural_ne_dynamic : Structural (· ≠ .dynamic) where
  number := nofun
  string := nofun
  bool := nofun
  list := nofun
  set := nofun
  map := nofun
  object := nofun
  tuple := nofun
  union := nofun

theorem structural_not_capsule : Structural fun t => t.isCapsule = false where
  number := rfl
  string := rfl
  bool := rfl
  list _ := rfl
  set _ := rfl
  map _ := rfl
  object _ _ := rfl
  tuple _ _ := rfl
  union _ _ _ := rfl

/-! ## Types as they are built -/

/-- The names of parts are sorted and in canonical form, and a union has a variant. -/
def Headed (t : Ty) : Prop :=
  Names.Proper t.partNames ∧ t ≠ .union []

/-- A type as `Ty.objectOf` and `Ty.unionOf` build it, at any depth. -/
def WellFormed (t : Ty) : Prop :=
  t.Everywhere Headed

/-- The names of parts stand in order and are told apart, at any depth. -/
def Ordered (t : Ty) : Prop :=
  t.Everywhere fun t => t.partNames.Pairwise (· < ·)

instance (t : Ty) : Decidable t.Ordered :=
  inferInstanceAs (Decidable (t.Everywhere fun t => t.partNames.Pairwise (· < ·)))

theorem WellFormed.ordered {t : Ty} (h : t.WellFormed) : t.Ordered :=
  h.mono fun _ headed => headed.1.1

/-- No capsule type stands in a type. -/
def CapsuleFree (t : Ty) : Prop :=
  t.Everywhere fun t => t.isCapsule = false

instance (t : Ty) : Decidable t.CapsuleFree :=
  inferInstanceAs (Decidable (t.Everywhere fun t => t.isCapsule = false))

theorem structural_ordered : Structural fun t => t.partNames.Pairwise (· < ·) where
  number := .nil
  string := .nil
  bool := .nil
  list _ := .nil
  set _ := .nil
  map _ := .nil
  object h hn := by rwa [partNames, hn]
  tuple _ _ := .nil
  union h hn _ := by rwa [partNames, hn]

theorem structural_headed : Structural Headed where
  number := ⟨Names.proper_nil, by simp⟩
  string := ⟨Names.proper_nil, by simp⟩
  bool := ⟨Names.proper_nil, by simp⟩
  list _ := ⟨Names.proper_nil, by simp⟩
  set _ := ⟨Names.proper_nil, by simp⟩
  map _ := ⟨Names.proper_nil, by simp⟩
  object {as bs os} h hn := ⟨by rw [partNames, hn]; exact h.1, by simp⟩
  tuple _ _ := ⟨Names.proper_nil, by simp⟩
  union {as bs} h hn _ := by
    refine ⟨by rw [partNames, hn]; exact h.1, fun eq => h.2 ?_⟩
    cases eq
    have : as = [] := List.map_eq_nil_iff.1 hn.symm
    rw [this]

end ValueAlgebra.Ty
