import ValueAlgebra.Proofs.Plugging
import ValueAlgebra.Proofs.Preference
import ValueAlgebra.Proofs.Unify

/-!
# How the target of a unification is looked for

`Unification.Way.of types` tells how the target of a unification is looked for, and
`Unification.Way.target?` looks for it in this way. The way depends on what types there are, and
neither on the order in which they are listed nor on which conversions are allowed: these decide
only what the parts of the types unify to and which of the types all others convert to.

Main statements:

* `Unification.target?_eq`: the target of a unification is what its way leads to.
* `Unification.eq_dynamic_iff`: the target is `dynamic` exactly where one of the types is, if there
  are any.
* `Unification.oneOf?_isSome_iff`: one of the types is the target as soon as all others convert to
  any of them.
-/

namespace ValueAlgebra

open Entries

/-! ## What types agree on -/

section Agreed

variable {α : Type} [DecidableEq α] {f : Ty → α}

/-- What all of some types agree on. -/
def Ty.agreed? (f : Ty → α) : List Ty → Option α
  | [] => none
  | t :: ts => if ∀ s ∈ ts, f s = f t then some (f t) else none

theorem Ty.agreed?_eq_some_iff {types : List Ty} {a : α} :
    agreed? f types = some a ↔ types ≠ [] ∧ ∀ t ∈ types, f t = a := by
  cases types with
  | nil => simp [agreed?]
  | cons t ts =>
    simp only [agreed?, Option.ite_none_right_eq_some,
      Option.some.injEq, List.forall_mem_cons, ne_eq, reduceCtorEq, not_false_eq_true, true_and]
    constructor
    · rintro ⟨all, rfl⟩
      exact ⟨rfl, all⟩
    · rintro ⟨rfl, all⟩
      exact ⟨all, rfl⟩

end Agreed

/-! ## Ways -/

/-- Types whose parts can be the elements of a collection. -/
inductive Ty.Gathering : CollectionKind → Ty.Parts → Ty → Prop where
  | collection (kind : CollectionKind) (e : Ty) : Gathering kind Ty.elementPart (kind.type e)
  | map (e : Ty) : Gathering .map Ty.entryParts (.map e)
  | object (attributes : List (String × Ty)) (optional : List String) :
      Gathering .map Ty.entryParts (.object attributes optional)
  | tuple (elements : List Ty) : Gathering .list Ty.itemParts (.tuple elements)

theorem Ty.not_gathering_dynamic {kind : CollectionKind} {parts : Parts} :
    ¬ Gathering kind parts .dynamic := by
  generalize hd : Ty.dynamic = d
  rintro (kind | _ | _ | _)
  · cases kind <;> cases hd
  all_goals cases hd

namespace Unification

/-- How the target of a unification is looked for. -/
inductive Way where
  /-- The target is known. -/
  | fixed (target : Ty)
  /-- A collection of what parts of the types have in common. -/
  | gathered (kind : CollectionKind) (parts : Ty.Parts)
  /-- A map, or else one of the types. -/
  | mapOrOneOf
  /-- An object with attributes of these names. -/
  | attributes (names : List String)
  /-- A tuple of this length. -/
  | items (length : Nat)
  | oneOf
  | nowhere

/-- How the target of types that are not all the same is looked for. -/
def Way.ofDifferent (types : List Ty) : Way :=
  match Mixture.of types with
  | .undecided => .fixed .dynamic
  | .collections kind => .gathered kind Ty.elementPart
  | .mapsAndObjects => .mapOrOneOf
  | .objects =>
    match Ty.agreed? Ty.attributeNames types with
    | some names => .attributes names
    | none => .gathered .map Ty.entryParts
  | .tuples =>
    match Ty.agreed? Ty.itemCount types with
    | some length => .items length
    | none => .gathered .list Ty.itemParts
  | .incompatible => .nowhere
  | .others => .oneOf

/-- How the target of some types is looked for. -/
def Way.of (types : List Ty) : Way :=
  if types = [] then .fixed .dynamic
  else match Ty.agreed? id types with
    | some t => .fixed t
    | none => .ofDifferent types

theorem mem_preferenceOrder {types : List Ty} {i : Nat} (h : i < types.length) :
    i ∈ Ty.preferenceOrder types := by
  obtain ⟨front, -, -, order⟩ := Ty.exists_front types
  rw [order, List.mem_append, List.mem_filter, List.mem_range]
  by_cases first : i ∈ front
  · exact .inl first
  · exact .inr ⟨h, by simpa using first⟩

/-- What a way says about the types. -/
def Way.Describes (types : List Ty) : Way → Prop
  | .fixed t => .dynamic ∈ types → t = .dynamic
  | .gathered kind parts => ∀ t ∈ types, Ty.Gathering kind parts t
  | .mapOrOneOf => ∀ t ∈ types, Ty.Gathering .map Ty.entryParts t
  | .attributes _ => ∀ t ∈ types, t.isObject = true
  | .items _ => ∀ t ∈ types, t.isTuple = true
  | .oneOf | .nowhere => True

theorem Way.describes_ofDifferent (types : List Ty) : (Way.ofDifferent types).Describes types := by
  rw [Way.ofDifferent]
  have about := Mixture.describes types
  cases hm : Mixture.of types with rw [hm] at about
  | undecided => exact fun _ => rfl
  | incompatible | others => trivial
  | collections kind =>
    intro t ht
    obtain ⟨e, rfl⟩ := about t ht
    exact .collection kind e
  | mapsAndObjects =>
    intro t ht
    have either := about.2.2 t ht
    cases t <;> simp [Ty.isMap, Ty.isObject] at either
    · exact .map _
    · exact .object _ _
  | objects =>
    simp only
    split
    · exact about
    · intro t ht
      have ho := about t ht
      cases t <;> cases ho
      exact .object _ _
  | tuples =>
    simp only
    split
    · exact about
    · intro t ht
      have hk := about t ht
      cases t <;> cases hk
      exact .tuple _

theorem Way.describes (types : List Ty) : (Way.of types).Describes types := by
  rw [Way.of]
  split
  · exact fun _ => rfl
  split
  · rename_i t same
    exact fun hd => ((Ty.agreed?_eq_some_iff.1 same).2 _ hd).symm
  · exact Way.describes_ofDifferent types

variable [Host] {mode : Mode} {types : List Ty} {t : Ty}

/-- The target of the unification of some types. -/
def target? (mode : Mode) (types : List Ty) : Option Ty :=
  (plan? mode types).map Unification.target

/-- A target, if all of some types convert to it. -/
def reach? (mode : Mode) (types : List Ty) (t : Ty) : Option Ty :=
  if types.all fun s => (Conversion.plan? mode s t).isSome then some t else none

/-- The first of some types, from the most general one on, that all others convert to. -/
def oneOf? (mode : Mode) (types : List Ty) : Option Ty :=
  (Ty.preferenceOrder types).findSome? fun i => types[i]?.bind (reach? mode types)

/-- The collection of what parts of some types have in common, if the types convert to it. -/
def gathered? (mode : Mode) (kind : CollectionKind) (parts : Ty.Parts) (types : List Ty) :
    Option Ty :=
  (target? mode (parts.all types)).bind fun e => reach? mode types (kind.type e)

/-- The target that a way leads to. -/
def Way.target? (mode : Mode) (types : List Ty) : Way → Option Ty
  | .fixed t => some t
  | .gathered kind parts => gathered? mode kind parts types
  | .mapOrOneOf => (gathered? mode .map Ty.entryParts types).orElse fun _ => oneOf? mode types
  | .attributes names =>
    (names.mapM fun name =>
      (Unification.target? mode ((Ty.attributePart name).all types)).map fun a => (name, a)).map
        fun attributes => .object attributes []
  | .items length =>
    ((List.range length).mapM fun i =>
      Unification.target? mode ((Ty.itemPart i).all types)).map .tuple
  | .oneOf => oneOf? mode types
  | .nowhere => none

/-! ## Targets that types convert to -/

theorem reach?_eq_some_iff {u : Ty} :
    reach? mode types t = some u ↔
      t = u ∧ ∀ s ∈ types, (Conversion.plan? mode s t).isSome = true := by
  simp [reach?, List.all_eq_true, and_comm]

theorem reach?_isSome_iff :
    (reach? mode types t).isSome = true ↔
      ∀ s ∈ types, (Conversion.plan? mode s t).isSome = true := by
  simp [reach?, List.all_eq_true]

theorem into?_target (types : List Ty) (t : Ty) :
    (into? mode types t).map Unification.target = reach? mode types t := by
  cases hi : into? mode types t with
  | some u =>
    obtain ⟨target, plans⟩ := into?_spec hi
    refine (reach?_eq_some_iff.2 ⟨target.symm, fun s hs => ?_⟩).symm
    obtain ⟨c, -, hc⟩ := exists_right_of_forall₂ plans hs
    exact hc.plan?_isSome
  | none =>
    cases hr : reach? mode types t with
    | none => rfl
    | some u =>
      have := into?_isSome (reach?_eq_some_iff.1 hr).2
      rw [hi] at this
      cases this

theorem inOneOf?_target (types : List Ty) :
    (inOneOf? mode types).map Unification.target = oneOf? mode types := by
  rw [inOneOf?, oneOf?, List.map_findSome?]
  congr 1
  funext i
  simp only [Function.comp_apply]
  cases types[i]? with
  | none => rfl
  | some t => exact into?_target types t

theorem ofParts?_eq (parts : Ty.Parts) (first : Ty) (rest : List Ty) :
    ofParts? mode parts first rest = target? mode (parts.all (first :: rest)) := by
  rw [ofParts?, target?]

theorem inCollection?_target (kind : CollectionKind) (parts : Ty.Parts) (first : Ty)
    (rest : List Ty) : (inCollection? mode kind parts first rest).map Unification.target =
      gathered? mode kind parts (first :: rest) := by
  rw [inCollection?, gathered?, ofParts?_eq]
  cases target? mode (parts.all (first :: rest)) with
  | none => rfl
  | some e => exact into?_target (first :: rest) (kind.type e)

/-! ## The target is what its way leads to -/

theorem SharedAttributes.target {attributes : List (String × Ty)} {o : Unit → Option Unification}
    (h : SharedAttributes mode types attributes) :
    ((into? mode types (.object attributes [])).orElse o).map Unification.target =
      some (.object attributes []) := by
  obtain ⟨u, hu⟩ := Option.isSome_iff_exists.1 h.into?_isSome
  rw [hu, Option.orElse_some, Option.map_some, (into?_spec hu).1]

theorem SharedItems.target {elements : List Ty} {o : Unit → Option Unification}
    (h : SharedItems mode types elements) :
    ((into? mode types (.tuple elements)).orElse o).map Unification.target =
      some (.tuple elements) := by
  obtain ⟨u, hu⟩ := Option.isSome_iff_exists.1 h.into?_isSome
  rw [hu, Option.orElse_some, Option.map_some, (into?_spec hu).1]

omit [Host] in
/-- The test for a target that is known: all types are the same. -/
theorem all_same_iff {first : Ty} {rest : List Ty} :
    (first.isDynamic && rest.all Ty.isDynamic || rest.all fun t => t == first) = true ↔
      ∀ t ∈ rest, id t = id first := by
  simp only [Bool.or_eq_true, Bool.and_eq_true, List.all_eq_true, beq_iff_eq, id]
  refine or_iff_right_of_imp ?_
  rintro ⟨hf, all⟩ t ht
  have := all t ht
  cases first <;> cases hf
  cases t <;> cases this
  rfl

theorem target?_of_different {first : Ty} {rest : List Ty}
    (different : ¬ ∀ t ∈ rest, id t = id first) :
    target? mode (first :: rest) =
      (Way.ofDifferent (first :: rest)).target? mode (first :: rest) := by
  rw [target?, plan?, if_neg (mt all_same_iff.1 different), Way.ofDifferent]
  have about := Mixture.describes (first :: rest)
  cases hm : Mixture.of (first :: rest) with rw [hm] at about
  | undecided | incompatible => rfl
  | collections => exact inCollection?_target ..
  | others => exact inOneOf?_target ..
  | mapsAndObjects =>
    change _ = (gathered? ..).orElse fun _ => oneOf? ..
    rw [← inCollection?_target, ← inOneOf?_target]
    cases inCollection? mode .map Ty.entryParts first rest <;> rfl
  | objects =>
    simp only [List.all_eq_true, beq_iff_eq, Ty.agreed?]
    split
    · rename_i same
      simp only [Way.target?, ← ofParts?_eq]
      cases ha : first.attributeNames.mapM fun name =>
          (ofParts? mode (Ty.attributePart name) first rest).map fun a => (name, a) with
      | none => rfl
      | some attributes => exact (sharedAttributes about same ha).target
    · exact inCollection?_target ..
  | tuples =>
    simp only [List.all_eq_true, beq_iff_eq, Ty.agreed?]
    split
    · rename_i same
      simp only [Way.target?, ← ofParts?_eq]
      cases he : (List.range first.itemCount).mapM fun i =>
          ofParts? mode (Ty.itemPart i) first rest with
      | none => rfl
      | some elements => exact (sharedItems about same he).target
    · exact inCollection?_target ..

/-- The target of a unification is what its way leads to. -/
theorem target?_eq (mode : Mode) (types : List Ty) :
    target? mode types = (Way.of types).target? mode types := by
  cases types with
  | nil => simp [target?, plan?, Way.of, Way.target?]
  | cons first rest =>
    rw [Way.of, if_neg (List.cons_ne_nil first rest), Ty.agreed?]
    by_cases same : ∀ t ∈ rest, id t = id first
    · rw [target?, plan?, if_pos (all_same_iff.2 same), if_pos same]
      rfl
    · rw [target?_of_different same, if_neg same]

/-! ## One of the types -/

theorem oneOf?_spec (h : oneOf? mode types = some t) :
    t ∈ types ∧ ∀ s ∈ types, (Conversion.plan? mode s t).isSome = true := by
  obtain ⟨i, -, h⟩ := List.exists_of_findSome?_eq_some h
  obtain ⟨u, hu, h⟩ := Option.bind_eq_some_iff.1 h
  obtain ⟨rfl, all⟩ := reach?_eq_some_iff.1 h
  exact ⟨List.mem_of_getElem? hu, all⟩

/-- One of the types is the target as soon as all others convert to any of them. -/
theorem oneOf?_isSome_iff :
    (oneOf? mode types).isSome = true ↔
      ∃ t ∈ types, ∀ s ∈ types, (Conversion.plan? mode s t).isSome = true := by
  constructor
  · intro h
    obtain ⟨t, ht⟩ := Option.isSome_iff_exists.1 h
    exact ⟨t, oneOf?_spec ht⟩
  · rintro ⟨t, ht, all⟩
    obtain ⟨i, hi⟩ := List.mem_iff_getElem?.1 ht
    have listed := mem_preferenceOrder (List.getElem?_eq_some_iff.1 hi).1
    refine List.findSome?_isSome_iff.2 ⟨i, listed, ?_⟩
    rw [hi, Option.bind_some, reach?_isSome_iff]
    exact all

/-! ## Targets that are `dynamic` -/

omit [Host] in
/-- Nothing is above `dynamic`, which is above all other types. -/
theorem exists_first_dynamic (h : .dynamic ∈ types) :
    ∃ j more, Ty.preferenceOrder types = j :: more ∧ types[j]? = some .dynamic := by
  obtain ⟨k, hk⟩ := List.mem_iff_getElem?.1 h
  have top (i : Nat) : ¬ Ty.Above types i k := by
    rintro ⟨a, b, -, hb, more⟩
    rw [hk] at hb
    cases hb
    cases a <;> simp [Ty.generality] at more
  obtain ⟨j, more, order, lt, first⟩ := Ty.exists_first (List.getElem?_eq_some_iff.1 hk).1 top
  refine ⟨j, more, order, ?_⟩
  obtain ⟨t, ht⟩ : ∃ t, types[j]? = some t := ⟨_, List.getElem?_eq_getElem lt⟩
  cases t with
  | dynamic => exact ht
  | _ => exact absurd ⟨_, _, hk, ht, by simp [Ty.generality]⟩ (first k)

/-- The most general type is `dynamic`, which all types convert to. -/
theorem oneOf?_of_dynamic (h : .dynamic ∈ types) : oneOf? mode types = some .dynamic := by
  obtain ⟨j, more, order, hd⟩ := exists_first_dynamic h
  have reached : reach? mode types .dynamic = some .dynamic := by
    refine reach?_eq_some_iff.2 ⟨rfl, fun s _ => ?_⟩
    rw [Conversion.plan?_dynamic]
    rfl
  rw [oneOf?, order, List.findSome?_cons, hd, Option.bind_some, reached]

/-- The target is `dynamic` exactly where one of the types is, if there are any. -/
theorem eq_dynamic_iff (h : target? mode types = some t) :
    t = .dynamic ↔ types = [] ∨ .dynamic ∈ types := by
  constructor
  · rintro rfl
    obtain ⟨u, hu, eq⟩ := Option.map_eq_some_iff.1 h
    have common := common_target hu
    rw [eq] at common
    generalize hd : Ty.dynamic = d at common
    cases common with
    | nothing => exact .inl rfl
    | undecided h | oneOf h => exact .inr h
    | @collection _ kind => cases kind <;> cases hd
    | entries | items | object | tuple => cases hd
  · rintro (rfl | hd)
    · rw [target?_eq] at h
      exact (Option.some.inj h).symm
    rw [target?_eq] at h
    have about := Way.describes types
    cases hw : Way.of types with rw [hw] at about h
    | fixed => exact Option.some.inj h ▸ about hd
    | gathered | mapOrOneOf => exact absurd (about _ hd) Ty.not_gathering_dynamic
    | attributes | items => cases about _ hd
    | oneOf => exact Option.some.inj (h.symm.trans (oneOf?_of_dynamic hd))
    | nowhere => cases h

end Unification

end ValueAlgebra
