import ValueAlgebra.Proofs.Common
import ValueAlgebra.Proofs.Plans

/-!
# Unification of types

`Unification.plan?` gives a target for some types with a conversion for each of them.

Main statements:

* `Unification.plan?_conversions`: each conversion leads from one of the types to the target.
* `Unification.common_target`: the target is made of what the types have in common. Objects of one
  shape never end up in a map, nor tuples of one length in a list, since they convert to the
  structure of what their parts have in common.
-/

namespace ValueAlgebra

open Entries

/-! ## Mixtures of types -/

/-- What a mixture says about some types. -/
def Mixture.Describes (types : List Ty) : Mixture → Prop
  | .undecided => .dynamic ∈ types
  | .collections kind => ∀ t ∈ types, ∃ e, t = kind.type e
  | .mapsAndObjects => (∃ t ∈ types, t.isMap = true) ∧ (∃ t ∈ types, t.isObject = true) ∧
    ∀ t ∈ types, t.isMap = true ∨ t.isObject = true
  | .objects => ∀ t ∈ types, t.isObject = true
  | .tuples => ∀ t ∈ types, t.isTuple = true
  | .incompatible | .others => True

namespace Mixture

theorem isOnly_iff {kind : Ty → Bool} {types : List Ty} :
    isOnly kind types = true ↔
      (∃ t ∈ types, kind t = true) ∧ ∀ t ∈ types, kind t = true ∨ t.isDynamic = true := by
  simp [isOnly, List.any_eq_true, List.all_eq_true]

theorem dynamic_mem_iff {types : List Ty} : types.any Ty.isDynamic = true ↔ .dynamic ∈ types := by
  rw [List.any_eq_true]
  constructor
  · rintro ⟨t, ht, hd⟩
    cases t <;> first | exact ht | cases hd
  · exact fun h => ⟨_, h, rfl⟩

/-- Types of one kind are described by their mixture, or one of them is `dynamic`. -/
theorem describes_settled {kind : Ty → Bool} {types : List Ty} {m : Mixture}
    (h : isOnly kind types = true) (hm : (∀ t ∈ types, kind t = true) → m.Describes types) :
    (if types.any Ty.isDynamic then .undecided else m).Describes types := by
  split
  · rename_i hd
    exact dynamic_mem_iff.1 hd
  · rename_i hd
    refine hm fun t ht => (isOnly_iff.1 h).2 t ht |>.resolve_right fun h' => hd ?_
    exact List.any_eq_true.2 ⟨t, ht, h'⟩

theorem describes (types : List Ty) : (Mixture.of types).Describes types := by
  unfold Mixture.of
  simp only
  by_cases maps : isOnly Ty.isMap types = true
  · rw [if_pos maps]
    refine describes_settled maps fun all t ht => ?_
    have := all t ht
    cases t <;> first | exact ⟨_, rfl⟩ | cases this
  rw [if_neg maps]
  by_cases mixed : (types.any Ty.isMap && types.all fun t => t.isMap || t.isObject) = true
  · rw [if_pos mixed]
    rw [Bool.and_eq_true, List.any_eq_true, List.all_eq_true] at mixed
    have either : ∀ t ∈ types, t.isMap = true ∨ t.isObject = true := fun t ht => by
      simpa using mixed.2 t ht
    refine ⟨mixed.1, ?_, either⟩
    by_contra none
    push Not at none
    exact maps (isOnly_iff.2 ⟨mixed.1, fun t ht => .inl ((either t ht).resolve_right (none t ht))⟩)
  rw [if_neg mixed]
  by_cases lists : isOnly Ty.isList types = true
  · rw [if_pos lists]
    refine describes_settled lists fun all t ht => ?_
    have := all t ht
    cases t <;> first | exact ⟨_, rfl⟩ | cases this
  rw [if_neg lists]
  by_cases sets : isOnly Ty.isSet types = true
  · rw [if_pos sets]
    refine describes_settled sets fun all t ht => ?_
    have := all t ht
    cases t <;> first | exact ⟨_, rfl⟩ | cases this
  rw [if_neg sets]
  by_cases objects : isOnly Ty.isObject types = true
  · rw [if_pos objects]
    exact describes_settled objects fun all => all
  rw [if_neg objects]
  by_cases tuples : isOnly Ty.isTuple types = true
  · rw [if_pos tuples]
    exact describes_settled tuples fun all => all
  rw [if_neg tuples]
  split <;> trivial

end Mixture

theorem forall₂_of_mapM {α β : Type} {f : α → Option β} {xs : List α} {ys : List β}
    (h : xs.mapM f = some ys) : List.Forall₂ (fun x y => f x = some y) xs ys := by
  induction xs generalizing ys with
  | nil =>
    cases h
    exact .nil
  | cons x xs ih =>
    rw [List.mapM_cons] at h
    obtain ⟨y, hy, h⟩ := Option.bind_eq_some_iff.1 h
    obtain ⟨rest, hr, h⟩ := Option.bind_eq_some_iff.1 h
    cases h
    exact .cons hy (ih hr)

/-- What is looked up for each of some names has these names. -/
theorem named_of_mapM {α : Type} {f : String → Option α} {keys : List String}
    {entries : List (String × α)}
    (h : (keys.mapM fun name => (f name).map fun a => (name, a)) = some entries) :
    names entries = keys ∧ ∀ name a, (name, a) ∈ entries → f name = some a := by
  have paired := forall₂_of_mapM h
  constructor
  · refine List.Forall₂.rec (by rfl) (fun {name x _ _} hx _ ih => ?_) paired
    rw [Option.map_eq_some_iff] at hx
    obtain ⟨a, -, rfl⟩ := hx
    rw [names_cons, ih]
  · intro name a ha
    obtain ⟨key, -, hk⟩ := exists_left_of_forall₂ paired ha
    rw [Option.map_eq_some_iff] at hk
    obtain ⟨b, hb, eq⟩ := hk
    cases eq
    exact hb

/-- What is looked up for each place stands at this place. -/
theorem placed_of_mapM {α : Type} {f : Nat → Option α} {n : Nat} {xs : List α}
    (h : (List.range n).mapM f = some xs) :
    xs.length = n ∧ ∀ (i : Nat) x, xs[i]? = some x → f i = some x := by
  have paired := forall₂_of_mapM h
  have hl : xs.length = n := by rw [← paired.length_eq, List.length_range]
  refine ⟨hl, fun i x hx => ?_⟩
  have hi : (List.range n)[i]? = some i :=
    List.getElem?_range (hl ▸ (List.getElem?_eq_some_iff.1 hx).1)
  exact getElem?_of_forall₂ (R := fun i x => f i = some x) paired hi hx

variable [Host] {mode : Mode}

/-! ## Conversions into the target -/

/-- A conversion from one type to another: a planned one, or the one that forgets the value. -/
inductive Conversion.Leads (mode : Mode) (s t : Ty) : Conversion → Prop where
  | planned {c : Conversion} (h : Conversion.plan? mode s t = some c) : Leads mode s t c
  | forget (h : t = .dynamic) : Leads mode s t .forget

/-- A conversion into a target, or none for a type that is the target. -/
inductive Unification.Converts (mode : Mode) (target s : Ty) : Option Conversion → Prop where
  | stay (h : s = target) : Converts mode target s none
  | convert {c : Conversion} (h : Conversion.Leads mode s target c) : Converts mode target s (some c)

theorem Conversion.Leads.plan?_isSome {s t : Ty} {c : Conversion}
    (h : Conversion.Leads mode s t c) : (Conversion.plan? mode s t).isSome = true := by
  cases h with
  | planned h => rw [h]; rfl
  | forget h => rw [h, Conversion.plan?_dynamic]; rfl

theorem Unification.Converts.plan?_isSome {target s : Ty} {c : Option Conversion}
    (h : Unification.Converts mode target s c) :
    (Conversion.plan? mode s target).isSome = true := by
  cases h with
  | stay h => exact h ▸ Conversion.plan?_self
  | convert h => exact h.plan?_isSome

namespace Unification

theorem conversionsInto?_spec {target : Ty} {types : List Ty} {plans : List (Option Conversion)}
    (h : conversionsInto? mode target types = some plans) :
    List.Forall₂ (Converts mode target) types plans := by
  induction types generalizing plans with
  | nil =>
    rw [conversionsInto?] at h
    cases h
    exact .nil
  | cons s types ih =>
    rw [conversionsInto?] at h
    simp only [Option.bind_eq_bind, Option.pure_def, Option.bind_some] at h
    split at h
    · rename_i eq
      obtain ⟨rest, hr, h⟩ := Option.bind_eq_some_iff.1 h
      cases h
      exact .cons (.stay eq) (ih hr)
    · obtain ⟨plan, hp, h⟩ := Option.bind_eq_some_iff.1 h
      obtain ⟨rest, hr, h⟩ := Option.bind_eq_some_iff.1 h
      cases h
      rw [Option.map_eq_some_iff] at hp
      obtain ⟨c, hc, rfl⟩ := hp
      exact .cons (.convert (.planned hc)) (ih hr)

theorem conversionsInto?_isSome {target : Ty} {types : List Ty}
    (h : ∀ s ∈ types, (Conversion.plan? mode s target).isSome = true) :
    (conversionsInto? mode target types).isSome = true := by
  induction types with
  | nil => rw [conversionsInto?]; rfl
  | cons s types ih =>
    obtain ⟨c, hc⟩ := Option.isSome_iff_exists.1 (h s List.mem_cons_self)
    obtain ⟨rest, hr⟩ := Option.isSome_iff_exists.1
      (ih fun u hu => h u (List.mem_cons_of_mem _ hu))
    rw [conversionsInto?]
    by_cases eq : s = target <;> simp [eq, hr, hc]

theorem into?_spec {types : List Ty} {target : Ty} {u : Unification}
    (h : into? mode types target = some u) :
    u.target = target ∧ List.Forall₂ (Converts mode target) types u.conversions := by
  rw [into?, Option.map_eq_some_iff] at h
  obtain ⟨plans, hp, rfl⟩ := h
  exact ⟨rfl, conversionsInto?_spec hp⟩

theorem into?_isSome {types : List Ty} {target : Ty}
    (h : ∀ s ∈ types, (Conversion.plan? mode s target).isSome = true) :
    (into? mode types target).isSome = true := by
  rw [into?, Option.isSome_map]
  exact conversionsInto?_isSome h

theorem inOneOf?_spec {types : List Ty} {u : Unification}
    (h : inOneOf? mode types = some u) : u.target ∈ types ∧ into? mode types u.target = some u := by
  rw [inOneOf?] at h
  obtain ⟨i, -, h⟩ := List.exists_of_findSome?_eq_some h
  obtain ⟨t, ht, h⟩ := Option.bind_eq_some_iff.1 h
  rw [(into?_spec h).1]
  exact ⟨List.mem_of_getElem? ht, h⟩

theorem ofParts?_spec {parts : Ty.Parts} {first : Ty} {rest : List Ty} {e : Ty}
    (h : ofParts? mode parts first rest = some e) :
    ∃ u, plan? mode (parts.all (first :: rest)) = some u ∧ u.target = e := by
  rwa [ofParts?, Option.map_eq_some_iff] at h

theorem inCollection?_spec {kind : CollectionKind} {parts : Ty.Parts} {first : Ty} {rest : List Ty}
    {u : Unification} (h : inCollection? mode kind parts first rest = some u) :
    ∃ w, plan? mode (parts.all (first :: rest)) = some w ∧
      into? mode (first :: rest) (kind.type w.target) = some u := by
  rw [inCollection?] at h
  obtain ⟨e, he, h⟩ := Option.bind_eq_some_iff.1 h
  obtain ⟨w, hw, rfl⟩ := ofParts?_spec he
  exact ⟨w, hw, h⟩

end Unification

/-! ## How a target is found -/

namespace Unification

/-- Objects with the names of some attributes, whose types are what the attributes of the objects
have in common. -/
structure SharedAttributes (mode : Mode) (types : List Ty) (attributes : List (String × Ty)) :
    Prop where
  objects : ∀ t ∈ types, ∃ as os, t = .object as os ∧ names as = names attributes
  parts : ∀ name a, (name, a) ∈ attributes →
    ∃ w, plan? mode ((Ty.attributePart name).all types) = some w ∧ w.target = a

/-- Tuples of one length with elements whose types are what the elements of the tuples have in
common. -/
structure SharedItems (mode : Mode) (types : List Ty) (elements : List Ty) : Prop where
  tuples : ∀ t ∈ types, ∃ ts, t = .tuple ts ∧ ts.length = elements.length
  parts : ∀ (i : Nat) a, elements[i]? = some a →
    ∃ w, plan? mode ((Ty.itemPart i).all types) = some w ∧ w.target = a

/-- What the targets are that types are converted into. -/
inductive Joined (mode : Mode) (types : List Ty) : Ty → Prop where
  | oneOf {t : Ty} (h : t ∈ types) : Joined mode types t
  | collection {kind : CollectionKind} {w : Unification} (h : ∀ t ∈ types, ∃ e, t = kind.type e)
      (hw : plan? mode (Ty.elementPart.all types) = some w) :
      Joined mode types (kind.type w.target)
  | entries {w : Unification} (apart : Ty.Apart types) (hne : Ty.entryParts.all types ≠ [])
      (hw : plan? mode (Ty.entryParts.all types) = some w) : Joined mode types (.map w.target)
  | items {w : Unification} (apart : Ty.Apart types) (hne : Ty.itemParts.all types ≠ [])
      (hw : plan? mode (Ty.itemParts.all types) = some w) : Joined mode types (.list w.target)
  | object {attributes : List (String × Ty)} (h : SharedAttributes mode types attributes) :
      Joined mode types (.object attributes [])
  | tuple {elements : List Ty} (h : SharedItems mode types elements) :
      Joined mode types (.tuple elements)
  | entriesInstead {attributes : List (String × Ty)} {t : Ty}
      (h : SharedAttributes mode types attributes)
      (none : into? mode types (.object attributes []) = none) : Joined mode types t
  | itemsInstead {elements : List Ty} {t : Ty} (h : SharedItems mode types elements)
      (none : into? mode types (.tuple elements) = none) : Joined mode types t

/-- How a unification is found. -/
inductive Found (mode : Mode) : List Ty → Unification → Prop where
  | nothing : Found mode [] ⟨.dynamic, []⟩
  | same {types : List Ty} {s : Ty} (hs : s ∈ types) (h : ∀ t ∈ types, t = s) :
      Found mode types ⟨s, types.map fun _ => none⟩
  | undecided {types : List Ty} (h : .dynamic ∈ types) :
      Found mode types ⟨.dynamic, types.map fun _ => some .forget⟩
  | into {types : List Ty} {u : Unification} {t : Ty} (hne : types ≠ [])
      (h : into? mode types t = some u) (hj : Joined mode types t) : Found mode types u

/-- The attributes that objects share, as they are planned. -/
theorem sharedAttributes {first : Ty} {rest : List Ty} {attributes : List (String × Ty)}
    (objects : ∀ t ∈ first :: rest, t.isObject = true)
    (same : ∀ t ∈ rest, t.attributeNames = first.attributeNames)
    (h : (first.attributeNames.mapM fun name =>
      (ofParts? mode (Ty.attributePart name) first rest).map fun a => (name, a)) =
        some attributes) : SharedAttributes mode (first :: rest) attributes := by
  obtain ⟨hn, parts⟩ := named_of_mapM h
  constructor
  · intro t ht
    have ho := objects t ht
    cases t with
    | object as os =>
      refine ⟨as, os, rfl, ?_⟩
      rcases List.mem_cons.1 ht with rfl | ht
      · exact hn.symm
      · exact (same _ ht).trans hn.symm
    | _ => cases ho
  · exact fun name a ha => ofParts?_spec (parts name a ha)

/-- The elements that tuples share, as they are planned. -/
theorem sharedItems {first : Ty} {rest elements : List Ty}
    (tuples : ∀ t ∈ first :: rest, t.isTuple = true)
    (same : ∀ t ∈ rest, t.itemCount = first.itemCount)
    (h : ((List.range first.itemCount).mapM fun i =>
      ofParts? mode (Ty.itemPart i) first rest) = some elements) :
    SharedItems mode (first :: rest) elements := by
  obtain ⟨hl, parts⟩ := placed_of_mapM h
  constructor
  · intro t ht
    have hk := tuples t ht
    cases t with
    | tuple ts =>
      refine ⟨ts, rfl, ?_⟩
      rcases List.mem_cons.1 ht with rfl | ht
      · exact hl.symm
      · exact (same _ ht).trans hl.symm
    | _ => cases hk
  · exact fun i a ha => ofParts?_spec (parts i a ha)

/-- Every unification is found in one of the ways of `Unification.Found`. -/
theorem found_of_plan? {types : List Ty} {u : Unification} (h : plan? mode types = some u) :
    Found mode types u := by
  rw [plan?.eq_def] at h
  cases types with
  | nil =>
    cases h
    exact .nothing
  | cons first rest =>
    simp only at h
    split at h
    · rename_i same
      cases h
      refine .same List.mem_cons_self fun t ht => ?_
      rcases List.mem_cons.1 ht with rfl | ht
      · rfl
      rcases Bool.or_eq_true_iff.1 same with same | same
      · rw [Bool.and_eq_true, List.all_eq_true] at same
        have hd := same.2 t ht
        have hf := same.1
        cases t <;> cases hd
        cases first <;> cases hf
        rfl
      · exact beq_iff_eq.1 (List.all_eq_true.1 same t ht)
    have about := Mixture.describes (first :: rest)
    split at h <;> rename_i hm <;> rw [hm] at about
    · cases h
      exact .undecided about
    · obtain ⟨w, hw, h⟩ := inCollection?_spec h
      exact .into (by simp) h (.collection about hw)
    · rcases eq_some_of_orElse h with h | ⟨-, h⟩
      · obtain ⟨w, hw, h⟩ := inCollection?_spec h
        obtain ⟨apart, hne⟩ := Ty.apart_mixed about.1 about.2.1
        exact .into (by simp) h (.entries apart hne hw)
      · obtain ⟨ht, h⟩ := inOneOf?_spec h
        exact .into (by simp) h (.oneOf ht)
    · split at h <;> rename_i same <;> simp only [List.all_eq_true, beq_iff_eq] at same
      · obtain ⟨attributes, ha, h⟩ := Option.bind_eq_some_iff.1 h
        have shared := sharedAttributes about same ha
        rcases eq_some_of_orElse h with h | ⟨none, h⟩
        · exact .into (by simp) h (.object shared)
        · obtain ⟨w, hw, h⟩ := inCollection?_spec h
          exact .into (by simp) h (.entriesInstead shared none)
      · obtain ⟨w, hw, h⟩ := inCollection?_spec h
        obtain ⟨apart, hne⟩ := Ty.apart_objects about same
        exact .into (by simp) h (.entries apart hne hw)
    · split at h <;> rename_i same <;> simp only [List.all_eq_true, beq_iff_eq] at same
      · obtain ⟨elements, he, h⟩ := Option.bind_eq_some_iff.1 h
        have shared := sharedItems about same he
        rcases eq_some_of_orElse h with h | ⟨none, h⟩
        · exact .into (by simp) h (.tuple shared)
        · obtain ⟨w, hw, h⟩ := inCollection?_spec h
          exact .into (by simp) h (.itemsInstead shared none)
      · obtain ⟨w, hw, h⟩ := inCollection?_spec h
        obtain ⟨apart, hne⟩ := Ty.apart_tuples about same
        exact .into (by simp) h (.items apart hne hw)
    · cases h
    · obtain ⟨ht, h⟩ := inOneOf?_spec h
      exact .into (by simp) h (.oneOf ht)

/-! ## What a target is made of -/

/-- The conversion of each type leads to the target. -/
theorem plan?_conversions {types : List Ty} {u : Unification} (h : plan? mode types = some u) :
    List.Forall₂ (Converts mode u.target) types u.conversions := by
  cases found_of_plan? h with
  | nothing => exact .nil
  | same _ all =>
    rw [List.forall₂_map_right_iff, List.forall₂_same]
    exact fun t ht => .stay (all t ht)
  | undecided =>
    rw [List.forall₂_map_right_iff, List.forall₂_same]
    exact fun _ _ => .convert (.forget rfl)
  | into _ hi _ =>
    obtain ⟨rfl, hc⟩ := into?_spec hi
    exact hc

theorem leads_of_conversion {types : List Ty} {u : Unification} {c : Conversion}
    (h : plan? mode types = some u) (hc : some c ∈ u.conversions) :
    ∃ t ∈ types, Conversion.Leads mode t u.target c := by
  obtain ⟨t, ht, converts⟩ := exists_left_of_forall₂ (plan?_conversions h) hc
  cases converts with
  | convert leads => exact ⟨t, ht, leads⟩

theorem plan?_target_isSome {types : List Ty} {u : Unification} {t : Ty}
    (h : plan? mode types = some u) (ht : t ∈ types) :
    (Conversion.plan? mode t u.target).isSome = true := by
  obtain ⟨c, -, hc⟩ := exists_right_of_forall₂ (plan?_conversions h) ht
  exact hc.plan?_isSome

/-- Objects convert to the object of the attributes that they share. -/
theorem SharedAttributes.into?_isSome {types : List Ty} {attributes : List (String × Ty)}
    (h : SharedAttributes mode types attributes) :
    (into? mode types (.object attributes [])).isSome = true := by
  refine Unification.into?_isSome fun t ht => ?_
  obtain ⟨as, os, rfl, hn⟩ := h.objects t ht
  refine Conversion.plan?_object_isSome fun name a ha => ?_
  obtain ⟨s, hs⟩ := exists_lookup.2 (hn ▸ mem_names ha)
  obtain ⟨w, hw, rfl⟩ := h.parts name a ha
  refine ⟨s, hs, plan?_target_isSome hw ?_⟩
  exact List.mem_flatMap.2 ⟨_, ht, by simp [Ty.attributePart, hs]⟩

/-- Tuples convert to the tuple of the elements that they share. -/
theorem SharedItems.into?_isSome {types elements : List Ty} (h : SharedItems mode types elements) :
    (into? mode types (.tuple elements)).isSome = true := by
  refine Unification.into?_isSome fun t ht => ?_
  obtain ⟨ts, rfl, hl⟩ := h.tuples t ht
  refine Conversion.plan?_tuple_isSome hl fun i s a hs ha => ?_
  obtain ⟨w, hw, rfl⟩ := h.parts i a ha
  refine plan?_target_isSome hw ?_
  exact List.mem_flatMap.2 ⟨_, ht, by simp [Ty.itemPart, hs]⟩

/-- The target of a unification is made of what the types have in common. -/
theorem common_target {types : List Ty} {u : Unification} (h : plan? mode types = some u) :
    Ty.Common types u.target := by
  cases found_of_plan? h with
  | nothing => exact .nothing
  | same hs _ => exact .oneOf hs
  | undecided hd => exact .undecided hd
  | into hne hi hj =>
    rw [(into?_spec hi).1]
    cases hj with
    | oneOf ht => exact .oneOf ht
    | collection all hw =>
      have := Ty.weightAll_parts_lt Ty.elementPart hne
      exact .collection hne all (common_target hw)
    | entries apart hp hw =>
      have := Ty.weightAll_parts_lt Ty.entryParts hne
      exact .entries apart hp (common_target hw)
    | items apart hp hw =>
      have := Ty.weightAll_parts_lt Ty.itemParts hne
      exact .items apart hp (common_target hw)
    | object shared =>
      refine .object hne shared.objects fun name a ha => ?_
      have := Ty.weightAll_parts_lt (Ty.attributePart name) hne
      obtain ⟨w, hw, rfl⟩ := shared.parts name a ha
      exact common_target hw
    | tuple shared =>
      refine .tuple hne shared.tuples fun i a ha => ?_
      have := Ty.weightAll_parts_lt (Ty.itemPart i) hne
      obtain ⟨w, hw, rfl⟩ := shared.parts i a ha
      exact common_target hw
    | entriesInstead shared none =>
      have := shared.into?_isSome
      rw [none] at this
      cases this
    | itemsInstead shared none =>
      have := shared.into?_isSome
      rw [none] at this
      cases this
termination_by Ty.weightAll types

end Unification

end ValueAlgebra
