import ValueAlgebra.Proofs.OpenElements
import ValueAlgebra.Proofs.Targets

/-!
# Safe unification and the order of types

The target of a safe unification does not depend on the order in which the types are listed. The
search for one of the types goes by an order that depends on their positions, but there is only one
type it can find: two types that safely convert to each other are the same.

Main statements:

* `Conversion.eq_of_plan?_both`: safe conversions lead back only from a type to itself.
* `Unification.safe_target_perm`: types in another order have the same target.
-/

namespace ValueAlgebra

open Entries

/-! ## Conversions there and back -/

/-- A type whose names are in order and whose attributes are all required, at its head. -/
def Ty.Tidy (t : Ty) : Prop :=
  t.Headed ∧ t.optionalNames = []

/-- How far a kind of type is from those that only other kinds convert to safely. -/
def Ty.rank : Ty → Nat
  | .dynamic => 3
  | .list _ => 2
  | .set _ | .map _ | .string => 1
  | _ => 0

theorem Ty.eq_dynamic_of_rank {t : Ty} (h : 3 ≤ t.rank) : t = .dynamic := by
  cases t <;> simp [rank] at h ⊢

namespace Conversion

variable [Host] {mode : Mode} {s t : Ty}

theorem plan?_list_set_safe : plan? .safe (.list s) (.set t) = none := by
  rw [plan?, Rule.between?.eq_def, if_neg (by simp), if_neg (by simp), if_neg (by simp)]
  simp

omit [Host] in
theorem rank_lt_of_primitive {rule : PrimitiveRule}
    (h : PrimitiveRule.between? .safe s t = some rule) : s.rank < t.rank := by
  unfold PrimitiveRule.between? at h
  split at h <;> first | exact Nat.zero_lt_one | cases h

/-- A safe conversion leads to a kind of type of the same or a higher rank. -/
theorem rank_le (h : (plan? .safe s t).isSome = true) : s.rank ≤ t.rank := by
  obtain ⟨c, hc⟩ := Option.isSome_iff_exists.1 h
  obtain ⟨rule, -, planned⟩ := planned_of_plan? hc
  cases planned with
  | toDynamic s => cases s <;> simp [Ty.rank]
  | same => exact le_rfl
  | later hm | pick hm | select hm | ofCapsules hm => cases hm
  | object | tuple | mapItems | union => exact le_rfl
  | emptyMap | entries | gather => exact Nat.zero_le _
  | @items _ wanted a kind _ hk hs =>
    cases kind with
    | map => exact absurd rfl hk
    | list => rcases hs with rfl | rfl <;> simp [Ty.rank, CollectionKind.type]
    | set =>
      rcases hs with rfl | rfl
      · rw [CollectionKind.type, plan?_list_set_safe] at hc
        cases hc
      · exact le_rfl
  | primitive h => exact (rank_lt_of_primitive h).le

theorem mem_names_of_plan?_object {sources targets : List (String × Ty)} {os : List String}
    {name : String} (h : (plan? mode (.object sources os) (.object targets [])).isSome = true)
    (hn : name ∈ names targets) : name ∈ names sources := by
  by_cases eq : Ty.object sources os = .object targets []
  · cases eq
    exact hn
  obtain ⟨t, ht⟩ := exists_of_mem_names hn
  have served := (plan?_object_isSome_iff eq).1 h name t ht
  unfold Served at served
  split at served
  · exact exists_lookup.1 ⟨_, ‹_›⟩
  · cases served

theorem mem_names_of_plan?_union {sources targets : List (String × Ty)} {name : String}
    (h : (plan? mode (.union sources) (.union targets)).isSome = true)
    (hn : name ∈ names sources) : name ∈ names targets := by
  by_cases eq : Ty.union sources = .union targets
  · cases eq
    exact hn
  obtain ⟨c, hc⟩ := Option.isSome_iff_exists.1 h
  obtain ⟨plans, -, paired⟩ := plan?_union_eq_some eq hc
  obtain ⟨s, hs⟩ := exists_of_mem_names hn
  obtain ⟨-, -, t, ht, -⟩ := paired.mem_left hs
  exact exists_lookup.1 ⟨t, ht⟩

omit [Host] in
/-- Named types are the same if they have the same names and the types of each name are the same. -/
theorem entries_eq {as bs : List (String × Ty)} (ha : Names.Proper (names as))
    (hb : Names.Proper (names bs)) (hn : ∀ name, name ∈ names as ↔ name ∈ names bs)
    (h : ∀ name a b, (name, a) ∈ as → (name, b) ∈ bs → a = b) : as = bs := by
  have same := names_eq_of_sorted ha.1 hb.1 hn
  refine eq_of_lookup same ha.nodup fun name hm => ?_
  obtain ⟨a, ha⟩ := exists_lookup.2 hm
  obtain ⟨b, hb⟩ := exists_lookup.2 ((hn name).1 hm)
  rw [ha, hb, h name a b (mem_of_lookup ha) (mem_of_lookup hb)]

/-- Types that safely convert to each other are the same. -/
theorem eq_of_plan?_both (hs : s.Everywhere Ty.Tidy) (ht : t.Everywhere Ty.Tidy)
    (h : (plan? .safe s t).isSome = true) (back : (plan? .safe t s).isSome = true) : s = t := by
  induction s using Ty.induction generalizing t with
  | step s ih =>
    -- by the way back the rank of the target is no higher, so only rules within a kind are left
    have rank := rank_le back
    obtain ⟨c, hc⟩ := Option.isSome_iff_exists.1 h
    obtain ⟨rule, -, planned⟩ := planned_of_plan? hc
    have proper {u : Ty} (hu : u.Everywhere Ty.Tidy) : u.WellFormed := hu.mono fun _ h => h.1
    cases planned with
    | toDynamic s => exact Ty.eq_dynamic_of_rank rank
    | same => rfl
    | later hm | pick hm | select hm | ofCapsules hm => cases hm
    | emptyMap | entries => cases rank
    | @gather _ _ _ kind _ hk => cases kind <;> first | exact absurd rfl hk | cases rank
    | @object sources targets _ os optional =>
      obtain rfl : os = [] := hs.here.2
      obtain rfl : optional = [] := ht.here.2
      have sorted := (proper hs).names_object
      have sorted' := (proper ht).names_object
      refine congrArg (Ty.object · []) (entries_eq sorted sorted' (fun name => ?_) ?_)
      · exact ⟨mem_names_of_plan?_object back, mem_names_of_plan?_object h⟩
      · intro name a b ha hb
        refine ih a (mem_values ha) (hs.ofAttribute ha) (ht.ofAttribute hb) ?_ ?_
        · exact isSome_of_plan?_object sorted'.nodup (lookup_of_mem sorted.nodup ha) hb h
        · exact isSome_of_plan?_object sorted.nodup (lookup_of_mem sorted'.nodup hb) ha back
    | @tuple sources targets _ hl =>
      refine congrArg Ty.tuple (List.ext_getElem hl fun i hi hi' => ?_)
      have ha := List.getElem?_eq_getElem hi
      have hb := List.getElem?_eq_getElem hi'
      have ma := List.mem_of_getElem? ha
      have mb := List.mem_of_getElem? hb
      exact ih _ ma (hs.ofItem ma) (ht.ofItem mb) (isSome_of_plan?_tuple ha hb h)
        (isSome_of_plan?_tuple hb ha back)
    | @union sources targets =>
      have sorted := (proper hs).names_union
      have sorted' := (proper ht).names_union
      refine congrArg Ty.union (entries_eq sorted sorted' (fun name => ?_) ?_)
      · exact ⟨mem_names_of_plan?_union h, mem_names_of_plan?_union back⟩
      · intro name a b ha hb
        exact ih a (mem_values ha) (hs.ofVariant ha) (ht.ofVariant hb)
          (isSome_of_plan?_union sorted'.nodup ha hb h)
          (isSome_of_plan?_union sorted.nodup hb ha back)
    | @mapItems b a =>
      rw [plan?_map_isSome] at h back
      exact congrArg Ty.map (ih a (List.mem_singleton_self a) (Ty.everywhere_map.1 hs).2
        (Ty.everywhere_map.1 ht).2 h back)
    | @items _ b a kind _ hk collection =>
      cases kind with
      | map => exact absurd rfl hk
      | list =>
        rcases collection with rfl | rfl
        · rw [CollectionKind.type, plan?_list_isSome] at h back
          exact congrArg Ty.list (ih a (List.mem_singleton_self a) (Ty.everywhere_list.1 hs).2
            (Ty.everywhere_list.1 ht).2 h back)
        · exact absurd rank (by simp [Ty.rank, CollectionKind.type])
      | set =>
        rcases collection with rfl | rfl
        · rw [CollectionKind.type, plan?_list_set_safe] at h
          cases h
        · rw [CollectionKind.type, plan?_set_isSome] at h back
          exact congrArg Ty.set (ih a (List.mem_singleton_self a) (Ty.everywhere_set.1 hs).2
            (Ty.everywhere_set.1 ht).2 h back)
    | primitive hp => exact absurd rank (Nat.not_le_of_lt (rank_lt_of_primitive hp))

end Conversion

/-! ## Parts -/

/-- Parts that are among the components of a type. -/
def Ty.Parts.Inside (parts : Ty.Parts) : Prop :=
  ∀ t s, s ∈ parts.of t → s ∈ t.components

theorem Ty.attributePart_inside (name : String) : (attributePart name).Inside := by
  intro t s hs
  obtain ⟨as, os, rfl, ha⟩ := mem_attributePart hs
  exact mem_values (mem_of_lookup ha)

theorem Ty.itemPart_inside (i : Nat) : (itemPart i).Inside := by
  intro t s hs
  obtain ⟨ts, rfl, hi⟩ := mem_itemPart hs
  exact List.mem_of_getElem? hi

theorem Ty.Gathering.inside {kind : CollectionKind} {parts : Ty.Parts} {t : Ty}
    (h : Gathering kind parts t) : parts.Inside := by
  cases h with
  | collection => exact fun _ _ => elementPart_components
  | map | object => exact fun _ _ => entryParts_components
  | tuple => exact fun _ _ => itemParts_components

/-! ## Types in another order -/

section Order

variable {types others : List Ty}

theorem Mixture.isOnly_perm (h : types.Perm others) (kind : Ty → Bool) :
    isOnly kind types = isOnly kind others := by
  rw [isOnly, isOnly, h.any_eq, h.all_eq]

theorem Mixture.of_perm (h : types.Perm others) : Mixture.of types = Mixture.of others := by
  unfold Mixture.of
  simp only [isOnly_perm h, h.any_eq, h.all_eq]

theorem eq_nil_iff_of_perm (h : types.Perm others) : types = [] ↔ others = [] := by
  rw [← List.length_eq_zero_iff, h.length_eq, List.length_eq_zero_iff]

theorem Ty.agreed?_perm {α : Type} [DecidableEq α] (f : Ty → α) (h : types.Perm others) :
    agreed? f types = agreed? f others := by
  ext a
  rw [agreed?_eq_some_iff, agreed?_eq_some_iff, ne_eq, ne_eq, eq_nil_iff_of_perm h]
  simp only [h.mem_iff]

namespace Unification

/-- The way a target is looked for does not depend on the order of the types. -/
theorem Way.of_perm (h : types.Perm others) : Way.of types = Way.of others := by
  unfold Way.of Way.ofDifferent
  simp only [eq_nil_iff_of_perm h, Ty.agreed?_perm _ h, Mixture.of_perm h]

variable [Host] {mode : Mode}

theorem reach?_perm (h : types.Perm others) (t : Ty) :
    reach? mode types t = reach? mode others t := by
  rw [reach?, reach?, h.all_eq]

theorem gathered?_perm (h : types.Perm others) {kind : CollectionKind} {parts : Ty.Parts}
    (part : target? mode (parts.all types) = target? mode (parts.all others)) :
    gathered? mode kind parts types = gathered? mode kind parts others := by
  rw [gathered?, gathered?, part]
  simp only [reach?_perm h]

/-- Whichever type is found first, it is the only one that all others safely convert to. -/
theorem oneOf?_perm (h : types.Perm others) (tidy : ∀ t ∈ types, t.Everywhere Ty.Tidy) :
    oneOf? .safe types = oneOf? .safe others := by
  have found {ts us : List Ty} {t : Ty} (h : ts.Perm us) (tidy : ∀ t ∈ ts, t.Everywhere Ty.Tidy)
      (ht : oneOf? .safe ts = some t) : oneOf? .safe us = some t := by
    obtain ⟨mem, reached⟩ := oneOf?_spec ht
    have some_ : (oneOf? .safe us).isSome = true :=
      oneOf?_isSome_iff.2 ⟨t, h.mem_iff.1 mem, fun s hs => reached s (h.mem_iff.2 hs)⟩
    obtain ⟨u, hu⟩ := Option.isSome_iff_exists.1 some_
    obtain ⟨mem', reached'⟩ := oneOf?_spec hu
    have back := h.mem_iff.2 mem'
    rw [hu, Conversion.eq_of_plan?_both (tidy u back) (tidy t mem) (reached u back)
      (reached' t (h.mem_iff.1 mem))]
  ext t
  exact ⟨found h tidy, found h.symm fun t ht => tidy t (h.mem_iff.2 ht)⟩

/-- One step: the target does not depend on the order of the types if what parts of them unify to
does not. -/
theorem target?_perm_of_parts (h : types.Perm others) (tidy : ∀ t ∈ types, t.Everywhere Ty.Tidy)
    (part : ∀ parts : Ty.Parts, types ≠ [] → parts.Inside →
      target? .safe (parts.all types) = target? .safe (parts.all others)) :
    target? .safe types = target? .safe others := by
  by_cases hne : types = []
  · rw [hne] at h
    rw [hne, List.nil_perm.1 h]
  have part parts := part parts hne
  obtain ⟨first, hf⟩ := List.exists_mem_of_ne_nil _ hne
  have about := Way.describes types
  rw [target?_eq, target?_eq, ← Way.of_perm h]
  cases hw : Way.of types with rw [hw] at about
  | fixed | nowhere => rfl
  | gathered kind parts => exact gathered?_perm h (part parts (about first hf).inside)
  | mapOrOneOf =>
    rw [Way.target?, Way.target?, gathered?_perm h (part _ (about first hf).inside),
      oneOf?_perm h tidy]
  | attributes names => simp only [Way.target?, part _ (Ty.attributePart_inside _)]
  | items length => simp only [Way.target?, part _ (Ty.itemPart_inside _)]
  | oneOf => exact oneOf?_perm h tidy

theorem target?_perm {types others : List Ty} (h : types.Perm others)
    (tidy : ∀ t ∈ types, t.Everywhere Ty.Tidy) : target? .safe types = target? .safe others := by
  refine target?_perm_of_parts h tidy fun parts hne inside => ?_
  have := Ty.weightAll_parts_lt parts hne
  refine target?_perm (h.flatMap_right _) fun s hs => ?_
  obtain ⟨t, ht, hs⟩ := Ty.mem_parts_all.1 hs
  exact (tidy t ht).inside (inside t s hs)
termination_by Ty.weightAll types

/-- Types without optional attributes unify safely in every order or in none, and in the same
target. -/
theorem safe_target_perm (h : types.Perm others) (proper : ∀ t ∈ types, t.WellFormed)
    (free : ∀ t ∈ types, t.OptionalFree) :
    (plan? .safe types).map Unification.target = (plan? .safe others).map Unification.target :=
  target?_perm h fun t ht => (proper t ht).and (free t ht)

omit [Host] in
/-- A string type is found wherever it stands. -/
theorem safe_target_perm_strings :
    letI := Host.plain
    [Ty.number, .bool, .string].Perm [.string, .number, .bool] ∧
      (∀ t ∈ [Ty.number, .bool, .string], t.WellFormed ∧ t.OptionalFree) ∧
      (plan? .safe [.number, .bool, .string]).map Unification.target = some .string ∧
      (plan? .safe [.string, .number, .bool]).map Unification.target = some .string := by
  let := Host.plain
  have perm : [Ty.number, .bool, .string].Perm [.string, .number, .bool] := by decide
  have leaves {p : Ty → Prop} (hp : Ty.Structural p) :
      ∀ t ∈ [Ty.number, .bool, .string], t.Everywhere p := by
    simp only [List.forall_mem_cons, List.not_mem_nil, false_imp_iff, implies_true, and_true]
    exact ⟨(Ty.everywhere_leaf rfl).2 hp.number, (Ty.everywhere_leaf rfl).2 hp.bool,
      (Ty.everywhere_leaf rfl).2 hp.string⟩
  have proper := leaves Ty.structural_headed
  have free := leaves Ty.structural_optionalNames
  have found : (plan? .safe [.number, .bool, .string]).map Unification.target = some .string := by
    cbv
  exact ⟨perm, fun t ht => ⟨proper t ht, free t ht⟩, found,
    (safe_target_perm perm proper free).symm.trans found⟩

end Unification

end Order

end ValueAlgebra
