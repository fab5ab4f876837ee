import Mathlib
import ValueAlgebra.Proofs.ValueParts

/-!
# Instances of types

An instance of a type has types in the place of its dynamic parts. Conformance alone is less: it
lets a dynamic part of either type stand for anything, and two types that conform to a third one can
have nothing in common.

Main statements:

* `Ty.Instantiates.eq_of_hasDynamic`: a type without dynamic parts has no other instance.
* `Ty.Instantiates.conforms`: types with a common instance conform to each other.
-/

namespace ValueAlgebra

open Entries

/-! ## Lists that are related by position -/

section

variable {α β : Type} {R : α → β → Prop} {xs : List α} {ys : List β}

theorem forall₂_of_getElem? (length : xs.length = ys.length)
    (h : ∀ (i : Nat) x y, xs[i]? = some x → ys[i]? = some y → R x y) : List.Forall₂ R xs ys := by
  rw [List.forall₂_iff_get]
  refine ⟨length, fun i hx hy => h i _ _ ?_ ?_⟩
  · exact List.getElem?_eq_getElem hx
  · exact List.getElem?_eq_getElem hy

theorem exists_of_getElem? (length : xs.length = ys.length)
    (h : ∀ (i : Nat) x y, xs[i]? = some x → ys[i]? = some y → R x y) {y : β} (hy : y ∈ ys) :
    ∃ x ∈ xs, R x y :=
  exists_left_of_forall₂ (forall₂_of_getElem? length h) hy

theorem eq_of_getElem? {ys : List α} (length : xs.length = ys.length)
    (h : ∀ (i : Nat) x y, xs[i]? = some x → ys[i]? = some y → x = y) : xs = ys :=
  List.ext_getElem length fun i hx hy =>
    h i _ _ (List.getElem?_eq_getElem hx) (List.getElem?_eq_getElem hy)

theorem exists_getElem? {i : Nat} {y : β} (length : xs.length = ys.length) (hy : ys[i]? = some y) :
    ∃ x, xs[i]? = some x := by
  have hi : i < xs.length := length ▸ (List.getElem?_eq_some_iff.1 hy).1
  exact ⟨xs[i], List.getElem?_eq_getElem hi⟩

end

/-! ## Types with types in the place of dynamic parts -/

namespace Ty

/-- The first type is the second one with a type in the place of each dynamic part. -/
inductive Instantiates : Ty → Ty → Prop where
  | dynamic (t : Ty) : Instantiates t .dynamic
  | number : Instantiates .number .number
  | string : Instantiates .string .string
  | bool : Instantiates .bool .bool
  | capsule (c : CapsuleType) : Instantiates (.capsule c) (.capsule c)
  | list {a b : Ty} (element : Instantiates a b) : Instantiates (.list a) (.list b)
  | set {a b : Ty} (element : Instantiates a b) : Instantiates (.set a) (.set b)
  | map {a b : Ty} (element : Instantiates a b) : Instantiates (.map a) (.map b)
  | object {as bs : List (String × Ty)} {os : List String} (hn : names as = names bs)
      (parts : ∀ (i : Nat) a b, (values as)[i]? = some a → (values bs)[i]? = some b →
        Instantiates a b) : Instantiates (.object as os) (.object bs os)
  | tuple {as bs : List Ty} (hl : as.length = bs.length)
      (parts : ∀ (i : Nat) a b, as[i]? = some a → bs[i]? = some b → Instantiates a b) :
      Instantiates (.tuple as) (.tuple bs)
  | union {as bs : List (String × Ty)} (hn : names as = names bs)
      (parts : ∀ (i : Nat) a b, (values as)[i]? = some a → (values bs)[i]? = some b →
        Instantiates a b) : Instantiates (.union as) (.union bs)

theorem instantiates_refl (t : Ty) : t.Instantiates t := by
  induction t using induction with
  | step t ih =>
    have parts {ts : List Ty} (hts : ∀ s ∈ ts, s ∈ t.components) (i : Nat) (a b : Ty)
        (ha : ts[i]? = some a) (hb : ts[i]? = some b) : a.Instantiates b := by
      rw [ha] at hb
      cases hb
      exact ih a (hts a (List.mem_of_getElem? ha))
    cases t with
    | number => exact .number
    | string => exact .string
    | bool => exact .bool
    | dynamic => exact .dynamic _
    | capsule c => exact .capsule c
    | list e => exact .list (ih e List.mem_cons_self)
    | set e => exact .set (ih e List.mem_cons_self)
    | map e => exact .map (ih e List.mem_cons_self)
    | object as os => exact .object rfl (parts fun s hs => hs)
    | tuple ts => exact .tuple rfl (parts fun s hs => hs)
    | union vs => exact .union rfl (parts fun s hs => hs)

namespace Instantiates

variable {s t a b : Ty}

/-- Entries with the same names and values are the same. -/
theorem entries_ext {as bs : List (String × Ty)} (hn : names as = names bs)
    (parts : ∀ (i : Nat) a b, (values as)[i]? = some a → (values bs)[i]? = some b → a = b) :
    as = bs := by
  rw [← zip_names_values as, ← zip_names_values bs, hn,
    eq_of_getElem? (length_values_of_names hn) parts]

/-- A type without dynamic parts has no other instance than itself. -/
theorem eq_of_hasDynamic (h : s.Instantiates t) (ht : t.hasDynamic = false) : s = t := by
  induction h with
  | dynamic => cases ht
  | number | string | bool | capsule => rfl
  | list _ ih | set _ ih | map _ ih =>
    rw [Ty.hasDynamic] at ht
    rw [ih ht]
  | object hn _ ih =>
    rw [Ty.hasDynamic, anyHasDynamicEntry_eq_false] at ht
    rw [entries_ext hn fun i a b ha hb => ih i a b ha hb (ht b (List.mem_of_getElem? hb))]
  | union hn _ ih =>
    rw [Ty.hasDynamic, anyHasDynamicEntry_eq_false] at ht
    rw [entries_ext hn fun i a b ha hb => ih i a b ha hb (ht b (List.mem_of_getElem? hb))]
  | @tuple as bs hl _ ih =>
    rw [Ty.hasDynamic, anyHasDynamic_eq_false] at ht
    rw [eq_of_getElem? hl fun i a b ha hb => ih i a b ha hb (ht b (List.mem_of_getElem? hb))]

theorem conformsEntries_of_names {as bs : List (String × Ty)} (hn : names as = names bs)
    (nodup : (names bs).Nodup)
    (parts : ∀ (i : Nat) a b, (values as)[i]? = some a → (values bs)[i]? = some b →
      a.conforms b = true) : conformsEntries as bs = true := by
  refine Fills.conformsEntries_of_mem fun name x hx => ?_
  obtain ⟨i, hi⟩ := List.mem_iff_getElem?.1 hx
  have length : bs.length = as.length := by rw [← length_names bs, ← hn, length_names]
  obtain ⟨⟨other, y⟩, hy⟩ := exists_getElem? length hi
  have same : (names as)[i]? = (names bs)[i]? := by rw [hn]
  simp only [names, List.getElem?_map, hi, hy, Option.map_some, Option.some.injEq] at same
  subst same
  refine ⟨y, lookup_of_mem nodup (List.mem_of_getElem? hy), parts i x y ?_ ?_⟩
  · simp only [values, List.getElem?_map, hi, Option.map_some]
  · simp only [values, List.getElem?_map, hy, Option.map_some]

/-- Types with a common instance conform to each other. -/
theorem conforms_of_ordered (ha : s.Instantiates a) (hb : s.Instantiates b) (ho : a.Ordered) :
    a.conforms b = true := by
  have entries {as bs cs : List (String × Ty)} (hn : names as = names bs)
      (hn' : names as = names cs) (sorted : (names bs).Pairwise (· < ·))
      (ih : ∀ (i : Nat) x y z, (values as)[i]? = some x → (values bs)[i]? = some y →
        (values cs)[i]? = some z → y.conforms z = true) :
      (bs.length == cs.length && conformsEntries bs cs) = true := by
    have same := hn.symm.trans hn'
    have length : bs.length = cs.length := by rw [← length_names bs, same, length_names]
    rw [length, beq_self_eq_true, Bool.true_and]
    refine conformsEntries_of_names same (same ▸ Names.nodup_of_sorted sorted) fun i y z hy hz => ?_
    obtain ⟨x, hx⟩ := exists_getElem? (length_values_of_names hn) hy
    exact ih i x y z hx hy hz
  induction ha generalizing b with
  | dynamic => rfl
  | number | string | bool => cases hb <;> rfl
  | capsule => cases hb <;> simp [Ty.conforms]
  | list _ ih =>
    cases hb with
    | dynamic => exact Fills.conforms_dynamic _
    | list element =>
      rw [Ty.conforms]
      exact ih element (ho.inside List.mem_cons_self)
  | set _ ih =>
    cases hb with
    | dynamic => exact Fills.conforms_dynamic _
    | set element =>
      rw [Ty.conforms]
      exact ih element (ho.inside List.mem_cons_self)
  | map _ ih =>
    cases hb with
    | dynamic => exact Fills.conforms_dynamic _
    | map element =>
      rw [Ty.conforms]
      exact ih element (ho.inside List.mem_cons_self)
  | object hn _ ih =>
    cases hb with
    | dynamic => exact Fills.conforms_dynamic _
    | object hn' parts =>
      rw [Ty.conforms]
      exact entries hn hn' ho.here fun i x y z hx hy hz =>
        ih i x y hx hy (parts i x z hx hz) (ho.inside (List.mem_of_getElem? hy))
  | union hn _ ih =>
    cases hb with
    | dynamic => exact Fills.conforms_dynamic _
    | union hn' parts =>
      rw [Ty.conforms]
      exact entries hn hn' ho.here fun i x y z hx hy hz =>
        ih i x y hx hy (parts i x z hx hz) (ho.inside (List.mem_of_getElem? hy))
  | tuple hl _ ih =>
    cases hb with
    | dynamic => exact Fills.conforms_dynamic _
    | tuple hl' parts =>
      rw [Ty.conforms]
      refine Fills.conformsAll_of_getElem (hl.symm.trans hl') fun i y z hy hz => ?_
      obtain ⟨x, hx⟩ := exists_getElem? hl hy
      exact ih i x y hx hy (parts i x z hx hz) (ho.inside (List.mem_of_getElem? hy))

theorem conforms (ha : s.Instantiates a) (hb : s.Instantiates b) (hw : a.WellFormed) :
    a.conforms b = true :=
  ha.conforms_of_ordered hb hw.ordered

end Instantiates

end Ty

end ValueAlgebra
