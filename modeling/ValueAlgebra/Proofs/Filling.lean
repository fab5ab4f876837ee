import ValueAlgebra.Proofs.TypeParts

/-!
# Types that fill in the dynamic parts of others

A type fills another one where it has a type in the place of each `dynamic` of the other, and is
built in the same way elsewhere. Optional attributes may have become required. Other than
`Ty.conforms`, which takes `dynamic` on either side for any type, `Ty.Fills` is an order.

Main statements:

* `Ty.Fills.trans`: filling is transitive.
* `Ty.Fills.conforms`: a type conforms to each type that it fills.
* `Ty.Fills.withoutOptional_eq`: a type without dynamic parts is filled, up to optional attributes,
  by itself alone.
-/

namespace ValueAlgebra.Ty

/-- The first type is the second one with its dynamic parts filled in. Attributes that are optional
in the second type may be required in the first one. -/
inductive Fills : Ty → Ty → Prop where
  | dynamic (t : Ty) : Fills t .dynamic
  | number : Fills .number .number
  | string : Fills .string .string
  | bool : Fills .bool .bool
  | capsule (c : CapsuleType) : Fills (.capsule c) (.capsule c)
  | list {a b : Ty} (element : Fills a b) : Fills (.list a) (.list b)
  | set {a b : Ty} (element : Fills a b) : Fills (.set a) (.set b)
  | map {a b : Ty} (element : Fills a b) : Fills (.map a) (.map b)
  | object {as bs : List (String × Ty)} {os ps : List String}
      (names : Entries.names as = Entries.names bs)
      (parts : ∀ name a b, (name, a) ∈ as → (name, b) ∈ bs → Fills a b) (optional : os ⊆ ps) :
      Fills (.object as os) (.object bs ps)
  | tuple {as bs : List Ty} (length : as.length = bs.length)
      (parts : ∀ (i : Nat) a b, as[i]? = some a → bs[i]? = some b → Fills a b) :
      Fills (.tuple as) (.tuple bs)
  | union {as bs : List (String × Ty)} (names : Entries.names as = Entries.names bs)
      (parts : ∀ name a b, (name, a) ∈ as → (name, b) ∈ bs → Fills a b) :
      Fills (.union as) (.union bs)

namespace WellFormed

theorem names_object {as : List (String × Ty)} {os : List String}
    (h : (Ty.object as os).WellFormed) : Names.Proper (Entries.names as) :=
  h.here.1

theorem names_union {vs : List (String × Ty)} (h : (Ty.union vs).WellFormed) :
    Names.Proper (Entries.names vs) :=
  h.here.1

end WellFormed

namespace Fills

variable {a b c t : Ty}

/-! ## An order -/

theorem refl {t : Ty} (h : t.WellFormed) : Fills t t := by
  induction h with
  | @intro t here inside ih =>
    cases t with
    | number => exact .number
    | string => exact .string
    | bool => exact .bool
    | dynamic => exact .dynamic _
    | capsule c => exact .capsule c
    | list e => exact .list (ih e List.mem_cons_self)
    | set e => exact .set (ih e List.mem_cons_self)
    | map e => exact .map (ih e List.mem_cons_self)
    | object as os =>
      refine .object rfl (fun name x y hx hy => ?_) (List.Subset.refl _)
      rw [Entries.eq_of_mem here.1.nodup hx hy]
      exact ih y (Entries.mem_values hy)
    | union vs =>
      refine .union rfl fun name x y hx hy => ?_
      rw [Entries.eq_of_mem here.1.nodup hx hy]
      exact ih y (Entries.mem_values hy)
    | tuple ts =>
      refine .tuple rfl fun i x y hx hy => ?_
      rw [hx] at hy
      cases hy
      exact ih x (List.mem_of_getElem? hx)

theorem trans (hab : Fills a b) (hbc : Fills b c) : Fills a c := by
  induction hab generalizing c with
  | dynamic t =>
    cases hbc
    exact .dynamic t
  | number | string | bool | capsule => exact hbc
  | list _ ih =>
    cases hbc with
    | dynamic => exact .dynamic _
    | list element => exact .list (ih element)
  | set _ ih =>
    cases hbc with
    | dynamic => exact .dynamic _
    | set element => exact .set (ih element)
  | map _ ih =>
    cases hbc with
    | dynamic => exact .dynamic _
    | map element => exact .map (ih element)
  | object names _ optional ih =>
    cases hbc with
    | dynamic => exact .dynamic _
    | object names' parts optional' =>
      refine .object (names.trans names') (fun name x z hx hz => ?_)
        (List.Subset.trans optional optional')
      obtain ⟨y, hy⟩ := Entries.exists_of_mem_names (names ▸ Entries.mem_names hx)
      exact ih name x y hx hy (parts name y z hy hz)
  | union names _ ih =>
    cases hbc with
    | dynamic => exact .dynamic _
    | union names' parts =>
      refine .union (names.trans names') fun name x z hx hz => ?_
      obtain ⟨y, hy⟩ := Entries.exists_of_mem_names (names ▸ Entries.mem_names hx)
      exact ih name x y hx hy (parts name y z hy hz)
  | @tuple as bs length _ ih =>
    cases hbc with
    | dynamic => exact .dynamic _
    | tuple length' parts =>
      refine .tuple (length.trans length') fun i x z hx hz => ?_
      have hi : i < bs.length := length ▸ (List.getElem?_eq_some_iff.1 hx).1
      exact ih i x bs[i] hx (List.getElem?_eq_getElem hi)
        (parts i bs[i] z (List.getElem?_eq_getElem hi) hz)

/-! ## Conformance -/

theorem conformsEntries_of_mem {as bs : List (String × Ty)}
    (h : ∀ name x, (name, x) ∈ as → ∃ y, bs.lookup name = some y ∧ x.conforms y = true) :
    conformsEntries as bs = true := by
  induction as with
  | nil => rfl
  | cons entry as ih =>
    obtain ⟨name, x⟩ := entry
    obtain ⟨y, hy, hc⟩ := h name x List.mem_cons_self
    have rest := ih fun n z hz => h n z (List.mem_cons_of_mem _ hz)
    simp only [conformsEntries, hy, hc, rest, Bool.and_self]

theorem conformsAll_of_getElem {as bs : List Ty} (hl : as.length = bs.length)
    (h : ∀ (i : Nat) x y, as[i]? = some x → bs[i]? = some y → x.conforms y = true) :
    conformsAll as bs = true := by
  induction as generalizing bs with
  | nil =>
    cases bs with
    | nil => rfl
    | cons => cases hl
  | cons x as ih =>
    cases bs with
    | nil => cases hl
    | cons y bs =>
      have head := h 0 x y rfl rfl
      have rest := ih (Nat.succ.inj hl) fun i => h (i + 1)
      simp only [conformsAll, head, rest, Bool.and_self]

theorem conforms_dynamic (t : Ty) : t.conforms .dynamic = true := by
  cases t <;> rfl

/-- A type conforms to each type that it fills. -/
theorem conforms (h : Fills a b) : a.conforms b = true := by
  induction h with
  | dynamic t => exact conforms_dynamic t
  | number | string | bool => rfl
  | capsule c => simp [Ty.conforms]
  | list _ ih | set _ ih | map _ ih => rwa [Ty.conforms]
  | @object as bs os ps names _ _ ih | @union as bs names _ ih =>
    have hl : as.length = bs.length := by
      rw [← Entries.length_names as, names, Entries.length_names]
    simp only [Ty.conforms, hl, beq_self_eq_true, Bool.true_and]
    refine conformsEntries_of_mem fun name x hx => ?_
    obtain ⟨y, hy⟩ := Entries.exists_lookup.2 (names ▸ Entries.mem_names hx)
    exact ⟨y, hy, ih name x y hx (Entries.mem_of_lookup hy)⟩
  | tuple length _ ih =>
    rw [Ty.conforms]
    exact conformsAll_of_getElem length ih

/-! ## Optional attributes -/

/-- Up to optional attributes, a type without dynamic parts is filled by itself alone. -/
theorem withoutOptional_eq (h : Fills a b) (hb : b.hasDynamic = false) :
    a.withoutOptional = b.withoutOptional := by
  induction h with
  | dynamic => cases hb
  | number | string | bool | capsule => rfl
  | list _ ih | set _ ih | map _ ih =>
    rw [Ty.hasDynamic] at hb
    simp only [withoutOptional, ih hb]
  | object names _ _ ih | union names _ ih =>
    rw [Ty.hasDynamic, anyHasDynamicEntry_eq_false] at hb
    have := Entries.mapValues_congr names fun name x y hx hy =>
      ih name x y hx hy (hb y (Entries.mem_values hy))
    simp only [withoutOptional, withoutOptionalEntries_eq_mapValues, this]
  | tuple length _ ih =>
    rw [Ty.hasDynamic, anyHasDynamic_eq_false] at hb
    simp only [withoutOptional, withoutOptionalAll_eq_map, tuple.injEq]
    refine List.ext_getElem (by simp [length]) fun i hi hj => ?_
    simp only [List.length_map] at hi hj
    simp only [List.getElem_map]
    exact ih i _ _ (List.getElem?_eq_getElem hi) (List.getElem?_eq_getElem hj)
      (hb _ (List.getElem_mem hj))

/-- A type that fills one without optional attributes has none outside of dynamic parts. -/
theorem optionalFree (h : Fills a b) (hb : b.hasDynamic = false) (ho : b.OptionalFree) :
    a.OptionalFree := by
  induction h with
  | dynamic => cases hb
  | number | string | bool | capsule => exact ho
  | list _ ih =>
    rw [Ty.hasDynamic] at hb
    exact everywhere_list.2 ⟨rfl, ih hb (everywhere_list.1 ho).2⟩
  | set _ ih =>
    rw [Ty.hasDynamic] at hb
    exact everywhere_set.2 ⟨rfl, ih hb (everywhere_set.1 ho).2⟩
  | map _ ih =>
    rw [Ty.hasDynamic] at hb
    exact everywhere_map.2 ⟨rfl, ih hb (everywhere_map.1 ho).2⟩
  | @object as bs os ps names _ optional ih =>
    rw [Ty.hasDynamic, anyHasDynamicEntry_eq_false] at hb
    have hps : ps = [] := ho.here
    refine everywhere_object.2 ⟨List.subset_nil.1 (hps ▸ optional), fun x hx => ?_⟩
    obtain ⟨name, hx⟩ := Entries.exists_of_mem_values hx
    obtain ⟨y, hy⟩ := Entries.exists_of_mem_names (names ▸ Entries.mem_names hx)
    exact ih name x y hx hy (hb y (Entries.mem_values hy)) (ho.ofAttribute hy)
  | union names _ ih =>
    rw [Ty.hasDynamic, anyHasDynamicEntry_eq_false] at hb
    refine everywhere_union.2 ⟨rfl, fun x hx => ?_⟩
    obtain ⟨name, hx⟩ := Entries.exists_of_mem_values hx
    obtain ⟨y, hy⟩ := Entries.exists_of_mem_names (names ▸ Entries.mem_names hx)
    exact ih name x y hx hy (hb y (Entries.mem_values hy)) (ho.ofVariant hy)
  | @tuple as bs length _ ih =>
    rw [Ty.hasDynamic, anyHasDynamic_eq_false] at hb
    refine everywhere_tuple.2 ⟨rfl, fun x hx => ?_⟩
    obtain ⟨i, hi⟩ := List.mem_iff_getElem?.1 hx
    have hl : i < bs.length := length ▸ (List.getElem?_eq_some_iff.1 hi).1
    have hy := List.getElem?_eq_getElem hl
    exact ih i x bs[i] hi hy (hb _ (List.mem_of_getElem? hy)) (ho.ofItem (List.mem_of_getElem? hy))

/-- A type with neither dynamic parts nor optional attributes is filled by itself alone. -/
theorem eq_of_optionalFree (h : Fills a b) (hb : b.hasDynamic = false) (ho : b.OptionalFree) :
    a = b := by
  rw [← (h.optionalFree hb ho).withoutOptional_eq, ← ho.withoutOptional_eq, h.withoutOptional_eq hb]

/-- Requiring every attribute fills a type. -/
theorem withoutOptional (h : t.WellFormed) : Fills t.withoutOptional t := by
  induction h with
  | @intro t here inside ih =>
    cases t with
    | number => exact .number
    | string => exact .string
    | bool => exact .bool
    | dynamic => exact .dynamic _
    | capsule c => exact .capsule c
    | list e => exact .list (ih e List.mem_cons_self)
    | set e => exact .set (ih e List.mem_cons_self)
    | map e => exact .map (ih e List.mem_cons_self)
    | object as os =>
      rw [Ty.withoutOptional, withoutOptionalEntries_eq_mapValues]
      refine .object (Entries.names_mapValues ..) (fun name x y hx hy => ?_) (List.nil_subset _)
      obtain ⟨z, hz, rfl⟩ := Entries.mem_mapValues.1 hx
      rw [Entries.eq_of_mem here.1.nodup hz hy]
      exact ih y (Entries.mem_values hy)
    | union vs =>
      rw [Ty.withoutOptional, withoutOptionalEntries_eq_mapValues]
      refine .union (Entries.names_mapValues ..) fun name x y hx hy => ?_
      obtain ⟨z, hz, rfl⟩ := Entries.mem_mapValues.1 hx
      rw [Entries.eq_of_mem here.1.nodup hz hy]
      exact ih y (Entries.mem_values hy)
    | tuple ts =>
      rw [Ty.withoutOptional, withoutOptionalAll_eq_map]
      refine .tuple (List.length_map _) fun i x y hx hy => ?_
      rw [List.getElem?_map, hy] at hx
      cases hx
      exact ih y (List.mem_of_getElem? hy)

end Fills

end ValueAlgebra.Ty
