import Mathlib
import ValueAlgebra.Proofs.TypeInstances

/-!
# Conformance and common instances

`Ty.conforms` takes `dynamic` on either side for any type, and it does not ask which attributes are
optional. Two types conform to each other exactly where some type can be obtained from both of them
by requiring every attribute and putting a type in the place of each dynamic part. The dynamic parts
of one type need not stand for the same type.

Main statements:

* `Ty.conforms_withoutOptional`: optional attributes play no part in conformance.
* `Ty.exists_commonInstance`: types that conform have a common instance, built part by part.
* `Ty.conforms_iff_obtained`: conformance as a common instance, its symmetry, and what is left of it
  without dynamic parts.
-/

namespace ValueAlgebra.Ty

open Entries

/-! ## Optional attributes -/

theorem conformsEntries_mapValues {f : Ty → Ty} {as bs : List (String × Ty)}
    (h : ∀ x ∈ values as, ∀ y, (f x).conforms (f y) = x.conforms y) :
    conformsEntries (mapValues f as) (mapValues f bs) = conformsEntries as bs := by
  induction as with
  | nil => rfl
  | cons entry as ih =>
    obtain ⟨name, x⟩ := entry
    have rest := ih fun y hy => h y (List.mem_cons_of_mem _ hy)
    rw [mapValues, List.map_cons, ← mapValues, conformsEntries, conformsEntries, lookup_mapValues,
      rest]
    cases bs.lookup name with
    | none => rfl
    | some y => simp only [Option.map_some, h x List.mem_cons_self y]

theorem conformsAll_map {f : Ty → Ty} {as bs : List Ty}
    (h : ∀ x ∈ as, ∀ y, (f x).conforms (f y) = x.conforms y) :
    conformsAll (as.map f) (bs.map f) = conformsAll as bs := by
  induction as generalizing bs with
  | nil => cases bs <;> rfl
  | cons x as ih =>
    cases bs with
    | nil => rfl
    | cons y bs =>
      have rest : conformsAll (as.map f) (bs.map f) = conformsAll as bs :=
        ih fun z hz => h z (List.mem_cons_of_mem _ hz)
      simp only [List.map_cons, conformsAll, h x List.mem_cons_self y, rest]

/-- Which attributes are optional plays no part in conformance. -/
theorem conforms_withoutOptional (a b : Ty) :
    a.withoutOptional.conforms b.withoutOptional = a.conforms b := by
  induction a using induction generalizing b with
  | step a ih =>
    have length {as : List (String × Ty)} :
        (withoutOptionalEntries as).length = as.length := by
      rw [withoutOptionalEntries_eq_mapValues, mapValues, List.length_map]
    -- Types of different kinds do not conform, and primitives have no attributes.
    cases a <;> cases b <;> try rfl
    case list.list e e' => exact ih e List.mem_cons_self e'
    case set.set e e' => exact ih e List.mem_cons_self e'
    case map.map e e' => exact ih e List.mem_cons_self e'
    case object.object as os bs ps =>
      simp only [withoutOptional, conforms, length]
      rw [withoutOptionalEntries_eq_mapValues, withoutOptionalEntries_eq_mapValues,
        conformsEntries_mapValues ih]
    case tuple.tuple as bs =>
      simp only [withoutOptional, conforms]
      rw [withoutOptionalAll_eq_map, withoutOptionalAll_eq_map]
      exact conformsAll_map ih
    case union.union as bs =>
      simp only [withoutOptional, conforms, length]
      rw [withoutOptionalEntries_eq_mapValues, withoutOptionalEntries_eq_mapValues,
        conformsEntries_mapValues ih]

/-! ## Parts that conform -/

theorem conformsAll_iff {as bs : List Ty} :
    conformsAll as bs = true ↔ List.Forall₂ (fun x y => x.conforms y = true) as bs := by
  induction as generalizing bs with
  | nil => cases bs <;> simp [conformsAll]
  | cons x as ih => cases bs <;> simp [conformsAll, ih]

theorem exists_of_conformsEntries {as bs : List (String × Ty)} (h : conformsEntries as bs = true)
    {name : String} {x : Ty} (hx : (name, x) ∈ as) :
    ∃ y, bs.lookup name = some y ∧ x.conforms y = true := by
  induction as with
  | nil => cases hx
  | cons entry as ih =>
    obtain ⟨other, x'⟩ := entry
    rw [conformsEntries, Bool.and_eq_true] at h
    rcases List.mem_cons.1 hx with eq | hx
    · cases eq
      cases hy : bs.lookup name with
      | none => simp [hy] at h
      | some y => exact ⟨y, rfl, by simpa [hy] using h.1⟩
    · exact ih h.2 hx

/-- As many names, each of them found among others in order, are the same names. -/
theorem names_eq_of_subset {as bs : List (String × Ty)} (ha : (names as).Pairwise (· < ·))
    (hb : (names bs).Pairwise (· < ·)) (hl : as.length = bs.length)
    (h : names as ⊆ names bs) : names as = names bs := by
  have perm : (names as).Perm (names bs) :=
    (List.subperm_of_subset (Names.nodup_of_sorted ha) h).perm_of_length_le (by
      rw [length_names, length_names, hl])
  exact names_eq_of_sorted ha hb fun _ => perm.mem_iff

/-- Named parts in order conform only where they have the same names and conform one by one. -/
theorem forall₂_of_conformsEntries {as bs : List (String × Ty)}
    (ha : (names as).Pairwise (· < ·)) (hb : (names bs).Pairwise (· < ·))
    (h : (as.length == bs.length && conformsEntries as bs) = true) :
    names as = names bs ∧
      List.Forall₂ (fun x y => x.conforms y = true) (values as) (values bs) := by
  rw [Bool.and_eq_true, beq_iff_eq] at h
  have hn : names as = names bs := by
    refine names_eq_of_subset ha hb h.1 fun name hname => ?_
    obtain ⟨x, hx⟩ := exists_of_mem_names hname
    obtain ⟨y, hy, -⟩ := exists_of_conformsEntries h.2 hx
    exact mem_names (mem_of_lookup hy)
  refine ⟨hn, forall₂_of_getElem? (length_values_of_names hn) fun i x y hx hy => ?_⟩
  rw [values, List.getElem?_map, Option.map_eq_some_iff] at hx hy
  obtain ⟨⟨name, x⟩, hx, rfl⟩ := hx
  obtain ⟨⟨other, y⟩, hy, rfl⟩ := hy
  -- At one position both lists have the same name, so the name is looked up to this part.
  have same : (names as)[i]? = (names bs)[i]? := by rw [hn]
  simp only [names, List.getElem?_map, hx, hy, Option.map_some, Option.some.injEq] at same
  subst same
  obtain ⟨y', hy', conforms⟩ := exists_of_conformsEntries h.2 (List.mem_of_getElem? hx)
  rw [lookup_of_mem (Names.nodup_of_sorted hb) (List.mem_of_getElem? hy)] at hy'
  cases hy'
  exact conforms

/-! ## Common instances -/

section

variable {p : Ty → Prop}

/-- A type that is an instance of two types, with a property that all types inside of it have. -/
structure CommonInstance (p : Ty → Prop) (a b c : Ty) : Prop where
  everywhere : c.Everywhere p
  left : c.Instantiates a
  right : c.Instantiates b

/-- Common instances of parts, one by one. -/
theorem exists_common_parts {as bs : List Ty}
    (h : List.Forall₂ (fun a b => ∃ c, CommonInstance p a b c) as bs) :
    ∃ cs : List Ty, (∀ c ∈ cs, c.Everywhere p) ∧ List.Forall₂ Instantiates cs as ∧
      List.Forall₂ Instantiates cs bs := by
  induction h with
  | nil => exact ⟨[], by simp, .nil, .nil⟩
  | cons head _ ih =>
    obtain ⟨c, hc⟩ := head
    obtain ⟨cs, everywhere, left, right⟩ := ih
    exact ⟨c :: cs, List.forall_mem_cons.2 ⟨hc.everywhere, everywhere⟩, .cons hc.left left,
      .cons hc.right right⟩

/-- Common instances of named parts, under the names that both have. -/
theorem exists_common_entries {as bs : List (String × Ty)} (ha : (names as).Pairwise (· < ·))
    (hb : (names bs).Pairwise (· < ·))
    (common : ∀ x ∈ values as, ∀ y ∈ values bs, x.conforms y = true →
      ∃ c, CommonInstance p x y c)
    (h : (as.length == bs.length && conformsEntries as bs) = true) :
    ∃ cs : List (String × Ty), names cs = names as ∧ names cs = names bs ∧
      (∀ c ∈ values cs, c.Everywhere p) ∧ List.Forall₂ Instantiates (values cs) (values as) ∧
      List.Forall₂ Instantiates (values cs) (values bs) := by
  obtain ⟨hn, conforms⟩ := forall₂_of_conformsEntries ha hb h
  obtain ⟨cs, everywhere, left, right⟩ := exists_common_parts (forall₂_of_mem conforms common)
  have length : (names as).length = cs.length := by
    rw [left.length_eq, length_names, values, List.length_map]
  refine ⟨(names as).zip cs, names_zip length, by rw [names_zip length, hn], ?_⟩
  rw [values_zip length]
  exact ⟨everywhere, left, right⟩

/-- Types that conform have a common instance, if no attribute in them is optional. -/
theorem exists_commonInstance (hp : Structural p)
    (sorted : ∀ t, p t → t.partNames.Pairwise (· < ·))
    (required : ∀ t, p t → t.optionalNames = []) {a b : Ty} (ha : a.Everywhere p)
    (hb : b.Everywhere p) (h : a.conforms b = true) : ∃ c, CommonInstance p a b c := by
  induction a using induction generalizing b with
  | step a ih =>
    by_cases da : a = .dynamic
    · exact ⟨b, hb, da ▸ .dynamic b, instantiates_refl b⟩
    by_cases db : b = .dynamic
    · exact ⟨a, ha, instantiates_refl a, db ▸ .dynamic a⟩
    have common (x : Ty) (hx : x ∈ a.components) (y : Ty) (hy : y ∈ b.components)
        (conforms : x.conforms y = true) : ∃ c, CommonInstance p x y c :=
      ih x hx (ha.inside hx) (hb.inside hy) conforms
    have sa := sorted a ha.here
    have sb := sorted b hb.here
    -- Types of different kinds do not conform.
    cases a <;> cases b <;> try first | contradiction | exact absurd h Bool.false_ne_true
    case number.number => exact ⟨.number, ha, .number, .number⟩
    case string.string => exact ⟨.string, ha, .string, .string⟩
    case bool.bool => exact ⟨.bool, ha, .bool, .bool⟩
    case capsule.capsule c d =>
      have same : Ty.capsule c = .capsule d := by simpa [conforms] using h
      exact ⟨.capsule c, ha, .capsule c, same ▸ .capsule c⟩
    case list.list e e' =>
      obtain ⟨c, hc⟩ := common e List.mem_cons_self e' List.mem_cons_self h
      exact ⟨.list c, everywhere_list.2 ⟨hp.list c, hc.everywhere⟩, .list hc.left, .list hc.right⟩
    case set.set e e' =>
      obtain ⟨c, hc⟩ := common e List.mem_cons_self e' List.mem_cons_self h
      exact ⟨.set c, everywhere_set.2 ⟨hp.set c, hc.everywhere⟩, .set hc.left, .set hc.right⟩
    case map.map e e' =>
      obtain ⟨c, hc⟩ := common e List.mem_cons_self e' List.mem_cons_self h
      exact ⟨.map c, everywhere_map.2 ⟨hp.map c, hc.everywhere⟩, .map hc.left, .map hc.right⟩
    case object.object as os bs ps =>
      have none : os = [] := required _ ha.here
      have none' : ps = [] := required _ hb.here
      subst none none'
      obtain ⟨cs, hn, hn', everywhere, left, right⟩ := exists_common_entries sa sb common h
      exact ⟨.object cs [], everywhere_object.2 ⟨hp.object ha.here hn, everywhere⟩,
        .object hn fun _ _ _ => getElem?_of_forall₂ left,
        .object hn' fun _ _ _ => getElem?_of_forall₂ right⟩
    case tuple.tuple as bs =>
      obtain ⟨cs, everywhere, left, right⟩ :=
        exists_common_parts (forall₂_of_mem (conformsAll_iff.1 h) common)
      exact ⟨.tuple cs, everywhere_tuple.2 ⟨hp.tuple ha.here left.length_eq, everywhere⟩,
        .tuple left.length_eq fun _ _ _ => getElem?_of_forall₂ left,
        .tuple right.length_eq fun _ _ _ => getElem?_of_forall₂ right⟩
    case union.union as bs =>
      obtain ⟨cs, hn, hn', everywhere, left, right⟩ := exists_common_entries sa sb common h
      have free (c : Ty) (hc : c ∈ values cs) : c.OptionalFree :=
        (everywhere c hc).mono required
      exact ⟨.union cs, everywhere_union.2 ⟨hp.union ha.here hn free, everywhere⟩,
        .union hn fun _ _ _ => getElem?_of_forall₂ left,
        .union hn' fun _ _ _ => getElem?_of_forall₂ right⟩

end

/-! ## Conformance as a common instance -/

/-- The first type is obtained from the second one by requiring every attribute and putting a type
in the place of each dynamic part. -/
def ObtainedFrom (c t : Ty) : Prop :=
  c.Instantiates t.withoutOptional

variable {a b c : Ty}

theorem ObtainedFrom.eq_of_hasDynamic (h : c.ObtainedFrom a) (ha : a.hasDynamic = false) :
    c = a.withoutOptional :=
  Instantiates.eq_of_hasDynamic h (by rwa [hasDynamic_withoutOptional])

/-- What is kept of a type when attributes become required can be kept of a common instance. -/
theorem conforms_iff_exists_obtained {p : Ty → Prop} (hp : Structural p)
    (sorted : ∀ t, p t → t.partNames.Pairwise (· < ·)) (ha : a.Everywhere p)
    (hb : b.Everywhere p) :
    a.conforms b = true ↔ ∃ c : Ty, c.Everywhere p ∧ c.ObtainedFrom a ∧ c.ObtainedFrom b := by
  rw [← conforms_withoutOptional]
  constructor
  · intro h
    obtain ⟨c, common⟩ := exists_commonInstance (hp.and structural_optionalNames)
      (fun t ht => sorted t ht.1) (fun _ ht => ht.2)
      ((ha.withoutOptional hp).and (optionalFree_withoutOptional a))
      ((hb.withoutOptional hp).and (optionalFree_withoutOptional b)) h
    exact ⟨c, common.everywhere.mono fun _ ht => ht.1, common.left, common.right⟩
  · rintro ⟨c, -, left, right⟩
    exact left.conforms_of_ordered right ((ha.withoutOptional hp).mono sorted)

/-- Two types conform exactly where some type can be obtained from both, and one that is well-formed
if they are. So the order of the two does not matter, and without dynamic parts they are the same
type up to optional attributes. -/
theorem conforms_iff_obtained (ha : a.Ordered) (hb : b.Ordered) :
    (a.conforms b = true ↔ ∃ c : Ty, c.Ordered ∧ c.ObtainedFrom a ∧ c.ObtainedFrom b) ∧
    (a.WellFormed → b.WellFormed →
      (a.conforms b = true ↔ ∃ c : Ty, c.WellFormed ∧ c.ObtainedFrom a ∧ c.ObtainedFrom b)) ∧
    a.conforms b = b.conforms a ∧
    (a.hasDynamic = false → b.hasDynamic = false →
      (a.conforms b = true ↔ a.withoutOptional = b.withoutOptional)) := by
  have obtained {a b : Ty} (ha : a.Ordered) (hb : b.Ordered) :
      a.conforms b = true ↔ ∃ c : Ty, c.Ordered ∧ c.ObtainedFrom a ∧ c.ObtainedFrom b :=
    conforms_iff_exists_obtained structural_ordered (fun _ sorted => sorted) ha hb
  refine ⟨obtained ha hb, fun wa wb => ?_, ?_, fun da db => ?_⟩
  · exact conforms_iff_exists_obtained structural_headed (fun _ headed => headed.1.1) wa wb
  · rw [Bool.eq_iff_iff, obtained ha hb, obtained hb ha]
    exact exists_congr fun c => and_congr_right fun _ => and_comm
  · rw [obtained ha hb]
    constructor
    · rintro ⟨c, -, left, right⟩
      rw [← left.eq_of_hasDynamic da, right.eq_of_hasDynamic db]
    · intro same
      have ordered : a.withoutOptional.Ordered := Everywhere.withoutOptional structural_ordered ha
      exact ⟨a.withoutOptional, ordered, instantiates_refl _, same ▸ instantiates_refl _⟩

/-- Each of two objects leaves open a part that the other one gives, and the attribute that one of
them lets out stays. -/
theorem conforms_iff_obtained_objects :
    let a : Ty := .object [("from", .list .dynamic), ("to", .dynamic)] ["to"]
    let b : Ty := .object [("from", .dynamic), ("to", .map .bool)] []
    a.Ordered ∧ b.Ordered ∧
      (∃ c : Ty, c.Ordered ∧ c.ObtainedFrom a ∧ c.ObtainedFrom b) ∧ b.conforms a = true := by
  intro a b
  have ha : a.Ordered := by decide
  have hb : b.Ordered := by decide
  have conforms : a.conforms b = true := by decide
  obtain ⟨obtained, -, symm, -⟩ := conforms_iff_obtained ha hb
  exact ⟨ha, hb, obtained.1 conforms, symm ▸ conforms⟩

end ValueAlgebra.Ty
