import Mathlib
import ValueAlgebra.Proofs.CanonicalForm
import ValueAlgebra.Proofs.TypeParts

/-!
# Types that the constructors make

`Ty.objectOf` and `Ty.unionOf` bring names to canonical form, so that names may become one, and they
refuse optional names that are no attributes and unions without a variant. `Ty.Made` are the types
that can be put together with them, and `Ty.Kept` is what such a type keeps to, here and in all
types inside of it.

Main statements:

* `Ty.objectOf_eq_ok`, `Ty.unionOf_eq_ok`: what is in order before names become canonical is in
  order afterwards.
* `Ty.Made.everywhere`: made types are kept.
-/

namespace ValueAlgebra.Ty

open Entries Text

/-! ## Parts by their canonical names -/

section

variable {α : Type} {parts : List (String × α)}

theorem mem_names_namedParts {name : String} :
    name ∈ names (namedParts parts) ↔ ∃ raw ∈ names parts, normalize raw = name := by
  rw [namedParts, mem_names_ofList]
  simp [names]

theorem mem_values_namedParts {a : α} (h : a ∈ values (namedParts parts)) : a ∈ values parts := by
  obtain ⟨name, ha⟩ := exists_of_mem_values h
  obtain ⟨part, hp, eq⟩ := List.mem_map.1 (mem_ofList ha)
  cases eq
  exact List.mem_map_of_mem hp

theorem proper_namedParts (parts : List (String × α)) :
    Names.Proper (names (namedParts parts)) := by
  refine ⟨sorted_ofList _, fun name hn => ?_⟩
  obtain ⟨raw, -, rfl⟩ := mem_names_namedParts.1 hn
  exact normalize_normalize raw

theorem proper_ofList_normalize (names : List String) :
    Names.Proper (Names.ofList (names.map normalize)) := by
  refine ⟨Names.sorted_ofList _, fun name hn => ?_⟩
  obtain ⟨raw, -, rfl⟩ := List.mem_map.1 (Names.mem_ofList.1 hn)
  exact normalize_normalize raw

end

/-! ## What the constructors accept -/

variable {attributes variants : List (String × Ty)} {optional : List String} {t : Ty}

theorem find?_undeclared :
    (optional.find? fun name => !Entries.contains name attributes) = none ↔
      ∀ name ∈ optional, name ∈ names attributes := by
  simp only [List.find?_eq_none, Bool.not_eq_true', Bool.not_eq_false, contains_iff]

theorem objectOf_eq_ok_iff :
    objectOf attributes optional = .ok t ↔
      t = .object (namedParts attributes) (Names.ofList (optional.map normalize)) ∧
        ∀ name ∈ Names.ofList (optional.map normalize), name ∈ names (namedParts attributes) := by
  rw [← find?_undeclared, objectOf]
  split
  · rename_i missing h
    simp [h]
  · rename_i h
    simp [h, eq_comm]

/-- Optional names that are names of attributes stay so in canonical form. -/
theorem objectOf_eq_ok (h : ∀ name ∈ optional, name ∈ names attributes) :
    objectOf attributes optional =
      .ok (.object (namedParts attributes) (Names.ofList (optional.map normalize))) := by
  refine objectOf_eq_ok_iff.2 ⟨rfl, fun name hn => ?_⟩
  obtain ⟨raw, hr, rfl⟩ := List.mem_map.1 (Names.mem_ofList.1 hn)
  exact mem_names_namedParts.2 ⟨raw, h raw hr, rfl⟩

theorem unionOf_eq_ok_iff :
    unionOf variants = .ok t ↔ t = .union (namedParts variants) ∧ namedParts variants ≠ [] := by
  rw [unionOf]
  split
  · rename_i h
    simp [List.isEmpty_iff.1 h]
  · rename_i h
    simp [List.isEmpty_iff.not.1 h, eq_comm]

/-- Variants do not get lost where their names become canonical. -/
theorem unionOf_eq_ok (h : variants ≠ []) :
    unionOf variants = .ok (.union (namedParts variants)) := by
  refine unionOf_eq_ok_iff.2 ⟨rfl, fun none => ?_⟩
  obtain ⟨⟨raw, a⟩, ha⟩ := List.exists_mem_of_ne_nil _ h
  have : normalize raw ∈ names (namedParts variants) :=
    mem_names_namedParts.2 ⟨raw, mem_names ha, rfl⟩
  rw [none] at this
  cases this

/-! ## Made types -/

/-- A type that is put together with the constructors. -/
inductive Made : Ty → Prop where
  | number : Made .number
  | string : Made .string
  | bool : Made .bool
  | dynamic : Made .dynamic
  | capsule (c : CapsuleType) : Made (.capsule c)
  | list {e : Ty} (element : Made e) : Made (.list e)
  | set {e : Ty} (element : Made e) : Made (.set e)
  | map {e : Ty} (element : Made e) : Made (.map e)
  | tuple {elements : List Ty} (parts : ∀ s ∈ elements, Made s) : Made (.tuple elements)
  | object {attributes : List (String × Ty)} {optional : List String} {t : Ty}
      (parts : ∀ s ∈ values attributes, Made s)
      (made : objectOf attributes optional = .ok t) : Made t
  | union {variants : List (String × Ty)} {t : Ty} (parts : ∀ s ∈ values variants, Made s)
      (made : unionOf variants = .ok t) : Made t

/-- Names are in order and in canonical form, optional names are names of attributes, and a union
has a variant. -/
structure Kept (t : Ty) : Prop where
  headed : Headed t
  optional : Names.Proper t.optionalNames
  declared : ∀ name ∈ t.optionalNames, name ∈ t.partNames

theorem kept_of_partNames (hp : t.partNames = []) (ho : t.optionalNames = []) (hu : t ≠ .union []) :
    t.Kept where
  headed := ⟨hp ▸ Names.proper_nil, hu⟩
  optional := ho ▸ Names.proper_nil
  declared := by simp [ho]

/-- What the constructors make keeps to its form at all depths. -/
theorem Made.everywhere (h : t.Made) : t.Everywhere Kept := by
  have plain {s : Ty} (hp : s.partNames = []) (ho : s.optionalNames = []) (hu : s ≠ .union [])
      (parts : ∀ e ∈ s.components, e.Everywhere Kept) : s.Everywhere Kept :=
    .intro (kept_of_partNames hp ho hu) parts
  induction h with
  | number | string | bool | dynamic | capsule => exact plain rfl rfl nofun nofun
  | list _ ih | set _ ih | map _ ih =>
    exact plain rfl rfl nofun (List.forall_mem_singleton.2 ih)
  | tuple _ ih => exact plain rfl rfl nofun ih
  | object _ made ih =>
    obtain ⟨rfl, declared⟩ := objectOf_eq_ok_iff.1 made
    refine everywhere_object.2
      ⟨⟨⟨proper_namedParts _, nofun⟩, proper_ofList_normalize _, declared⟩, ?_⟩
    exact fun s hs => ih s (mem_values_namedParts hs)
  | union _ made ih =>
    obtain ⟨rfl, some⟩ := unionOf_eq_ok_iff.1 made
    refine everywhere_union.2 ⟨⟨⟨proper_namedParts _, ?_⟩, Names.proper_nil, nofun⟩, ?_⟩
    · exact fun none => some (Ty.union.inj none)
    · exact fun s hs => ih s (mem_values_namedParts hs)

end ValueAlgebra.Ty
