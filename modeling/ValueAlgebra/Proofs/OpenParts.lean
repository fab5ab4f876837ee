import ValueAlgebra.Conversion.OpenParts
import ValueAlgebra.Proofs.Unify

/-!
# Types of converted nulls and unknowns

A null or unknown that is converted to a type has no parts that could tell what the dynamic parts
of the type become. `Ty.filledFrom` takes them from the type it had. The outcome, with every
attribute required, fills the type.

Main statements:

* `Ty.filledFrom_fills`: filling the dynamic parts of a type gives a type that fills it.
* `Ty.Aims.filledFrom`: the filled type has the structural properties of both types.
-/

namespace ValueAlgebra.Ty

open Entries

/-! ## Targets -/

/-- A type that values with a property can be converted to: its parts have the property once every
attribute is required, and its unions have it as they are, since values keep the union type that
they are made for. -/
def Aims (p : Ty → Prop) (t : Ty) : Prop :=
  t.Everywhere fun u => p u.withoutOptional ∧ (u.isUnion = true → u.Everywhere p)

namespace Aims

variable {p : Ty → Prop} {t : Ty}

theorem withoutOptional (h : Aims p t) : t.withoutOptional.Everywhere p := by
  unfold Aims at h
  induction h with
  | @intro t here _ ih =>
    refine .intro here.1 fun s hs => ?_
    rw [components_withoutOptional] at hs
    obtain ⟨u, hu, rfl⟩ := List.mem_map.1 hs
    exact ih u hu

theorem union {vs : List (String × Ty)} (h : Aims p (.union vs)) : (Ty.union vs).Everywhere p :=
  h.here.2 rfl

theorem ofEverywhere (hp : Structural p) (h : t.Everywhere p) : Aims p t := by
  have wide := h
  unfold Aims
  induction h with
  | @intro t here _ ih =>
    exact .intro ⟨hp.withoutOptional here, fun _ => wide⟩ fun s hs => ih s hs (wide.inside hs)

theorem mono {q : Ty → Prop} (h : Aims p t) (hpq : ∀ t, p t → q t) : Aims q t :=
  Everywhere.mono h fun _ hu => ⟨hpq _ hu.1, fun isUnion => (hu.2 isUnion).mono hpq⟩

theorem wellFormed (h : Aims Headed t) : t.WellFormed := by
  unfold Aims at h
  induction h with
  | @intro t here _ ih =>
    refine .intro ?_ ih
    cases t with
    | object as os =>
      have := here.1
      rw [Ty.withoutOptional, withoutOptionalEntries_eq_mapValues] at this
      exact ⟨by simpa [partNames] using this.1, by simp⟩
    | union vs => exact (here.2 rfl).here
    | _ => exact ⟨Names.proper_nil, by simp⟩

end Aims

/-! ## Sources -/

theorem names_map_snd (ts : List (String × Ty)) (f : String → Ty → Ty) :
    names (ts.map fun t => (t.1, f t.1 t.2)) = names ts := by
  simp [names]

variable [Host]

theorem Common.everywhere_dynamic {p : Ty → Prop} (hp : Structural p) (hd : p .dynamic)
    {types : List Ty} (h : ∀ t ∈ types, t.Everywhere p) : (common types).Everywhere p := by
  unfold common
  split
  · rename_i u hu
    exact (Unification.common_target hu).everywhere hp (fun _ => hd) h
  · exact (everywhere_leaf rfl).2 hd

/-- The parts that a source gives have the structural properties of the source. -/
structure SourceOf (p : Ty → Prop) (s : Ty) : Prop where
  item : s.itemSource.Everywhere p
  entry : s.entrySource.Everywhere p
  named : ∀ name, (s.attributeSource name).Everywhere p
  variant : ∀ name, (s.variantSource name).Everywhere p
  items : ∀ n, ∀ t ∈ s.itemSources n, t.Everywhere p

theorem Everywhere.sourceOf {p : Ty → Prop} (hp : Structural p) (hd : p .dynamic) {s : Ty}
    (h : s.Everywhere p) : SourceOf p s := by
  have dynamic : Ty.dynamic.Everywhere p := (everywhere_leaf rfl).2 hd
  have found {name : String} {entries : List (String × Ty)}
      (h : ∀ t ∈ values entries, t.Everywhere p) :
      ((entries.lookup name).getD .dynamic).Everywhere p := by
    cases hl : entries.lookup name with
    | none => exact dynamic
    | some t => exact h t (mem_values (mem_of_lookup hl))
  cases s with
  | list e | set e =>
    have he := h.inside (s := e) List.mem_cons_self
    exact ⟨he, dynamic, fun _ => dynamic, fun _ => dynamic, fun _ _ h => by cases h⟩
  | map e =>
    have he := h.inside (s := e) List.mem_cons_self
    exact ⟨dynamic, he, fun _ => he, fun _ => dynamic, fun _ _ h => by cases h⟩
  | object as os =>
    have ha := (everywhere_object.1 h).2
    exact ⟨dynamic, Common.everywhere_dynamic hp hd ha, fun _ => found ha, fun _ => dynamic,
      fun _ _ h => by cases h⟩
  | union vs =>
    exact ⟨dynamic, dynamic, fun _ => dynamic, fun _ => found (everywhere_union.1 h).2,
      fun _ _ h => by cases h⟩
  | tuple ts =>
    have hts := (everywhere_tuple.1 h).2
    refine ⟨Common.everywhere_dynamic hp hd hts, dynamic, fun _ => dynamic, fun _ => dynamic,
      fun n t ht => ?_⟩
    simp only [itemSources] at ht
    split at ht
    · exact hts t ht
    · cases ht
  | number | string | bool | dynamic | capsule =>
    exact ⟨dynamic, dynamic, fun _ => dynamic, fun _ => dynamic, fun _ _ h => by cases h⟩

/-! ## Filled types -/

theorem fillAttributes_eq_map (ts : List (String × Ty)) (s : Ty) :
    fillAttributes ts s = ts.map fun t => (t.1, t.2.filledFrom (s.attributeSource t.1)) := by
  induction ts with
  | nil => rw [fillAttributes, List.map_nil]
  | cons t ts ih =>
    obtain ⟨name, t⟩ := t
    rw [fillAttributes, ih, List.map_cons]

theorem fillVariants_eq_map (ts : List (String × Ty)) (s : Ty) :
    fillVariants ts s = ts.map fun t => (t.1, t.2.filledFrom (s.variantSource t.1)) := by
  induction ts with
  | nil => rw [fillVariants, List.map_nil]
  | cons t ts ih =>
    obtain ⟨name, t⟩ := t
    rw [fillVariants, ih, List.map_cons]

theorem length_fillItems (ts sources : List Ty) : (fillItems ts sources).length = ts.length := by
  induction ts generalizing sources with
  | nil => rw [fillItems]
  | cons t ts ih => rw [fillItems, List.length_cons, ih, List.length_cons]

theorem getElem?_fillItems {ts sources : List Ty} {i : Nat} {a b : Ty}
    (ha : (fillItems ts sources)[i]? = some a) (hb : ts[i]? = some b) :
    a = b.filledFrom (sources[i]?.getD .dynamic) := by
  induction ts generalizing sources i with
  | nil => cases hb
  | cons t ts ih =>
    rw [fillItems] at ha
    cases i with
    | zero =>
      cases ha
      cases hb
      cases sources <;> rfl
    | succ i =>
      have := ih ha hb
      cases sources <;> simpa using this

/-- Filling the dynamic parts of a type and requiring every attribute gives a type that fills it. -/
theorem filledFrom_fills {t : Ty} (h : t.WellFormed) (s : Ty) :
    Fills (t.filledFrom s).withoutOptional t := by
  unfold WellFormed at h
  induction h generalizing s with
  | @intro t here inside ih =>
    have entries {vs : List (String × Ty)} {f : String → Ty → Ty} {name : String} {a b : Ty}
        (hv : ∀ b ∈ values vs, ∀ name, Fills (f name b).withoutOptional b)
        (hd : (names vs).Nodup)
        (ha : (name, a) ∈ mapValues Ty.withoutOptional (vs.map fun t => (t.1, f t.1 t.2)))
        (hb : (name, b) ∈ vs) : Fills a b := by
      obtain ⟨x, hx, rfl⟩ := mem_mapValues.1 ha
      obtain ⟨⟨name', y⟩, hy, eq⟩ := List.mem_map.1 hx
      cases eq
      rw [eq_of_mem hd hy hb]
      exact hv b (mem_values hb) _
    cases t with
    | number => simp only [filledFrom, Ty.withoutOptional, Fills.number]
    | string => simp only [filledFrom, Ty.withoutOptional, Fills.string]
    | bool => simp only [filledFrom, Ty.withoutOptional, Fills.bool]
    | capsule c => simp only [filledFrom, Ty.withoutOptional, Fills.capsule]
    | dynamic => exact .dynamic _
    | list e =>
      rw [filledFrom]
      exact .list (ih e List.mem_cons_self _)
    | set e =>
      rw [filledFrom]
      exact .set (ih e List.mem_cons_self _)
    | map e =>
      rw [filledFrom]
      exact .map (ih e List.mem_cons_self _)
    | object as os =>
      rw [filledFrom, Ty.withoutOptional, withoutOptionalEntries_eq_mapValues,
        fillAttributes_eq_map]
      refine .object ?_ (fun name a b ha hb =>
        entries (f := fun name t => t.filledFrom (s.attributeSource name)) ?_ here.1.nodup ha hb)
        (List.nil_subset _)
      · rw [names_mapValues]
        exact names_map_snd as fun name t => t.filledFrom (s.attributeSource name)
      · exact fun b hb name => ih b hb _
    | union vs =>
      rw [filledFrom, Ty.withoutOptional, withoutOptionalEntries_eq_mapValues, fillVariants_eq_map]
      refine .union ?_ fun name a b ha hb =>
        entries (f := fun name t => t.filledFrom (s.variantSource name)) ?_ here.1.nodup ha hb
      · rw [names_mapValues]
        exact names_map_snd vs fun name t => t.filledFrom (s.variantSource name)
      · exact fun b hb name => ih b hb _
    | tuple ts =>
      rw [filledFrom, Ty.withoutOptional, withoutOptionalAll_eq_map]
      refine .tuple (by rw [List.length_map, length_fillItems]) fun i a b ha hb => ?_
      rw [List.getElem?_map, Option.map_eq_some_iff] at ha
      obtain ⟨x, hx, rfl⟩ := ha
      rw [getElem?_fillItems hx hb]
      exact ih b (List.mem_of_getElem? hb) _

/-- A filled type with every attribute required has the structural properties of both types. -/
theorem Aims.filledFrom {p : Ty → Prop} (hp : Structural p) (hd : p .dynamic) {t s : Ty}
    (h : Aims p t) (hs : s.Everywhere p) : (t.filledFrom s).withoutOptional.Everywhere p := by
  unfold Aims at h
  induction h generalizing s with
  | @intro t here inside ih =>
    have source := hs.sourceOf hp hd
    have entries (vs : List (String × Ty)) {f : String → Ty → Ty} {a : Ty}
        (hv : ∀ b ∈ values vs, ∀ name, (f name b).withoutOptional.Everywhere p)
        (ha : a ∈ values (mapValues Ty.withoutOptional (vs.map fun t => (t.1, f t.1 t.2)))) :
        a.Everywhere p := by
      obtain ⟨name, ha⟩ := exists_of_mem_values ha
      obtain ⟨x, hx, rfl⟩ := mem_mapValues.1 ha
      obtain ⟨⟨name', y⟩, hy, eq⟩ := List.mem_map.1 hx
      cases eq
      exact hv y (mem_values hy) _
    cases t with
    | number | string | bool | capsule =>
      simp only [Ty.filledFrom]
      exact (everywhere_leaf rfl).2 here.1
    | dynamic =>
      rw [Ty.filledFrom]
      exact hs.withoutOptional hp
    | list e =>
      rw [Ty.filledFrom]
      exact everywhere_list.2 ⟨hp.list _, ih e List.mem_cons_self source.item⟩
    | set e =>
      rw [Ty.filledFrom]
      exact everywhere_set.2 ⟨hp.set _, ih e List.mem_cons_self source.item⟩
    | map e =>
      rw [Ty.filledFrom]
      exact everywhere_map.2 ⟨hp.map _, ih e List.mem_cons_self source.entry⟩
    | object as os =>
      have top := here.1
      rw [Ty.filledFrom, Ty.withoutOptional, withoutOptionalEntries_eq_mapValues,
        fillAttributes_eq_map]
      rw [Ty.withoutOptional, withoutOptionalEntries_eq_mapValues] at top
      refine everywhere_object.2 ⟨hp.object top ?_, fun a ha =>
        entries as (f := fun name t => t.filledFrom (s.attributeSource name)) ?_ ha⟩
      · rw [names_mapValues, names_mapValues]
        exact names_map_snd as fun name t => t.filledFrom (s.attributeSource name)
      · exact fun b hb name => ih b hb (source.named name)
    | union vs =>
      rw [Ty.filledFrom, Ty.withoutOptional, withoutOptionalEntries_eq_mapValues,
        fillVariants_eq_map]
      refine everywhere_union.2 ⟨hp.union (here.2 rfl).here ?_ ?_, fun a ha =>
        entries vs (f := fun name t => t.filledFrom (s.variantSource name)) ?_ ha⟩
      · rw [names_mapValues]
        exact names_map_snd vs fun name t => t.filledFrom (s.variantSource name)
      · rw [values_mapValues]
        exact List.forall_mem_map.2 fun u _ => optionalFree_withoutOptional u
      · exact fun b hb name => ih b hb (source.variant name)
    | tuple ts =>
      have top := here.1
      rw [Ty.filledFrom, Ty.withoutOptional, withoutOptionalAll_eq_map]
      rw [Ty.withoutOptional, withoutOptionalAll_eq_map] at top
      refine everywhere_tuple.2 ⟨hp.tuple top ?_, fun a ha => ?_⟩
      · rw [List.length_map, List.length_map, length_fillItems]
      · obtain ⟨x, hx, rfl⟩ := List.mem_map.1 ha
        obtain ⟨i, hi⟩ := List.mem_iff_getElem?.1 hx
        have hlt : i < ts.length := by
          rw [← length_fillItems ts]
          exact (List.getElem?_eq_some_iff.1 hi).1
        have hb := List.getElem?_eq_getElem hlt
        rw [getElem?_fillItems hi hb]
        refine ih _ (List.mem_of_getElem? hb) ?_
        cases hsrc : (s.itemSources ts.length)[i]? with
        | none => exact (everywhere_leaf rfl).2 hd
        | some t => exact source.items _ t (List.mem_of_getElem? hsrc)

end ValueAlgebra.Ty
