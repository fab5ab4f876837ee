import ValueAlgebra.Conversion.Resolve
import ValueAlgebra.Proofs.Filling

/-!
# What types have in common

`Ty.Common types t` says that a type is made of parts that some types have in common: it is one of
them, or a collection, object or tuple of what their parts have in common, or `dynamic` where one of
them is. The targets of unifications are of this kind.

Main statements:

* `Ty.Common.everywhere`: a structural property of types is one of what they have in common.
* `Ty.Common.fills`: where types fill a common type, what they have in common fills it too.
-/

namespace ValueAlgebra

open Entries

/-! ## Parts of some types -/

namespace Ty

theorem mem_parts_all {parts : Parts} {types : List Ty} {s : Ty} :
    s ∈ parts.all types ↔ ∃ t ∈ types, s ∈ parts.of t :=
  List.mem_flatMap

theorem elementPart_components {s t : Ty} (h : s ∈ elementPart.of t) : s ∈ t.components := by
  cases t <;> first | exact h | cases h

theorem entryParts_components {s t : Ty} (h : s ∈ entryParts.of t) : s ∈ t.components := by
  cases t <;> first | exact h | cases h

theorem itemParts_components {s t : Ty} (h : s ∈ itemParts.of t) : s ∈ t.components := by
  cases t <;> first | exact h | cases h

theorem mem_attributePart {name : String} {s t : Ty} (h : s ∈ (attributePart name).of t) :
    ∃ as os, t = .object as os ∧ as.lookup name = some s := by
  cases t with
  | object as os => exact ⟨as, os, rfl, Option.mem_toList.1 h⟩
  | _ => cases h

theorem mem_itemPart {i : Nat} {s t : Ty} (h : s ∈ (itemPart i).of t) :
    ∃ ts, t = .tuple ts ∧ ts[i]? = some s := by
  cases t with
  | tuple ts => exact ⟨ts, rfl, Option.mem_toList.1 h⟩
  | _ => cases h

/-- A part of one of some types is among their parts. -/
theorem parts_ne_nil {parts : Parts} {types : List Ty} {t : Ty} (ht : t ∈ types)
    (h : parts.of t ≠ []) : parts.all types ≠ [] := by
  obtain ⟨s, hs⟩ := List.exists_mem_of_ne_nil _ h
  have : s ∈ types.flatMap parts.of := List.mem_flatMap.2 ⟨t, ht, hs⟩
  exact List.ne_nil_of_mem this

theorem weightAll_parts_lt (parts : Parts) {types : List Ty} (h : types ≠ []) :
    weightAll (parts.all types) < weightAll types := by
  cases types with
  | nil => cases h rfl
  | cons first rest => exact parts.weightAll_all_lt first rest

/-! ## Collections of a kind -/

theorem everywhere_collection {p : Ty → Prop} {kind : CollectionKind} {e : Ty} :
    (kind.type e).Everywhere p ↔ p (kind.type e) ∧ e.Everywhere p := by
  cases kind with
  | list => exact everywhere_list
  | set => exact everywhere_set
  | map => exact everywhere_map

theorem Structural.collection {p : Ty → Prop} (hp : Structural p) (kind : CollectionKind) (e : Ty) :
    p (kind.type e) := by
  cases kind with
  | list => exact hp.list e
  | set => exact hp.set e
  | map => exact hp.map e

end Ty

/-! ## Types in common -/

/-- Two of some types are built in different ways. -/
def Ty.Apart (types : List Ty) : Prop :=
  ∃ s ∈ types, ∃ t ∈ types,
    s.isMap ≠ t.isMap ∨ s.attributeNames ≠ t.attributeNames ∨ s.itemCount ≠ t.itemCount

/-- A type that is made of what some types have in common. -/
inductive Ty.Common : List Ty → Ty → Prop where
  | nothing : Common [] .dynamic
  | undecided {types : List Ty} (h : .dynamic ∈ types) : Common types .dynamic
  | oneOf {types : List Ty} {t : Ty} (h : t ∈ types) : Common types t
  | collection {types : List Ty} {kind : CollectionKind} {e : Ty} (hne : types ≠ [])
      (h : ∀ t ∈ types, ∃ e, t = kind.type e) (part : Common (Ty.elementPart.all types) e) :
      Common types (kind.type e)
  | entries {types : List Ty} {e : Ty} (apart : Ty.Apart types)
      (hne : Ty.entryParts.all types ≠ []) (part : Common (Ty.entryParts.all types) e) :
      Common types (.map e)
  | items {types : List Ty} {e : Ty} (apart : Ty.Apart types)
      (hne : Ty.itemParts.all types ≠ []) (part : Common (Ty.itemParts.all types) e) :
      Common types (.list e)
  | object {types : List Ty} {attributes : List (String × Ty)} (hne : types ≠ [])
      (h : ∀ t ∈ types, ∃ as os, t = .object as os ∧ names as = names attributes)
      (parts : ∀ name a, (name, a) ∈ attributes → Common ((Ty.attributePart name).all types) a) :
      Common types (.object attributes [])
  | tuple {types : List Ty} {elements : List Ty} (hne : types ≠ [])
      (h : ∀ t ∈ types, ∃ ts, t = .tuple ts ∧ ts.length = elements.length)
      (parts : ∀ (i : Nat) a, elements[i]? = some a → Common ((Ty.itemPart i).all types) a) :
      Common types (.tuple elements)

namespace Ty

theorem elementPart_ne_nil {types : List Ty} {kind : CollectionKind} (hne : types ≠ [])
    (h : ∀ t ∈ types, ∃ e, t = kind.type e) : elementPart.all types ≠ [] := by
  obtain ⟨t, ht⟩ := List.exists_mem_of_ne_nil _ hne
  obtain ⟨e, rfl⟩ := h t ht
  exact parts_ne_nil ht (by cases kind <;> simp [CollectionKind.type, elementPart])

theorem attributePart_ne_nil {types : List Ty} {attributes : List (String × Ty)} {name : String}
    (hne : types ≠ [])
    (h : ∀ t ∈ types, ∃ as os, t = .object as os ∧ names as = names attributes)
    (hn : name ∈ names attributes) : (attributePart name).all types ≠ [] := by
  obtain ⟨t, ht⟩ := List.exists_mem_of_ne_nil _ hne
  obtain ⟨as, os, rfl, eq⟩ := h t ht
  obtain ⟨a, ha⟩ := exists_lookup.2 (eq ▸ hn)
  exact parts_ne_nil ht (by simp [attributePart, ha])

theorem itemPart_ne_nil {types elements : List Ty} {i : Nat} (hne : types ≠ [])
    (h : ∀ t ∈ types, ∃ ts, t = .tuple ts ∧ ts.length = elements.length)
    (hi : i < elements.length) : (itemPart i).all types ≠ [] := by
  obtain ⟨t, ht⟩ := List.exists_mem_of_ne_nil _ hne
  obtain ⟨ts, rfl, hl⟩ := h t ht
  have := List.getElem?_eq_getElem (hl ▸ hi)
  exact parts_ne_nil ht (by simp [itemPart, this])

/-- Objects with different attributes, of which one at least has some. -/
theorem apart_objects {first : Ty} {rest : List Ty}
    (objects : ∀ t ∈ first :: rest, t.isObject = true)
    (different : ¬ ∀ t ∈ rest, t.attributeNames = first.attributeNames) :
    Apart (first :: rest) ∧ entryParts.all (first :: rest) ≠ [] := by
  push Not at different
  obtain ⟨t, ht, hne⟩ := different
  have ht := List.mem_cons_of_mem first ht
  refine ⟨⟨t, ht, first, List.mem_cons_self, .inr (.inl hne)⟩, ?_⟩
  have some (s : Ty) (hs : s ∈ first :: rest) (h : s.attributeNames ≠ []) :
      entryParts.all (first :: rest) ≠ [] := by
    refine parts_ne_nil hs ?_
    have ho := objects s hs
    cases s with
    | object as os =>
      intro eq
      refine h ?_
      rw [attributeNames, names, List.map_eq_nil_iff]
      exact List.map_eq_nil_iff.1 eq
    | _ => cases ho
  by_cases hf : first.attributeNames = []
  · exact some t ht (hf ▸ hne)
  · exact some first List.mem_cons_self hf

/-- Tuples of different lengths, of which one at least has an element. -/
theorem apart_tuples {first : Ty} {rest : List Ty}
    (tuples : ∀ t ∈ first :: rest, t.isTuple = true)
    (different : ¬ ∀ t ∈ rest, t.itemCount = first.itemCount) :
    Apart (first :: rest) ∧ itemParts.all (first :: rest) ≠ [] := by
  push Not at different
  obtain ⟨t, ht, hne⟩ := different
  have ht := List.mem_cons_of_mem first ht
  refine ⟨⟨t, ht, first, List.mem_cons_self, .inr (.inr hne)⟩, ?_⟩
  have some (s : Ty) (hs : s ∈ first :: rest) (h : s.itemCount ≠ 0) :
      itemParts.all (first :: rest) ≠ [] := by
    refine parts_ne_nil hs ?_
    have hk := tuples s hs
    cases s with
    | tuple ts => exact fun eq => h (List.length_eq_zero_iff.2 eq)
    | _ => cases hk
  by_cases hf : first.itemCount = 0
  · exact some t ht (hf ▸ hne)
  · exact some first List.mem_cons_self hf

/-- A map among maps and objects. -/
theorem apart_mixed {types : List Ty} (map : ∃ t ∈ types, t.isMap = true)
    (object : ∃ t ∈ types, t.isObject = true) :
    Apart types ∧ entryParts.all types ≠ [] := by
  obtain ⟨s, hs, hm⟩ := map
  obtain ⟨t, ht, ho⟩ := object
  cases s <;> cases hm
  cases t <;> cases ho
  exact ⟨⟨_, hs, _, ht, .inl (by intro h; cases h)⟩, parts_ne_nil hs (by simp [entryParts])⟩

/-- A structural property of types is one of what they have in common. Where nothing is asked of
`dynamic`, there has to be a type. -/
theorem Common.everywhere {p : Ty → Prop} (hp : Structural p) {types : List Ty} {t : Ty}
    (h : Common types t) (hd : types = [] → p .dynamic) (all : ∀ s ∈ types, s.Everywhere p) :
    t.Everywhere p := by
  have parts {parts : Parts} {types : List Ty} (all : ∀ s ∈ types, s.Everywhere p)
      (hc : ∀ t s, s ∈ parts.of t → s ∈ t.components) : ∀ s ∈ parts.all types, s.Everywhere p := by
    intro s hs
    obtain ⟨t, ht, hs⟩ := mem_parts_all.1 hs
    exact (all t ht).inside (hc t s hs)
  induction h with
  | nothing => exact (everywhere_leaf rfl).2 (hd rfl)
  | undecided h | oneOf h => exact all _ h
  | @collection types kind e hne hk part ih =>
    have he := ih (fun eq => absurd eq (elementPart_ne_nil hne hk))
      (parts all fun _ _ => elementPart_components)
    exact everywhere_collection.2 ⟨hp.collection kind e, he⟩
  | @entries types e _ hne part ih =>
    exact everywhere_map.2 ⟨hp.map e, ih (fun eq => absurd eq hne)
      (parts all fun _ _ => entryParts_components)⟩
  | @items types e _ hne part ih =>
    exact everywhere_list.2 ⟨hp.list e, ih (fun eq => absurd eq hne)
      (parts all fun _ _ => itemParts_components)⟩
  | @object types attributes hne hk part ih =>
    refine everywhere_object.2 ⟨?_, fun a ha => ?_⟩
    · obtain ⟨t, ht⟩ := List.exists_mem_of_ne_nil _ hne
      obtain ⟨as, os, rfl, hn⟩ := hk t ht
      exact hp.object (all _ ht).here hn.symm
    · obtain ⟨name, ha⟩ := exists_of_mem_values ha
      refine ih name a ha (fun eq => absurd eq (attributePart_ne_nil hne hk (mem_names ha))) ?_
      intro s hs
      obtain ⟨t, ht, hs⟩ := mem_parts_all.1 hs
      obtain ⟨as, os, rfl, ha⟩ := mem_attributePart hs
      exact (all _ ht).ofAttribute (mem_of_lookup ha)
  | @tuple types elements hne hk part ih =>
    refine everywhere_tuple.2 ⟨?_, fun a ha => ?_⟩
    · obtain ⟨t, ht⟩ := List.exists_mem_of_ne_nil _ hne
      obtain ⟨ts, rfl, hl⟩ := hk t ht
      exact hp.tuple (all _ ht).here hl.symm
    · obtain ⟨i, hi⟩ := List.mem_iff_getElem?.1 ha
      have hlt := (List.getElem?_eq_some_iff.1 hi).1
      refine ih i a hi (fun eq => absurd eq (itemPart_ne_nil hne hk hlt)) ?_
      intro s hs
      obtain ⟨t, ht, hs⟩ := mem_parts_all.1 hs
      obtain ⟨ts, rfl, hi⟩ := mem_itemPart hs
      exact (all _ ht).ofItem (List.mem_of_getElem? hi)

/-- Types that fill one type other than `dynamic` are built in one way. -/
theorem not_apart {types : List Ty} {w : Ty} (hw : w ≠ .dynamic) (all : ∀ s ∈ types, Fills s w) :
    ¬ Apart types := by
  rintro ⟨s, hs, t, ht, h⟩
  have hs := all s hs
  have ht := all t ht
  cases hs <;> cases ht <;>
    simp_all [Ty.isMap, Ty.attributeNames, Ty.itemCount]

/-- What types have in common fills what they all fill. -/
theorem Common.fills {types : List Ty} {t w : Ty} (h : Common types t) (hne : types ≠ [])
    (all : ∀ s ∈ types, Fills s w) : Fills t w := by
  by_cases hw : w = .dynamic
  · exact hw ▸ .dynamic t
  induction h generalizing w with
  | nothing => exact absurd rfl hne
  | undecided h | oneOf h => exact all _ h
  | @collection types kind e hne hk _ ih =>
    have part {e' : Ty} (h : ∀ s ∈ elementPart.all types, Fills s e') : Fills e e' := by
      by_cases he : e' = .dynamic
      · exact he ▸ .dynamic e
      · exact ih (elementPart_ne_nil hne hk) h he
    obtain ⟨t, ht⟩ := List.exists_mem_of_ne_nil _ hne
    obtain ⟨e₀, rfl⟩ := hk t ht
    have first := all _ ht
    cases kind <;> simp only [CollectionKind.type] at first hk ⊢ <;>
      cases first <;> try contradiction
    all_goals
      constructor
      refine part fun s hs => ?_
      obtain ⟨t, ht, hs⟩ := mem_parts_all.1 hs
      obtain ⟨e₁, rfl⟩ := hk t ht
      cases all _ ht
      cases List.mem_singleton.1 hs
      assumption
  | entries apart | items apart => exact absurd apart (not_apart hw all)
  | @object types attributes hne hk _ ih =>
    obtain ⟨t, ht⟩ := List.exists_mem_of_ne_nil _ hne
    obtain ⟨as, os, rfl, hn⟩ := hk t ht
    cases all _ ht with
    | dynamic => exact absurd rfl hw
    | @object _ bs _ ps names _ _ =>
      refine .object (hn.symm.trans names) (fun name a b ha hb => ?_) (List.nil_subset _)
      by_cases hd : b = .dynamic
      · exact hd ▸ .dynamic a
      refine ih name a ha (attributePart_ne_nil hne hk (mem_names ha)) (fun s hs => ?_) hd
      obtain ⟨t, ht, hs⟩ := mem_parts_all.1 hs
      obtain ⟨as', os', rfl, ha'⟩ := mem_attributePart hs
      cases all _ ht with
      | object _ parts _ => exact parts name s b (mem_of_lookup ha') hb
  | @tuple types elements hne hk _ ih =>
    obtain ⟨t, ht⟩ := List.exists_mem_of_ne_nil _ hne
    obtain ⟨ts, rfl, hl⟩ := hk t ht
    cases all _ ht with
    | dynamic => exact absurd rfl hw
    | @tuple _ bs length _ =>
      refine .tuple (hl.symm.trans length) fun i a b ha hb => ?_
      by_cases hd : b = .dynamic
      · exact hd ▸ .dynamic a
      have hlt := (List.getElem?_eq_some_iff.1 ha).1
      refine ih i a ha (itemPart_ne_nil hne hk hlt) (fun s hs => ?_) hd
      obtain ⟨t, ht, hs⟩ := mem_parts_all.1 hs
      obtain ⟨ts', rfl, hi⟩ := mem_itemPart hs
      cases all _ ht with
      | tuple _ parts => exact parts i s b hi hb

end Ty

end ValueAlgebra
