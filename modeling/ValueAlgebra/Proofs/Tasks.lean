import ValueAlgebra.Proofs.Steady

/-!
# Runs of parts

A rule that is planned for a value runs the conversions of its parts. What is known of the value and
of the rule is known of each part and of its conversion, too: the part is within the scope, its type
fills the type that its conversion is planned from, and the type that it is planned to can be aimed
at. `Task` states this of a value and a conversion, and here is a lemma for each planned rule that
has parts.

Main statements:

* `Applicable.object`, `Applicable.tuple`, `Applicable.union`: the parts of values that rules are
  applied to.
* `Rule.object_task`, `Rule.gather_task`, `Rule.variant_task`: the conversions of these parts.
-/

namespace ValueAlgebra

open Entries Text

/-- A value within a scope that a type of the scope was told of. -/
structure Fitted (S : Scope) (s : Ty) (v : Value) : Prop where
  source : s.Everywhere S.types
  within : v.Within S
  fills : v.ty.Fills s

/-- A value within a scope fits its own type. -/
theorem Value.Within.fitted {S : Scope} (hS : S.Closed) {v : Value} (h : v.Within S) :
    Fitted S v.ty v :=
  ⟨h.ty hS, h, .refl (h.wellFormed_ty hS)⟩

/-! ## Parts of values that rules are applied to -/

namespace Applicable

variable {S : Scope} {s t : Ty} {v : Value}

theorem object {sources : List (String × Ty)} {os : List String} (hS : S.Closed)
    (hv : Applicable S (.object sources os) t v) :
    ∃ attributes, v = .bare (.object attributes) ∧ names attributes = names sources ∧
      Names.Proper (names attributes) ∧
        ∀ name x s, (name, x) ∈ attributes → (name, s) ∈ sources → Fitted S s x := by
  obtain ⟨attributes, rfl, hn, fills⟩ := hv.decided.object hv.fills
  cases hv.within with
  | object _ within =>
    exact ⟨attributes, rfl, hn, hn ▸ Ty.WellFormed.names_object (hv.source.mono hS.headed),
      fun name x s hx hs =>
        ⟨hv.source.ofAttribute hs, within x (mem_values hx), fills name x s hx hs⟩⟩

theorem tuple {sources : List Ty} (hv : Applicable S (.tuple sources) t v) :
    ∃ items, v = .bare (.tuple items) ∧ items.length = sources.length ∧
      ∀ (i : Nat) x s, items[i]? = some x → sources[i]? = some s → Fitted S s x := by
  obtain ⟨items, rfl, hn, fills⟩ := hv.decided.tuple hv.fills
  cases hv.within with
  | tuple _ within =>
    exact ⟨items, rfl, hn, fun i x s hx hs => ⟨hv.source.ofItem (List.mem_of_getElem? hs),
      within x (List.mem_of_getElem? hx), fills i x s hx hs⟩⟩

theorem list (hv : Applicable S (.list s) t v) :
    ∃ e items, v = .bare (.list e items) ∧ e.Everywhere S.types ∧
      ∀ x ∈ items, x.ty = e ∧ Fitted S s x := by
  obtain ⟨e, items, rfl, fills⟩ := hv.decided.list hv.fills
  cases hv.within with
  | list he ht hi =>
    exact ⟨e, items, rfl, he, fun x hx =>
      ⟨ht x hx, (Ty.everywhere_list.1 hv.source).2, hi x hx, ht x hx ▸ fills⟩⟩

theorem set (hv : Applicable S (.set s) t v) :
    ∃ e items, v = .bare (.set e items) ∧ e.Everywhere S.types ∧
      ∀ x ∈ items, x.ty = e ∧ Fitted S s x := by
  obtain ⟨e, items, rfl, fills⟩ := hv.decided.set hv.fills
  cases hv.within with
  | set he ht hi =>
    exact ⟨e, items, rfl, he, fun x hx =>
      ⟨ht x hx, (Ty.everywhere_set.1 hv.source).2, hi x hx, ht x hx ▸ fills⟩⟩

theorem map (hv : Applicable S (.map s) t v) :
    ∃ e entries, v = .bare (.map e entries) ∧ e.Everywhere S.types ∧
      Names.Proper (names entries) ∧ ∀ x ∈ values entries, x.ty = e ∧ Fitted S s x := by
  obtain ⟨e, entries, rfl, fills⟩ := hv.decided.map hv.fills
  cases hv.within with
  | map he hn ht hi =>
    exact ⟨e, entries, rfl, he, hn, fun x hx =>
      ⟨ht x hx, (Ty.everywhere_map.1 hv.source).2, hi x hx, ht x hx ▸ fills⟩⟩

/-- In a deep scope, what a union holds fits the type that its variant has in the source. -/
theorem union {sources : List (String × Ty)} (hS : S.Closed) (hd : S.deep)
    (hv : Applicable S (.union sources) t v) :
    ∃ variants name inner, v = .bare (.union variants name inner) ∧ normalize name = name ∧
      name ∈ names sources ∧ ∀ s, (name, s) ∈ sources → Fitted S s inner := by
  obtain ⟨variants, name, inner, rfl, hn, fills⟩ := hv.decided.union hv.fills
  have source : (Ty.union sources).WellFormed := hv.source.mono hS.headed
  cases hv.within with
  | union _ hl _ ha hi =>
    have ofSources : name ∈ names sources := hn ▸ mem_names (mem_of_lookup hl)
    refine ⟨variants, name, inner, rfl, source.names_union.2 name ofSources, ofSources,
      fun s hs => ⟨(Ty.everywhere_union.1 hv.source).2 s (mem_values hs), hi hd, ?_⟩⟩
    exact (ha hd).trans (fills name _ s (mem_of_lookup hl) hs)

end Applicable

/-! ## Conversions of parts -/

/-- What is known of a value that a conversion is run on, and of the conversion. -/
structure Task [Host] (S : Scope) (mode : Mode) (steady : Prop) (s t : Ty) (c : Conversion)
    (v : Value) : Prop extends Fitted S s v where
  leads : Conversion.Leads mode s t c
  target : Ty.Aims S.types t
  steady : steady → Steady S mode s t

namespace Rule

variable [Host] {S : Scope} {mode : Mode} {steady : Prop} {s t : Ty} {v : Value}

open Conversion

theorem object_task {sources targets absent : List (String × Ty)} {os optional : List String}
    {plans : List (String × Conversion)} {attributes : List (String × Value)}
    (h : ObjectPlan mode sources optional targets plans absent)
    (hv : Applicable S (.object sources os) (.object targets optional) v)
    (hst : steady → Steady S mode (.object sources os) (.object targets optional))
    (parts : ∀ name x s, (name, x) ∈ attributes → (name, s) ∈ sources → Fitted S s x)
    {name : String} {x : Value} {c : Conversion} (hx : (name, x) ∈ attributes)
    (hc : plans.lookup name = some c) : ∃ s t, (name, t) ∈ targets ∧ Task S mode steady s t c x := by
  obtain ⟨s, t, hs, ht, hp⟩ := h.converted name c (mem_of_lookup hc)
  have hs := mem_of_lookup hs
  refine ⟨s, t, ht, parts name x s hx hs, .planned hp, hv.target.ofAttribute ht, fun hst' => ?_⟩
  refine (hst hst').part (mem_values ht) fun hd => ?_
  rw [Ty.hasDynamic, Ty.anyHasDynamicEntry_eq_false] at hd
  exact hd s (mem_values hs)

theorem tuple_task {sources targets : List Ty} {plans : List Conversion} {items : List Value}
    (h : List.Forall₂ (fun p c => plan? mode p.1 p.2 = some c) (sources.zip targets) plans)
    (hv : Applicable S (.tuple sources) (.tuple targets) v)
    (hst : steady → Steady S mode (.tuple sources) (.tuple targets))
    (parts : ∀ (i : Nat) x s, items[i]? = some x → sources[i]? = some s → Fitted S s x)
    {x : Value} {c : Conversion} (hx : (x, c) ∈ items.zip plans) :
    ∃ s t, t ∈ targets ∧ Task S mode steady s t c x := by
  obtain ⟨i, hi⟩ := List.mem_iff_getElem?.1 hx
  obtain ⟨hx, hc⟩ := List.getElem?_zip_eq_some.1 hi
  obtain ⟨s, t, hs, ht, hp⟩ := getElem?_of_zip h hc
  have ht := List.mem_of_getElem? ht
  refine ⟨s, t, ht, parts i x s hx hs, .planned hp, hv.target.ofItem ht, fun hst' => ?_⟩
  refine (hst hst').part ht fun hd => ?_
  rw [Ty.hasDynamic, Ty.anyHasDynamic_eq_false] at hd
  exact hd s (List.mem_of_getElem? hs)

/-- The elements of a collection are converted to the element type of the target. -/
theorem element_task {source wanted : Ty} {kind : CollectionKind} {c : Conversion}
    (hs : source = .list s ∨ source = .set s ∨ source = .map s) (h : plan? mode s wanted = some c)
    (hv : Applicable S source (kind.type wanted) v)
    (hst : steady → Steady S mode source (kind.type wanted)) {x : Value} (hx : Fitted S s x) :
    Task S mode steady s wanted c x := by
  refine ⟨hx, .planned h, (Ty.everywhere_collection.1 hv.target).2, fun hst' => ?_⟩
  refine (hst hst').part (by cases kind <;> exact List.mem_cons_self) fun hd => ?_
  rcases hs with rfl | rfl | rfl <;> rwa [Ty.hasDynamic] at hd

theorem gather_task (hS : S.Closed) {sources : List Ty} {wanted a : Ty} {kind : CollectionKind}
    {plans : List Conversion} {items : List Value} (ha : Rule.Gathers mode sources wanted a)
    (h : List.Forall₂ (fun s c => plan? mode s a = some c) sources plans)
    (hv : Applicable S (.tuple sources) (kind.type wanted) v)
    (hst : steady → Steady S mode (.tuple sources) (kind.type wanted))
    (hn : items.length = sources.length)
    (parts : ∀ (i : Nat) x s, items[i]? = some x → sources[i]? = some s → Fitted S s x)
    {x : Value} {c : Conversion} (hx : (x, c) ∈ items.zip plans) :
    ∃ s ∈ sources, Task S mode steady s a c x := by
  obtain ⟨i, hi⟩ := List.mem_iff_getElem?.1 hx
  obtain ⟨hx, hc⟩ := List.getElem?_zip_eq_some.1 hi
  have hs := List.getElem?_eq_getElem (hn ▸ (List.getElem?_eq_some_iff.1 hx).1)
  have hp := getElem?_of_forall₂ h hs hc
  have hm := List.mem_of_getElem? hs
  have aims := (ha.aims hS (Ty.everywhere_tuple.1 hv.source).2
    (Ty.everywhere_collection.1 hv.target).2).1
  refine ⟨_, hm, parts i x _ hx hs, .planned hp, aims, fun hst' => ?_⟩
  refine ((hst hst').gathers ha (List.ne_nil_of_mem hm) fun hd => ?_).1 _ hm
  exact Ty.anyHasDynamic_eq_false.1 (by rwa [Ty.hasDynamic] at hd)

theorem entries_task (hS : S.Closed) {sources : List (String × Ty)} {os : List String}
    {wanted a : Ty} {plans : List (String × Conversion)} {attributes : List (String × Value)}
    (ha : Rule.Gathers mode (values sources) wanted a)
    (h : Paired (fun _ s c => plan? mode s a = some c) sources plans)
    (hv : Applicable S (.object sources os) (.map wanted) v)
    (hst : steady → Steady S mode (.object sources os) (.map wanted))
    (parts : ∀ name x s, (name, x) ∈ attributes → (name, s) ∈ sources → Fitted S s x)
    {name : String} {x : Value} {c : Conversion} (hx : (name, x) ∈ attributes)
    (hc : plans.lookup name = some c) : ∃ s, Task S mode steady s a c x := by
  obtain ⟨s, hs, hp⟩ := h.mem_right (mem_of_lookup hc)
  have hm := mem_values hs
  have aims := (ha.aims hS (Ty.everywhere_object.1 hv.source).2
    (Ty.everywhere_map.1 hv.target).2).1
  refine ⟨s, parts name x s hx hs, .planned hp, aims, fun hst' => ?_⟩
  refine (@Steady.gathers _ _ _ _ _ _ _ .map (hst hst') ha (List.ne_nil_of_mem hm) fun hd => ?_).1
    s hm
  exact Ty.anyHasDynamicEntry_eq_false.1 (by rwa [Ty.hasDynamic] at hd)

theorem pick_task {targets : List (String × Ty)} {optional : List String}
    {plans : List (String × Conversion)}
    (h : Paired (fun _ t c => plan? .lenient s t = some c) targets plans)
    (hv : Applicable S (.map s) (.object targets optional) v)
    (hst : steady → Steady S .lenient (.map s) (.object targets optional))
    {name : String} {x : Value} {c : Conversion} (hx : Fitted S s x)
    (hc : plans.lookup name = some c) :
    ∃ t, (name, t) ∈ targets ∧ Task S .lenient steady s t c x := by
  obtain ⟨t, ht, hp⟩ := h.mem_right (mem_of_lookup hc)
  refine ⟨t, ht, hx, .planned hp, hv.target.ofAttribute ht, fun hst' => ?_⟩
  exact (hst hst').part (mem_values ht) fun hd => by rwa [Ty.hasDynamic] at hd

/-- What a variant holds is converted to the variant of the target, which fixes its type where
conversions are steady. -/
theorem variant_task {source : Ty} {sources targets : List (String × Ty)}
    {plans : List (String × Conversion)}
    (hs : source = .union sources ∨ ∃ os, source = .object sources os)
    (h : Paired (fun name s c => ∃ t, targets.lookup name = some t ∧ plan? mode s t = some c)
      sources plans)
    (hv : Applicable S source (.union targets) v)
    (hst : steady → Steady S mode source (.union targets)) {name : String} {x : Value}
    {c : Conversion} (hx : ∀ s, (name, s) ∈ sources → Fitted S s x)
    (hc : plans.lookup name = some c) :
    ∃ s t, targets.lookup name = some t ∧ (steady → S.Exact t) ∧ Task S mode steady s t c x := by
  obtain ⟨s, hm, t, ht, hp⟩ := h.mem_right (mem_of_lookup hc)
  have variant := mem_values (mem_of_lookup ht)
  refine ⟨s, t, ht, fun hst' => (hst hst').variant hv.target variant, hx s hm, .planned hp,
    hv.target.ofVariant (mem_of_lookup ht), fun hst' => (hst hst').part variant fun hd => ?_⟩
  rcases hs with rfl | ⟨os, rfl⟩
  · rw [Ty.hasDynamic, Ty.anyHasDynamicEntry_eq_false] at hd
    exact hd s (mem_values hm)
  · rw [Ty.hasDynamic, Ty.anyHasDynamicEntry_eq_false] at hd
    exact hd s (mem_values hm)

end Rule

end ValueAlgebra
