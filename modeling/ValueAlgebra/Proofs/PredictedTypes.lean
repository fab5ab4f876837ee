import ValueAlgebra.Proofs.OpenElements
import ValueAlgebra.Proofs.UnifiedRuns

/-!
# Predicted types

The type of a null or unknown result is computed from types alone (`Ty.converted`). For many targets
it is the type of all results: a conversion then predicts what it makes of a value before the value
is there. Where a union has a dynamic part, known values take the type of the target as it stands,
and so do empty collections where only a part of the element type is open.

Main statements:

* `Conversion.ty_eq_converted`: all results for a predictable target have the predicted type.
-/

namespace ValueAlgebra

open Entries Text

/-! ## Predictable targets -/

/-- Nothing is open inside of unions and element types, and if `whole`, an element type may be
`dynamic`. -/
def Ty.Predictable (whole : Prop) (t : Ty) : Prop :=
  t.Settled whole ∧ t.Everywhere fun u => u.isUnion = true → u.hasDynamic = false

namespace Ty.Predictable

variable {whole : Prop} {t s : Ty}

theorem inside (h : t.Predictable whole) (hs : s ∈ t.components) : s.Predictable whole :=
  ⟨h.1.inside hs, h.2.inside hs⟩

/-- An open collection whose element type is predictable is one of any elements. -/
theorem eq_dynamic {e : Ty} (h : t.Predictable whole) (hd : t.hasDynamic = true)
    (he : t.element? = some e) : whole ∧ e = .dynamic := by
  refine (h.1.element he).resolve_left fun closed => ?_
  cases t <;> cases he <;> rw [hasDynamic, closed] at hd <;> cases hd

/-- Where nothing is open, all is predictable. -/
theorem of_closed (h : t.hasDynamic = false) : t.Predictable whole := by
  refine ⟨settled_of_hasDynamic h, ?_⟩
  induction t using Ty.induction with
  | _ t ih =>
    exact .intro (fun _ => h) fun u hu => ih u hu ((hasDynamic_eq_false_step.1 h).2 u hu)

theorem intro (element : ∀ e, t.element? = some e → e.hasDynamic = false ∨ (whole ∧ e = .dynamic))
    (union : t.isUnion = true → t.hasDynamic = false)
    (inside : ∀ u ∈ t.components, u.Predictable whole) : t.Predictable whole :=
  ⟨.intro element fun u hu => (inside u hu).1, .intro union fun u hu => (inside u hu).2⟩

/-- A structure is as predictable as its parts. -/
theorem exists_not_predictable (element : t.element? = none) (union : t.isUnion = false)
    (h : ¬ t.Predictable whole) : ∃ u ∈ t.components, ¬ u.Predictable whole := by
  by_contra none
  push Not at none
  refine h (.intro (fun e he => ?_) (fun hu => ?_) none)
  · rw [element] at he
    cases he
  · rw [union] at hu
    cases hu

theorem dynamic : Ty.dynamic.Predictable whole :=
  .intro (fun e he => by cases he) (fun hu => by cases hu) fun u hu => by cases hu

theorem collection (h : whole) (kind : CollectionKind) :
    (kind.type .dynamic).Predictable whole := by
  refine .intro (fun e he => .inr ⟨h, ?_⟩) (fun hu => ?_) fun u hu => ?_
  · cases kind <;> cases he <;> rfl
  · cases kind <;> cases hu
  · cases kind <;> exact List.mem_singleton.1 hu ▸ dynamic

theorem not_union {variants : List (String × Ty)} (h : (Ty.union variants).Predictable whole) :
    (Ty.union variants).hasDynamic = false :=
  h.2.here rfl

end Ty.Predictable

section

variable [Host] {s : Ty}

theorem Ty.converted_any_items {kind : CollectionKind} (hk : kind ≠ .map) :
    s.converted (kind.type .dynamic) = kind.type s.itemSource.withoutOptional := by
  cases kind with
  | map => exact absurd rfl hk
  | list | set =>
    rw [CollectionKind.type, converted, filledFrom, filledFrom, withoutOptional,
      CollectionKind.type]

theorem Ty.converted_object {targets : List (String × Ty)} {optional : List String} :
    s.converted (.object targets optional) =
      .object (targets.map fun x => (x.1, (s.attributeSource x.1).converted x.2)) [] := by
  rw [converted, filledFrom, withoutOptional, fillAttributes_eq_map,
    withoutOptionalEntries_eq_mapValues, mapValues, List.map_map]
  rfl

theorem Ty.converted_tuple {sources targets : List Ty} (hl : sources.length = targets.length) :
    ∃ us, (Ty.tuple sources).converted (.tuple targets) = .tuple us ∧ us.length = targets.length ∧
      ∀ (i : Nat) (a b : Ty), sources[i]? = some a → targets[i]? = some b →
        us[i]? = some (a.converted b) := by
  refine ⟨(fillItems targets sources).map withoutOptional, ?_, ?_, fun i a b ha hb => ?_⟩
  · rw [converted, filledFrom, itemSources, if_pos hl, withoutOptional, withoutOptionalAll_eq_map]
  · rw [List.length_map, length_fillItems]
  · have hi := (List.getElem?_eq_some_iff.1 hb).1
    have hf := @List.getElem?_eq_getElem _ (fillItems targets sources) i
      (by rwa [length_fillItems])
    rw [List.getElem?_map, hf, getElem?_fillItems hf hb, ha, Option.getD_some]
    rfl

theorem Ty.common_nil : Ty.common [] = .dynamic := by
  rw [common, Unification.plan?]

theorem Ty.converted_any_entries :
    s.converted (.map .dynamic) = .map s.entrySource.withoutOptional := by
  rw [converted, filledFrom, filledFrom, withoutOptional]

end

namespace Conversion

variable [Host] {mode : Mode} {t : Ty} {v w : Value} {path : Path} {site : List Nat}

/-! ## Structures -/

/-- The results for parts of values of one type, on the way to parts of another one, have the
predicted types. -/
def Runs (run : Runner) (mode : Mode) (s t : Ty) : Prop :=
  ∀ {x y : Value} {u : Ty} {c : Conversion} {path : Path} {site : List Nat},
    x.Within .capsuleFree → x.ty ∈ s.components → u ∈ t.components →
      plan? mode x.ty u = some c → run c x path site = .ok y → y.ty = x.ty.converted u

variable {run : Runner} {rule : Rule Conversion}

theorem ty_object_converted {source : Ty} {entries : List (String × Value)}
    {targets : List (String × Ty)} {optional : List String} (hp : Names.Proper (names targets))
    (hn : ∀ name, name ∈ names entries ↔ name ∈ names targets)
    (hv : ∀ name y t, (name, y) ∈ entries → (name, t) ∈ targets →
      y.ty = (source.attributeSource name).converted t) :
    (Value.object entries).ty = source.converted (.object targets optional) := by
  have same : names (Ty.fillAttributes targets source) = names targets := by
    rw [Ty.fillAttributes_eq_map, Ty.names_map_snd targets fun name t =>
      t.filledFrom (source.attributeSource name)]
  rw [Ty.converted, Ty.filledFrom]
  refine Value.ty_object (same ▸ hp) (same ▸ hn) fun name y t hy ht => ?_
  rw [Ty.fillAttributes_eq_map] at ht
  obtain ⟨⟨key, u⟩, hu, eq⟩ := List.mem_map.1 ht
  cases eq
  exact hv _ y u hy hu

omit [Host] in
theorem mem_names_of_missingAttributes {found missing : List (String × Value)}
    {targets : List (String × Ty)} (h : missingAttributes found [] path targets = .ok missing) :
    ∀ name ∈ names targets, name ∈ names found := by
  induction targets generalizing missing with
  | nil => simp
  | cons entry targets ih =>
    obtain ⟨other, t⟩ := entry
    rw [missingAttributes] at h
    split at h
    · rename_i here
      intro name hn
      rcases List.mem_cons.1 hn with rfl | hn
      · exact contains_iff.1 here
      · exact ih h name hn
    · simp only [List.contains_nil, Bool.false_eq_true, if_false] at h
      cases h

/-- A map is converted to an object without optional attributes only if it has all of them. -/
theorem mem_names_of_pick {plans : List (String × Conversion)} {targets : List (String × Ty)}
    {e : Ty} {parts : List (String × Value)} (proper : Names.Proper (names parts))
    (h : Rule.apply run (.pick plans targets []) (.object targets []) (.bare (.map e parts)) path
      site = .ok w) :
    ∀ name ∈ names targets, name ∈ names parts := by
  rw [Rule.apply] at h
  obtain ⟨converted, hc, h⟩ := bind_eq_ok h
  obtain ⟨missing, hm, -⟩ := bind_eq_ok h
  have paired := convertNamed_ok (Value.namedElements_of_content proper.2 rfl) hc
  intro name hn
  obtain ⟨y, hy⟩ := exists_of_mem_names (mem_names_of_missingAttributes hm name hn)
  obtain ⟨x, hx, -⟩ := paired.mem_right hy
  exact mem_names (List.mem_filter.1 hx).1

/-- The attributes of an object are converted as predicted if the parts of the value are. -/
theorem ty_of_object_rule {targets : List (String × Ty)} (hw : (Ty.object targets []).WellFormed)
    (hd : v.Decided) (hv : v.Within .capsuleFree)
    (h : Rule.Planned mode v.ty (.object targets []) rule) (hne : v.ty ≠ .object targets [])
    (hr : Runs run mode v.ty (.object targets []))
    (hx : rule.applyDecided run (.object targets []) v path site = .ok w) :
    w.ty = v.ty.converted (.object targets []) := by
  have proper := hw.names_object
  have source := hv.ty Scope.closed_capsuleFree
  have fills (s : Ty) (hs : v.ty = s) : v.ty.Fills s :=
    hs ▸ .refl (hv.wellFormed_ty Scope.closed_capsuleFree)
  have toObject := h.toObject
  generalize hs : v.ty = s at toObject source
  cases toObject with
  | later => exact absurd hs hd.ty_ne_dynamic
  | same => exact absurd hs hne
  | @object sources absent os plans plan =>
    obtain ⟨attributes, rfl, hn, -⟩ := hd.object (fills _ hs)
    have sorted := Ty.WellFormed.names_object (source.mono fun _ h => h.1)
    rw [← hs]
    simp only [Value.bare, Value.ty, Ty.object.injEq] at hs hr ⊢
    obtain ⟨rfl, -⟩ := hs
    obtain ⟨entries, rfl, hne, result⟩ :=
      Rule.object_result (t := .object targets []) plan hn (hn ▸ sorted) proper.nodup hx
    refine ty_object_converted proper hne fun name y t hy ht => ?_
    rcases result name y t hy ht with ⟨none, -⟩ | ⟨x, s, c, path, site, hx, hs, hc, hy⟩
    · rcases plan.cover name (mem_names ht) with hp | ha
      · obtain ⟨c, hc⟩ := exists_of_mem_names hp
        obtain ⟨s, -, hs, -⟩ := plan.converted name c hc
        exact absurd (hn ▸ mem_names (mem_of_lookup hs)) none
      · obtain ⟨a, ha⟩ := exists_of_mem_names ha
        cases (plan.missing name a ha).2.1
    · cases hv with
      | object _ within =>
        have eq : s = x.ty := eq_of_mem sorted.nodup hs (Value.mem_entryTypes.2 ⟨x, hx, rfl⟩)
        subst eq
        rw [Ty.attributeSource, lookup_of_mem sorted.nodup hs, Option.getD_some]
        exact hr (within x (mem_values hx)) (mem_values hs) (mem_values ht) hc hy
  | @pick e plans hm plan =>
    subst hm
    obtain ⟨e', parts, rfl, -⟩ := hd.map (fills _ hs)
    simp only [Value.bare, Value.ty, Ty.map.injEq] at hs hr ⊢
    subst hs
    cases hv with
    | map _ hp types within =>
      obtain ⟨entries, rfl, hne, result⟩ :=
        Rule.pick_result (t := .object targets []) plan hp proper.nodup hx
      have found := mem_names_of_pick hp hx
      refine ty_object_converted proper hne fun name y t hy ht => ?_
      rcases result name y t hy ht with ⟨none, -⟩ | ⟨x, s, c, path, site, hm, rfl, hc, hy⟩
      · exact absurd (found name (mem_names ht)) none
      · have typed := types x (mem_values hm)
        rw [Ty.attributeSource, ← typed]
        rw [← typed] at hc
        exact hr (within x (mem_values hm)) (typed ▸ List.mem_singleton_self _) (mem_values ht)
          hc hy
  | ofCapsule _ hc =>
    have := source.here.2
    rw [hc] at this
    cases this

/-- The elements of a tuple are converted as predicted if the parts of the value are. -/
theorem ty_of_tuple_rule {targets : List Ty} (hd : v.Decided) (hv : v.Within .capsuleFree)
    (h : Rule.Planned mode v.ty (.tuple targets) rule) (hne : v.ty ≠ .tuple targets)
    (hr : Runs run mode v.ty (.tuple targets))
    (hx : rule.applyDecided run (.tuple targets) v path site = .ok w) :
    w.ty = v.ty.converted (.tuple targets) := by
  have source := hv.ty Scope.closed_capsuleFree
  have fills (s : Ty) (hs : v.ty = s) : v.ty.Fills s :=
    hs ▸ .refl (hv.wellFormed_ty Scope.closed_capsuleFree)
  generalize hs : v.ty = s at h source
  generalize ht : Ty.tuple targets = t at h
  cases h with
  | later => exact absurd hs hd.ty_ne_dynamic
  | same => exact absurd (hs.trans ht.symm) hne
  | @tuple sources targets' plans hl hp =>
    cases ht
    obtain ⟨items, rfl, hn, -⟩ := hd.tuple (fills _ hs)
    rw [← hs]
    simp only [Value.bare, Value.ty, Ty.tuple.injEq] at hs hr ⊢
    subst hs
    obtain ⟨results, rfl, length, result⟩ :=
      Rule.tuple_result (t := .tuple targets) hl hp hn hx
    obtain ⟨us, converted, hu, each⟩ := Ty.converted_tuple hl
    rw [converted]
    simp only [Value.tuple, Value.bare, Value.ty]
    refine congrArg Ty.tuple (List.ext_getElem ?_ fun i hi hi' => ?_)
    · rw [Value.length_types, length, hu]
    · have hlt : i < results.length := Value.length_types results ▸ hi
      have hu := List.getElem?_eq_getElem (length ▸ hlt)
      obtain ⟨x, s, c, path, site, hx, hs, hc, hy⟩ :=
        result i _ _ (List.getElem?_eq_getElem hlt) hu
      have typed : (Value.types items)[i]? = some x.ty := by
        rw [Value.types_eq_map, List.getElem?_map, hx, Option.map_some]
      have predicted := each i _ _ typed hu
      rw [List.getElem?_eq_getElem hi', Option.some.injEq] at predicted
      rw [typed] at hs
      cases hs
      rw [predicted]
      simp only [Value.types_eq_map, List.getElem_map]
      cases hv with
      | tuple _ within =>
        exact hr (within x (List.mem_of_getElem? hx)) (List.mem_of_getElem? typed)
          (List.mem_of_getElem? hu) hc hy
  | ofCapsules _ hc =>
    rw [source.here.2, ← ht] at hc
    rcases hc with hc | hc <;> cases hc
  | @items _ _ _ kind | @gather _ _ _ kind => cases kind <;> cases ht
  | primitive hp =>
    rw [← ht] at hp
    cases s <;> cases hp
  | toDynamic | object | mapItems | emptyMap | entries | pick | union | select => cases ht

/-! ## Collections of any elements -/

omit [Host] in
theorem collection_injective {k l : CollectionKind} {a b : Ty} (h : k.type a = l.type b) :
    k = l ∧ a = b := by
  cases k <;> cases l <;> cases h <;> exact ⟨rfl, rfl⟩

/-- A collection that is made of values of one type has this element type. -/
theorem ty_of_collection {kind : CollectionKind} {vs : List Value} {e : Ty} (hk : kind ≠ .map)
    (hne : vs ≠ []) (typed : ∀ v ∈ vs, v.ty = e)
    (h : (if kind = .set then orFailure (Value.set vs) else orFailure (Value.list vs)) = .ok w) :
    w.ty = kind.type e := by
  have common := Value.commonType?_of_all hne typed
  cases kind with
  | map => exact absurd rfl hk
  | list =>
    obtain ⟨e', -, hc, rfl⟩ := Value.list_eq_ok (orFailure_eq_ok h)
    rw [common] at hc
    cases hc
    simp only [Value.bare, Value.ty, CollectionKind.type]
  | set =>
    obtain ⟨e', -, hc, rfl⟩ := Value.set_eq_ok (orFailure_eq_ok h)
    rw [common] at hc
    cases hc
    exact Value.ty_setOf ..

omit [Host] in
theorem ty_emptyCollection (kind : CollectionKind) (wanted source : Ty) :
    (emptyCollection kind wanted source).ty =
      kind.type (if wanted = .dynamic then source else wanted.withoutOptional) := by
  cases kind <;> simp only [emptyCollection, Value.emptyList, Value.emptySet, Value.emptyMap,
    Value.bare, Value.ty, CollectionKind.type]

theorem homogenize_of_all {kind : CollectionKind} {vs : List Value} {e : Ty} (hne : vs ≠ [])
    (typed : ∀ v ∈ vs, v.ty = e) : homogenize run kind mode path site vs = .ok vs := by
  rw [homogenize, Value.commonType?_of_all hne typed]
  rfl

/-- Elements that are kept make a list or set of their type. -/
theorem ty_of_kept_items {kind : CollectionKind} {c : Conversion} {e : Ty}
    {elements : List (Value × Value)} (hk : kind ≠ .map) (he : v.elements = .ok elements)
    (hty : v.ty.elementType = .ok e)
    (hr : ∀ x ∈ elements, ∀ path site y, run c x.2 path site = .ok y → y.ty = e)
    (h : convertItems run kind mode c .dynamic v path site = .ok w) : w.ty = kind.type e := by
  unfold convertItems at h
  rw [he] at h
  obtain ⟨_, eq, h⟩ := bind_eq_ok h
  cases eq
  obtain ⟨values, hv, h⟩ := bind_eq_ok h
  split at h
  · rw [hty] at h
    obtain ⟨_, eq, h⟩ := bind_eq_ok h
    cases eq
    cases h
    rw [ty_emptyCollection, if_pos rfl]
  · rename_i nonempty
    have hne : values ≠ [] := fun eq => nonempty (eq ▸ rfl)
    have paired := Runner.runAll_ok hv
    rw [List.forall₂_map_left_iff] at paired
    have typed : ∀ y ∈ values, y.ty = e := by
      intro y hy
      obtain ⟨x, hx, site, hxy⟩ := exists_left_of_forall₂ paired hy
      exact hr x hx _ _ y hxy
    rw [homogenize_of_all hne typed] at h
    exact ty_of_collection hk hne typed h

theorem ty_of_kept_entries {c : Conversion} {e : Ty} {entries : List (String × Value)}
    (hp : Names.Proper (names entries)) (he : v.elements = .ok (Value.keyed entries))
    (hty : v.ty.elementType = .ok e)
    (hr : ∀ x ∈ values entries, ∀ path site y, run c x path site = .ok y → y.ty = e)
    (h : convertEntries run mode c .dynamic v path site = .ok w) : w.ty = .map e := by
  unfold convertEntries at h
  rw [Value.namedElements_of_content hp.2 he] at h
  obtain ⟨_, eq, h⟩ := bind_eq_ok h
  cases eq
  obtain ⟨vs, hv, h⟩ := bind_eq_ok h
  split at h
  · rw [hty] at h
    obtain ⟨_, eq, h⟩ := bind_eq_ok h
    cases eq
    cases h
    exact (ty_emptyCollection .map .dynamic e).trans (by rw [if_pos rfl]; rfl)
  · rename_i nonempty
    have hne : vs ≠ [] := fun eq => nonempty (eq ▸ rfl)
    have paired := Runner.runAll_ok hv
    rw [List.map_map, List.forall₂_map_left_iff] at paired
    have typed : ∀ y ∈ vs, y.ty = e := by
      intro y hy
      obtain ⟨x, hx, site, hxy⟩ := exists_left_of_forall₂ paired hy
      exact hr x.2 (mem_values hx) _ _ y hxy
    rw [homogenize_of_all hne typed] at h
    obtain ⟨_, eq, h⟩ := bind_eq_ok h
    cases eq
    have hl : (names entries).length = vs.length := by rw [← paired.length_eq, length_names]
    have hnames : (entries.map fun x => (x.1, Value.string x.1, x.2)).map (·.1) =
        names entries := by simp [names]
    rw [hnames] at h
    obtain ⟨e', -, hc, rfl⟩ := Value.map_eq_ok (by rwa [names_zip hl]) (orFailure_eq_ok h)
    rw [values_zip hl, Value.commonType?_of_all hne typed] at hc
    cases hc
    simp only [Value.bare, Value.ty]

theorem sound_runPart (n : Nat) : (runPart n).Sound .capsuleFree mode :=
  fun hc hs ht hv hf hw => run_lands Scope.closed_capsuleFree
    (fun _ => Scope.noCapsule_capsuleFree) hc hs ht hv hf (runPart_ok hw).2

/-- A part that any type will do for is kept. -/
theorem ty_of_kept {n : Nat} (h : runPart n (.toward .dynamic .keep) v path site = .ok w) :
    w.ty = v.ty := by
  have ran := (runPart_ok h).2
  rw [run_eq, runWith_dynamic] at ran
  cases ran
  rfl

/-- What is made toward a type that leaves nothing open is of this type. -/
theorem ty_of_closed_rule {n : Nat} (hd : v.Decided) (hv : v.Within .capsuleFree)
    (closed : t.hasDynamic = false) (free : t.OptionalFree)
    (within : t.Everywhere Scope.capsuleFree.types) (h : Rule.Planned mode v.ty t rule)
    (hx : rule.applyDecided (runPart n) t v path site = .ok w) : w.ty = t := by
  have hS := Scope.closed_capsuleFree
  have lands := h.applyDecided_lands hS (fun _ => Scope.noCapsule_capsuleFree) (sound_runPart n)
    ⟨hd, hv, .refl (hv.wellFormed_ty hS), hv.ty hS, .ofEverywhere hS.structural within⟩ hx
  rw [lands.ty_eq hS (.inr free) closed, free.withoutOptional_eq]

/-- Where parts leave nothing open, what is made of them toward what they have in common is of this
type. -/
theorem ty_of_common_rule {kind : CollectionKind} {sources : List Ty} {u : Unification} {n : Nat}
    (hd : v.Decided) (hv : v.Within .capsuleFree) (hne : sources ≠ [])
    (hu : Unification.plan? .lenient sources = some u)
    (closed : ∀ t ∈ sources, t.hasDynamic = false) (free : ∀ t ∈ sources, t.OptionalFree)
    (within : ∀ t ∈ sources, t.Everywhere Scope.capsuleFree.types)
    (h : u.target ≠ .dynamic → Rule.Planned mode v.ty (kind.type u.target) rule)
    (hx : rule.applyDecided (runPart n) (kind.type u.target) v path site = .ok w) :
    w.ty = kind.type (Ty.common sources).withoutOptional := by
  have structural := Scope.closed_capsuleFree.structural
  have closed := Unification.target_closed hne hu closed
  have free := Unification.target_optionalFree hne hu free
  have within := Unification.target_everywhere structural hne hu within
  rw [Ty.common, hu, free.withoutOptional_eq]
  refine ty_of_closed_rule hd hv (by cases kind <;> exact closed)
    (Ty.everywhere_collection.2 ⟨by cases kind <;> rfl, free⟩)
    (Ty.everywhere_collection.2 ⟨structural.collection kind _, within⟩) (h fun eq => ?_) hx
  rw [eq] at closed
  cases closed

theorem ty_of_any_items {kind : CollectionKind} {n : Nat} {e : Ty} {items : List Value}
    (hk : kind ≠ .map) (free : e.OptionalFree) (he : v.elements = .ok (Value.numbered 0 items))
    (hty : v.ty.elementType = .ok e) (types : ∀ x ∈ items, x.ty = e)
    (h : Rule.apply (runPart n) (.collection kind mode (.toward .dynamic .keep) .dynamic)
      (kind.type .dynamic) v path site = .ok w) : w.ty = kind.type e.withoutOptional := by
  rw [Rule.apply] at h
  obtain ⟨-, -, h⟩ := bind_eq_ok h
  rw [if_neg hk] at h
  rw [free.withoutOptional_eq]
  refine ty_of_kept_items hk he hty (fun x hx path site y hy => ?_) h
  have member : x.2 ∈ items := Value.map_snd_numbered 0 items ▸ List.mem_map_of_mem hx
  rw [ty_of_kept hy, types x.2 member]

theorem ty_of_any_entries {n : Nat} {e : Ty} {entries : List (String × Value)}
    (free : e.OptionalFree) (hp : Names.Proper (names entries))
    (types : ∀ x ∈ values entries, x.ty = e)
    (h : Rule.apply (runPart n) (.collection .map mode (.toward .dynamic .keep) .dynamic)
      (.map .dynamic) (.bare (.map e entries)) path site = .ok w) :
    w.ty = .map e.withoutOptional := by
  rw [Rule.apply] at h
  obtain ⟨-, -, h⟩ := bind_eq_ok h
  rw [if_pos rfl] at h
  rw [free.withoutOptional_eq]
  refine ty_of_kept_entries hp rfl rfl (fun x hx path site y hy => ?_) h
  rw [ty_of_kept hy, types x hx]

/-- A value that leaves nothing open becomes a collection of any elements whose type is what its
parts have in common. -/
theorem ty_of_any_elements {kind : CollectionKind} {n : Nat} (hd : v.Decided)
    (hv : v.Within .capsuleFree) (closed : v.ty.hasDynamic = false) (free : v.ty.OptionalFree)
    (h : Rule.Planned .lenient v.ty (kind.type .dynamic) rule)
    (hx : rule.applyDecided (runPart n) (kind.type .dynamic) v path site = .ok w) :
    w.ty = v.ty.converted (kind.type .dynamic) := by
  have source := hv.ty Scope.closed_capsuleFree
  have fills (s : Ty) (hs : v.ty = s) : v.ty.Fills s :=
    hs ▸ .refl (hv.wellFormed_ty Scope.closed_capsuleFree)
  generalize hs : v.ty = s at h source closed free
  generalize ht : kind.type .dynamic = t at h
  cases h with
  | later => exact absurd hs hd.ty_ne_dynamic
  | same =>
    rw [← ht] at closed
    cases kind <;> cases closed
  | ofCapsules _ hc =>
    rw [source.here.2, ← ht] at hc
    rcases hc with hc | hc
    · cases hc
    · cases kind <;> cases hc
  | toDynamic | object | tuple | pick | union | select => cases kind <;> cases ht
  | primitive hp =>
    rw [← ht] at hp
    cases kind <;> cases s <;> cases hp
  | @items _ wanted a kind' c hk hc hp =>
    obtain ⟨rfl, rfl⟩ := collection_injective ht
    rw [plan?_dynamic] at hp
    cases hp
    rw [Ty.converted_any_items hk]
    rcases hc with rfl | rfl
    · obtain ⟨e, items, rfl, -⟩ := hd.list (fills _ hs)
      simp only [Value.bare, Value.ty, Ty.list.injEq] at hs
      subst hs
      cases hv with
      | list he types within =>
        exact ty_of_any_items hk (Ty.everywhere_list.1 free).2 rfl rfl types hx
    · obtain ⟨e, items, rfl, -⟩ := hd.set (fills _ hs)
      simp only [Value.bare, Value.ty, Ty.set.injEq] at hs
      subst hs
      cases hv with
      | set he types within =>
        exact ty_of_any_items hk (Ty.everywhere_set.1 free).2 rfl rfl types hx
  | @mapItems wanted a c hp =>
    obtain ⟨rfl, rfl⟩ := @collection_injective _ .map _ _ ht
    rw [plan?_dynamic] at hp
    cases hp
    obtain ⟨e, entries, rfl, -⟩ := hd.map (fills _ hs)
    simp only [Value.bare, Value.ty, Ty.map.injEq] at hs
    subst hs
    cases hv with
    | map _ hp types within =>
      exact (ty_of_any_entries (Ty.everywhere_map.1 free).2 hp types hx).trans
        (@Ty.converted_any_entries _ (.map e)).symm
  | @gather sources wanted e kind' plans hk he hp =>
    obtain ⟨rfl, rfl⟩ := collection_injective ht
    rw [Ty.converted_any_items hk, Ty.itemSource]
    rw [Ty.hasDynamic, Ty.anyHasDynamic_eq_false] at closed
    cases he with
    | wanted none =>
      obtain rfl := none.resolve_left (by simp)
      obtain ⟨items, rfl, hn, -⟩ := hd.tuple (fills _ hs)
      cases hp
      cases List.length_eq_zero_iff.1 hn
      cases hx
      rw [ty_emptyCollection, if_pos rfl, Ty.common_nil]
    | common hne hu =>
      refine @ty_of_common_rule _ .lenient v w path site (.gather kind .lenient plans _) kind _ _ n
        hd hv hne hu closed (Ty.everywhere_tuple.1 free).2 (Ty.everywhere_tuple.1 source).2
        (fun open_ => ?_) hx
      rw [hs]
      exact .gather hk (.wanted (.inl open_)) hp
  | @emptyMap os wanted =>
    obtain ⟨rfl, rfl⟩ := @collection_injective _ .map _ _ ht
    cases hx
    refine Eq.trans ?_ (@Ty.converted_any_entries _ (.object [] os)).symm
    rw [Ty.entrySource, values, List.map_nil, Ty.common_nil]
    simp only [Value.emptyMap, Value.bare, Value.ty, Ty.withoutOptional]
  | @entries sources os wanted e plans hs' he hp =>
    obtain ⟨rfl, rfl⟩ := @collection_injective _ .map _ _ ht
    cases he with
    | wanted none =>
      exact absurd (none.resolve_left (by simp)) (by simpa [values] using hs')
    | common hne hu =>
      rw [Ty.hasDynamic, Ty.anyHasDynamicEntry_eq_false] at closed
      refine (@ty_of_common_rule _ .lenient v w path site (.entries .lenient plans) .map _ _ n
        hd hv hne hu closed (Ty.everywhere_object.1 free).2 (Ty.everywhere_object.1 source).2
        (fun open_ => ?_) hx).trans ?_
      · rw [hs]
        exact .entries hs' (.wanted (.inl open_)) hp
      · exact (@Ty.converted_any_entries _ (.object sources os)).symm

/-! ## All results for predictable targets -/

/-- What becomes of a value for which any type will do. -/
theorem ty_eq_of_dynamic {c : Conversion} (free : v.ty.OptionalFree)
    (hp : plan? mode v.ty .dynamic = some c) (h : c.run v path site = .ok w) :
    w.ty = v.ty.converted .dynamic := by
  rw [plan?_dynamic] at hp
  cases hp
  rw [run_eq, runWith_dynamic] at h
  cases h
  rw [Ty.converted, Ty.filledFrom, free.withoutOptional_eq]

/-- What becomes of a value that is of the target type. -/
theorem ty_eq_of_same {c : Conversion} (hw : t.WellFormed) (hc : t.CapsuleFree)
    (ho : t.OptionalFree) (hv : v.Within .capsuleFree) (same : v.ty = t)
    (hp : plan? mode v.ty t = some c) (h : c.run v path site = .ok w) :
    w.ty = v.ty.converted t := by
  by_cases dynamic : t = .dynamic
  · subst dynamic
    exact ty_eq_of_dynamic (same ▸ ho) hp h
  rw [same, plan?_keep dynamic] at hp
  cases hp
  rcases ty_of_run dynamic hw hc hv h with predicted | ⟨-, x, hx, typed⟩
  · exact predicted
  · cases hx
    rw [typed, Value.ty_unmark, same, Ty.converted, (Ty.Fills.refl hw).filledFrom_eq hw ho,
      ho.withoutOptional_eq]

/-- All results for a predictable target have the predicted type. -/
theorem ty_eq_converted {closed : Prop} (ht : t.Predictable (mode = .lenient ∧ closed))
    (hw : t.WellFormed) (hc : t.CapsuleFree) (ho : t.OptionalFree) (hv : v.Within .capsuleFree)
    (free : v.ty.OptionalFree) (hcl : closed → v.ty.hasDynamic = false) {c : Conversion}
    (hp : plan? mode v.ty t = some c) (h : c.run v path site = .ok w) :
    w.ty = v.ty.converted t := by
  induction t using Ty.induction generalizing v c w path site with
  | _ t ih =>
    by_cases hd : t.hasDynamic = false
    · rw [ty_eq_of_strippable (.free ho) hw hc hd hv hp h, Ty.converted_eq hw hd]
    rw [Bool.not_eq_false] at hd
    by_cases dynamic : t = .dynamic
    · subst dynamic
      exact ty_eq_of_dynamic free hp h
    by_cases same : v.ty = t
    · exact ty_eq_of_same hw hc ho hv same hp h
    obtain ⟨rule, rfl, planned⟩ := planned_of_plan? hp
    rcases ty_of_run dynamic hw hc hv h with predicted | ⟨decided, x, hx, typed⟩
    · exact predicted
    rw [typed]
    -- something in the target is open: structures hand it down to their parts
    have runs : Runs (runPart v.height) mode v.ty t := fun hx hs hu hp hr =>
      ih _ hu (ht.inside hu) (hw.inside hu) (hc.inside hu) (ho.inside hu) hx (free.inside hs)
        (fun h => (Ty.hasDynamic_eq_false_step.1 (hcl h)).2 _ hs) hp (runPart_ok hr).2
    have hv := hv.unmark
    rw [← Value.ty_unmark v] at planned runs same free hcl ⊢
    cases t with
    | dynamic => exact absurd rfl dynamic
    | number | string | bool | capsule => cases hd
    | union => exact absurd ht.not_union (by simp [hd])
    | object targets optional =>
      obtain rfl : optional = [] := ho.here
      exact ty_of_object_rule hw decided hv planned same runs hx
    | tuple => exact ty_of_tuple_rule decided hv planned same runs hx
    | list =>
      obtain ⟨⟨rfl, closed⟩, rfl⟩ := ht.eq_dynamic hd rfl
      exact @ty_of_any_elements _ _ _ _ _ _ .list _ decided hv (hcl closed) free planned hx
    | set =>
      obtain ⟨⟨rfl, closed⟩, rfl⟩ := ht.eq_dynamic hd rfl
      exact @ty_of_any_elements _ _ _ _ _ _ .set _ decided hv (hcl closed) free planned hx
    | map =>
      obtain ⟨⟨rfl, closed⟩, rfl⟩ := ht.eq_dynamic hd rfl
      exact @ty_of_any_elements _ _ _ _ _ _ .map _ decided hv (hcl closed) free planned hx

end Conversion

end ValueAlgebra
