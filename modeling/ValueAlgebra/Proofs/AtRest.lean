import ValueAlgebra.Proofs.OpenTargets
import ValueAlgebra.Proofs.PredictedTypes
import ValueAlgebra.Proofs.Rebuilding
import ValueAlgebra.Proofs.SameType

/-!
# Values that conversions leave as they are

A value is at rest for a type (`Value.Rests`) if a conversion to the type changes nothing in it. The
nulls and unknowns in it have no optional attributes in their types and nothing known about them that
a conversion forgets, an empty collection has the element type that the type asks for, and a set
lists its elements as a set of them does. Below a `dynamic` part of the type anything may stand, and
so it may in a value that has the type itself.

Main statements:

* `Ty.Fills.converted_eq`: nulls and unknowns whose type fills the target keep it.
* `Value.Rests.run`: a run leaves a value at rest as it is.
-/

namespace ValueAlgebra

open Entries Text

variable [Host]

/-! ## Types that conversions leave as they are -/

namespace Ty

theorem filledFrom_dynamic (t : Ty) : t.filledFrom .dynamic = t := by
  refine induction (motive := fun t => t.filledFrom .dynamic = t) (fun t ih => ?_) t
  have entries {vs : List (String × Ty)} (h : ∀ v ∈ values vs, v.filledFrom .dynamic = v) :
      vs.map (fun v => (v.1, v.2.filledFrom .dynamic)) = vs :=
    mapValues_eq_self h
  cases t with
  | list e | set e | map e =>
    rw [filledFrom]
    exact congrArg _ (ih e List.mem_cons_self)
  | object as os =>
    rw [filledFrom, fillAttributes_eq_map]
    exact congrArg (object · os) (entries ih)
  | union vs =>
    rw [filledFrom, fillVariants_eq_map]
    exact congrArg union (entries ih)
  | tuple ts =>
    rw [filledFrom]
    refine congrArg tuple (List.ext_getElem? fun i => ?_)
    cases hi : ts[i]? with
    | none => simpa [length_fillItems] using hi
    | some t =>
      have lt := (List.getElem?_eq_some_iff.1 hi).1
      have filled := List.getElem?_eq_getElem (lt.trans_eq (length_fillItems ts
        (itemSources ts.length .dynamic)).symm)
      rw [filled, getElem?_fillItems filled hi]
      exact congrArg some (ih t (List.mem_of_getElem? hi))
  | _ => simp only [filledFrom]

/-- Up to optional attributes, what a type is filled with from a type that fills it is the latter. -/
theorem Fills.filledFrom_withoutOptional {s t : Ty} (h : s.Fills t) (hw : t.WellFormed) :
    (t.filledFrom s).withoutOptional = s.withoutOptional := by
  have entries {as bs : List (String × Ty)} {source : String → Ty} (hn : names as = names bs)
      (h : ∀ name a b, (name, a) ∈ as → (name, b) ∈ bs →
        (b.filledFrom (source name)).withoutOptional = a.withoutOptional) :
      mapValues Ty.withoutOptional (bs.map fun b => (b.1, b.2.filledFrom (source b.1))) =
        mapValues Ty.withoutOptional as := by
    refine mapValues_congr ?_ fun name b a hb ha => ?_
    · exact (names_map_snd bs fun name b => b.filledFrom (source name)).trans hn.symm
    · obtain ⟨⟨other, c⟩, hc, eq⟩ := List.mem_map.1 hb
      cases eq
      exact h other a c ha hc
  induction h with
  | dynamic => rw [filledFrom]
  | number | string | bool | capsule => simp only [filledFrom]
  | list _ ih =>
    rw [filledFrom, Ty.withoutOptional, itemSource, ih (everywhere_list.1 hw).2, Ty.withoutOptional]
  | set _ ih =>
    rw [filledFrom, Ty.withoutOptional, itemSource, ih (everywhere_set.1 hw).2, Ty.withoutOptional]
  | map _ ih =>
    rw [filledFrom, Ty.withoutOptional, entrySource, ih (everywhere_map.1 hw).2, Ty.withoutOptional]
  | @object as bs os ps hn _ _ ih =>
    have nodup : (names as).Nodup := hn ▸ hw.names_object.nodup
    rw [filledFrom, fillAttributes_eq_map, Ty.withoutOptional, Ty.withoutOptional,
      withoutOptionalEntries_eq_mapValues, withoutOptionalEntries_eq_mapValues,
      @entries _ _ (fun name => attributeSource name _) hn fun name a b ha hb => ?_]
    rw [attributeSource, lookup_of_mem nodup ha, Option.getD_some,
      ih name a b ha hb (hw.ofAttribute hb)]
  | @union as bs hn _ ih =>
    have nodup : (names as).Nodup := hn ▸ hw.names_union.nodup
    rw [filledFrom, fillVariants_eq_map, Ty.withoutOptional, Ty.withoutOptional,
      withoutOptionalEntries_eq_mapValues, withoutOptionalEntries_eq_mapValues,
      @entries _ _ (fun name => variantSource name _) hn fun name a b ha hb => ?_]
    rw [variantSource, lookup_of_mem nodup ha, Option.getD_some,
      ih name a b ha hb (hw.ofVariant hb)]
  | @tuple as bs hl _ ih =>
    rw [filledFrom, itemSources, if_pos hl, Ty.withoutOptional, Ty.withoutOptional,
      withoutOptionalAll_eq_map, withoutOptionalAll_eq_map]
    refine congrArg Ty.tuple (List.ext_getElem (by simp [length_fillItems, hl]) fun i hi hj => ?_)
    rw [List.length_map] at hi hj
    have hb := List.getElem?_eq_getElem (hl ▸ hj)
    have ha := List.getElem?_eq_getElem hj
    rw [List.getElem_map, List.getElem_map, getElem?_fillItems (List.getElem?_eq_getElem hi) hb, ha,
      Option.getD_some, ih i _ _ ha hb (hw.ofItem (List.mem_of_getElem? hb))]

/-- Nulls and unknowns whose type fills the target keep it. -/
theorem Fills.converted_eq {s t : Ty} (h : s.Fills t) (hw : t.WellFormed) (free : s.OptionalFree) :
    s.converted t = s := by
  rw [converted, h.filledFrom_withoutOptional hw, free.withoutOptional_eq]

end Ty

/-! ## Values at rest -/

namespace Value

/-- The element type of an empty collection that a conversion leaves as it is. -/
def EmptyAs (e t : Ty) : Prop :=
  e = .dynamic ∨ t = e.withoutOptional

/-- A value in which a conversion to a type changes nothing. -/
inductive Rests : Ty → Value → Prop where
  | dynamic (v : Value) : Rests .dynamic v
  | exact {e : Ty} {v : Value} (known : v.isKnown = true) (notNull : v.isNull = false)
      (typed : v.ty = e) : Rests e v
  | null {m : MarkSet} {e t : Ty} (free : t.OptionalFree) (fills : t.Fills e) :
      Rests e ⟨m, .null t⟩
  | unknown {m : MarkSet} {e t : Ty} {r : Refinement} (free : t.OptionalFree) (fills : t.Fills e)
      (kept : r.kept t = r) : Rests e ⟨m, .unknown t r⟩
  | list {m : MarkSet} {e t : Ty} {items : List Value} (empty : items = [] → EmptyAs e t)
      (parts : ∀ x ∈ items, Rests e x) : Rests (.list e) ⟨m, .list t items⟩
  | set {m : MarkSet} {e t : Ty} {items : List Value} (empty : items = [] → EmptyAs e t)
      (parts : ∀ x ∈ items, Rests e x) (listed : (Content.set t items).Listed) :
      Rests (.set e) ⟨m, .set t items⟩
  | map {m : MarkSet} {e t : Ty} {entries : List (String × Value)}
      (empty : entries = [] → EmptyAs e t) (parts : ∀ x ∈ values entries, Rests e x) :
      Rests (.map e) ⟨m, .map t entries⟩
  | object {m : MarkSet} {targets : List (String × Ty)} {optional : List String}
      {attributes : List (String × Value)} (hn : names attributes = names targets)
      (parts : ∀ name x e, (name, x) ∈ attributes → (name, e) ∈ targets → Rests e x) :
      Rests (.object targets optional) ⟨m, .object attributes⟩
  | tuple {m : MarkSet} {targets : List Ty} {items : List Value}
      (hl : items.length = targets.length)
      (parts : ∀ (i : Nat) x e, items[i]? = some x → targets[i]? = some e → Rests e x) :
      Rests (.tuple targets) ⟨m, .tuple items⟩

variable {e : Ty} {v w : Value}

theorem Rests.of_content (h : v.Rests e) (hc : w.content = v.content) : w.Rests e := by
  obtain ⟨n, d⟩ := w
  obtain ⟨m, c⟩ := v
  obtain rfl : d = c := hc
  cases h with
  | dynamic => exact .dynamic _
  | exact known notNull typed =>
    exact .exact ((@isKnown_of_content ⟨n, d⟩ ⟨m, d⟩ rfl).trans known)
      ((@isNull_of_content ⟨n, d⟩ ⟨m, d⟩ rfl).trans notNull)
      ((@ty_of_content ⟨n, d⟩ ⟨m, d⟩ rfl).trans typed)
  | null free fills => exact .null free fills
  | unknown free fills kept => exact .unknown free fills kept
  | list empty parts => exact .list empty parts
  | set empty parts listed => exact .set empty parts listed
  | map empty parts => exact .map empty parts
  | object hn parts => exact .object hn parts
  | tuple hl parts => exact .tuple hl parts

theorem Rests.withMarks (h : v.Rests e) (marks : MarkSet) : (v.withMarks marks).Rests e :=
  h.of_content rfl

theorem Rests.unmarkDeep (h : v.Rests e) : v.unmarkDeep.Rests e := by
  induction h with
  | dynamic => exact .dynamic _
  | @exact e v known notNull typed =>
    refine .exact ?_ ?_ ((ty_unmarkDeep v).trans typed)
    · obtain ⟨m, c⟩ := v
      cases c <;> first | rfl | exact known
    · obtain ⟨m, c⟩ := v
      cases c <;> first | rfl | exact notNull
  | null free fills => exact .null free fills
  | unknown free fills kept => exact .unknown free fills kept
  | list empty _ ih =>
    rw [Value.unmarkDeep, unmarkDeepAll_eq_map]
    exact .list (fun none => empty (List.map_eq_nil_iff.1 none)) (List.forall_mem_map.2 ih)
  | set empty parts listed => exact .set empty parts listed
  | @map m e t entries empty _ ih =>
    rw [Value.unmarkDeep, unmarkDeepEntries_eq_mapValues]
    refine .map (fun none => empty (List.map_eq_nil_iff.1 none)) ?_
    rw [values_mapValues]
    exact List.forall_mem_map.2 ih
  | object hn _ ih =>
    rw [Value.unmarkDeep, unmarkDeepEntries_eq_mapValues]
    refine .object ((names_mapValues ..).trans hn) fun name x e hx he => ?_
    obtain ⟨y, hy, rfl⟩ := mem_mapValues.1 hx
    exact ih name y e hy he
  | tuple hl _ ih =>
    rw [Value.unmarkDeep, unmarkDeepAll_eq_map]
    refine .tuple ((List.length_map _).trans hl) fun i x e hx he => ?_
    rw [List.getElem?_map, Option.map_eq_some_iff] at hx
    obtain ⟨y, hy, rfl⟩ := hx
    exact ih i y e hy he

end Value

/-! ## Runs that change nothing -/

/-- A conversion, as it is run on parts, changes nothing in a value. -/
def Runner.Leaves (run : Runner) (c : Conversion) (x : Value) : Prop :=
  ∀ path site, run c x path site = .ok x

namespace Runner.Leaves

variable {run : Runner} {mode : Mode} {kind : CollectionKind} {c : Conversion} {wanted : Ty}
  {v : Value} {path : Path} {site : List Nat}

omit [Host] in
theorem runAll {plans : List PartPlan} (h : ∀ p ∈ plans, run.Leaves p.conversion p.part) :
    run.runAll site plans = .ok (plans.map (·.part)) := by
  have parts : plans.zipIdx.map (fun x => x.1.part) = plans.map (·.part) := by
    rw [← List.zipIdx_map_fst 0 plans, List.map_map]
    simp
  rw [Runner.runAll, ← parts]
  refine mapM_eq_ok_map fun x hx => ?_
  obtain ⟨p, i⟩ := x
  exact h p ((List.mem_zipIdx hx).2.2 ▸ List.getElem_mem _) _ _

omit [Host] in
theorem convertTuple {plans : List Conversion} {items : List Value}
    (he : v.elements = .ok (Value.numbered 0 items)) (hl : items.length = plans.length)
    (h : ∀ x ∈ items.zip plans, run.Leaves x.2 x.1) :
    ValueAlgebra.convertTuple run plans v path site = .ok items := by
  have parts := @List.zip_map_left _ _ _ Prod.snd (Value.numbered 0 items) plans
  rw [Value.map_snd_numbered] at parts
  unfold ValueAlgebra.convertTuple
  rw [he]
  change run.runAll site _ = _
  rw [runAll, List.map_map]
  · have first := List.map_fst_zip (Nat.le_of_eq hl)
    rw [parts, List.map_map] at first
    exact congrArg Except.ok first
  · refine List.forall_mem_map.2 fun x hx => h (x.1.2, x.2) ?_
    rw [parts]
    exact List.mem_map.2 ⟨x, hx, rfl⟩

omit [Host] in
theorem convertNamed {plans : List (String × Conversion)} {locate : String → Value → Path}
    {entries : List (String × Value)} (hn : Names.Proper (names entries))
    (he : v.elements = .ok (Value.keyed entries))
    (h : ∀ name x, (name, x) ∈ entries → ∃ c, plans.lookup name = some c ∧ run.Leaves c x) :
    ValueAlgebra.convertNamed run plans locate v site = .ok entries := by
  have named := Value.namedElements_of_content hn.2 he
  cases hc : ValueAlgebra.convertNamed run plans locate v site with
  | error failure =>
    obtain ⟨name, x, c, other, hx, hl, failed⟩ := convertNamed_error named hc
    obtain ⟨c', hl', leaves⟩ := h name x hx
    cases hl.symm.trans hl'
    cases (leaves _ _).symm.trans failed
  | ok result =>
    have paired := convertNamed_ok named hc
    have all : covered plans entries = entries := List.filter_eq_self.2 fun x hx => by
      obtain ⟨c, hl, -⟩ := h x.1 x.2 hx
      rw [hl]
      rfl
    rw [all] at paired
    refine congrArg Except.ok (eq_of_lookup paired.names_eq hn.nodup fun name hm => ?_).symm
    obtain ⟨x, hx⟩ := exists_of_mem_names hm
    have hx' := lookup_of_mem hn.nodup hx
    obtain ⟨y, hy, c, path, other, hl, ran⟩ := paired.lookup hx'
    obtain ⟨c', hl', leaves⟩ := h name x hx
    cases hl.symm.trans hl'
    cases (leaves path other).symm.trans ran
    rw [hx', hy]

theorem convertItems {items : List Value} {t : Ty} (hne : items ≠ [])
    (he : v.elements = .ok (Value.numbered 0 items)) (typed : ∀ x ∈ items, x.ty = t)
    (h : ∀ x ∈ items, run.Leaves c x) :
    ValueAlgebra.convertItems run kind mode c wanted v path site =
      if kind = .set then orFailure (Value.set items) else orFailure (Value.list items) := by
  have parts := Value.map_snd_numbered 0 items
  unfold ValueAlgebra.convertItems
  rw [he]
  change run.runAll site _ >>= _ = _
  rw [runAll, List.map_map]
  · change Except.ok ((Value.numbered 0 items).map (·.2)) >>= _ = _
    rw [parts]
    change (if items.isEmpty = true then _ else _) = _
    rw [if_neg (by simpa using hne), Conversion.homogenize_of_all hne typed]
    rfl
  · exact List.forall_mem_map.2 fun x hx => h x.2 (parts ▸ List.mem_map_of_mem hx)

theorem convertEntries {entries : List (String × Value)} {t : Ty} (hne : entries ≠ [])
    (hn : Names.Proper (names entries))
    (he : v.elements = .ok (Value.keyed entries)) (typed : ∀ x ∈ values entries, x.ty = t)
    (h : ∀ x ∈ values entries, run.Leaves c x) :
    ValueAlgebra.convertEntries run mode c wanted v path site = orFailure (Value.map entries) := by
  have some : values entries ≠ [] := fun none => hne (List.map_eq_nil_iff.1 none)
  unfold ValueAlgebra.convertEntries
  rw [Value.namedElements_of_content hn.2 he]
  change run.runAll site _ >>= _ = _
  rw [List.map_map, runAll, List.map_map]
  · change Except.ok (values entries) >>= _ = _
    change (if (values entries).isEmpty = true then _ else _) = _
    rw [if_neg (by simpa using some), Conversion.homogenize_of_all some typed]
    change orFailure (Value.map (((entries.map _).map _).zip _)) = _
    rw [List.map_map]
    exact congrArg (fun parts => orFailure (Value.map parts)) (zip_names_values entries)
  · exact List.forall_mem_map.2 fun x hx => h x.2 (mem_values hx)

end Runner.Leaves

/-! ## Runs on values at rest -/

namespace Conversion

variable {mode : Mode} {e t : Ty} {rule : Rule Conversion} {c : Conversion} {v : Value} {path : Path}
  {site : List Nat}

/-- A collection becomes one of its own kind element by element. -/
theorem plan?_collection_eq (kind : CollectionKind) (hne : t ≠ e) :
    plan? mode (kind.type t) (kind.type e) =
      (plan? mode t e).map fun c => .toward (kind.type e) (.collection kind mode c e) := by
  rw [plan?, Rule.between?.eq_def, if_neg (by cases kind <;> simp [CollectionKind.type]),
    if_neg (by cases kind <;> simp [CollectionKind.type]),
    if_neg fun eq => hne (collection_injective eq).2]
  cases kind <;> simp only [CollectionKind.type, Option.map_map] <;> rfl

/-- A rule that changes nothing. -/
theorem run_of_apply (ht : e ≠ .dynamic) (known : v.isKnown = true) (notNull : v.isNull = false)
    (later : rule ≠ .decideLater)
    (h : rule.apply (runPart v.height) e v.unmark path site = .ok v.unmark) :
    (toward e rule).run v path site = .ok v := by
  have applied : rule.applyDecided (runPart v.height) e v.unmark path site = .ok v.unmark := by
    rw [← h, Rule.applyDecided]
    exact later
  rw [run_eq, runWith_decided ht known notNull, applied]
  obtain ⟨m, content⟩ := v
  exact congrArg Except.ok (Value.withMarks_bare m content)

theorem run_dynamic : (toward .dynamic rule).run v path site = .ok v := by
  rw [run_eq, runWith_dynamic]

/-- A value of the target type is kept. -/
theorem plan?_of_exact (known : v.isKnown = true) (notNull : v.isNull = false) (typed : v.ty = e) :
    ∃ c, plan? mode v.ty e = some c ∧ ∀ path site, c.run v path site = .ok v := by
  by_cases he : e = .dynamic
  · subst he
    exact ⟨_, plan?_dynamic _, fun path site => run_dynamic⟩
  · rw [typed]
    exact ⟨_, plan?_keep he, fun path site => run_of_apply he known notNull (by simp) rfl⟩

theorem leaves_runPart {x : Value} (h : ∀ path site, c.run x path site = .ok x) {n : Nat}
    (lt : x.height < n) : (runPart n).Leaves c x :=
  fun path site => (runPart_of_lt lt).trans (h path site)

end Conversion

namespace Value

variable {mode : Mode} {e t : Ty}

/-- The way into an element type that an empty collection has already. -/
theorem EmptyAs.plan?_isSome (h : EmptyAs e t) (he : e.WellFormed) :
    (Conversion.plan? mode t e).isSome = true := by
  rcases h with rfl | rfl
  · rw [Conversion.plan?_dynamic]
    rfl
  · exact Conversion.plan?_isSome_of_fills (Ty.Fills.withoutOptional he) he

omit [Host] in
theorem EmptyAs.emptyCollection_eq (h : EmptyAs e t) (kind : CollectionKind) :
    emptyCollection kind e t = emptyCollection kind .dynamic t := by
  by_cases he : e = .dynamic
  · rw [he]
  · unfold emptyCollection
    rw [if_neg he, if_pos rfl, h.resolve_left he]

end Value

namespace Value.Rests

variable {mode : Mode} {e t : Ty} {m : MarkSet}

theorem run_null (free : t.OptionalFree) (fills : t.Fills e) (he : e.WellFormed) :
    ∃ c, Conversion.plan? mode t e = some c ∧
      ∀ path site, c.run ⟨m, .null t⟩ path site = .ok ⟨m, .null t⟩ := by
  obtain ⟨c, hc⟩ := Option.isSome_iff_exists.1 (Conversion.plan?_isSome_of_fills fills he)
  obtain ⟨rule, rfl, -⟩ := Conversion.planned_of_plan? hc
  refine ⟨_, hc, fun path site => ?_⟩
  by_cases dynamic : e = .dynamic
  · subst dynamic
    exact Conversion.run_dynamic
  have typed : (Value.mk m (.null t)).ty = t := by simp only [ty]
  rw [Conversion.run_eq, Conversion.runWith_null dynamic rfl, typed, fills.converted_eq he free]
  exact congrArg Except.ok (withMarks_bare m _)

theorem run_unknown {r : Refinement} (free : t.OptionalFree) (fills : t.Fills e) (kept : r.kept t = r)
    (he : e.WellFormed) (made : (Value.mk m (.unknown t r)).WellMade) :
    ∃ c, Conversion.plan? mode t e = some c ∧
      ∀ path site, c.run ⟨m, .unknown t r⟩ path site = .ok ⟨m, .unknown t r⟩ := by
  obtain ⟨c, hc⟩ := Option.isSome_iff_exists.1 (Conversion.plan?_isSome_of_fills fills he)
  obtain ⟨rule, rfl, -⟩ := Conversion.planned_of_plan? hc
  refine ⟨_, hc, fun path site => ?_⟩
  by_cases dynamic : e = .dynamic
  · subst dynamic
    exact Conversion.run_dynamic
  have closed : t ≠ .dynamic := fun eq => dynamic (by rw [eq] at fills; cases fills; rfl)
  have unmarked : (Value.mk m (.unknown t r)).unmark = bare (.unknown t r) := rfl
  rw [Conversion.run_eq, Conversion.runWith_unknown dynamic rfl, unmarked,
    convertUnknown_self closed (fills.converted_eq he free) made.apt.1 made.apt.2, kept]
  exact congrArg Except.ok (withMarks_bare m _)

variable {items : List Value} {entries : List (String × Value)}

/-- What conversions see of a list or set of elements of one type. -/
structure Shape (kind : CollectionKind) (t : Ty) (items : List Value) (v : Value) : Prop where
  notMap : kind ≠ .map
  known : v.isKnown = true
  notNull : v.isNull = false
  typed : v.ty = kind.type t
  elements : v.unmark.elements = .ok (numbered 0 items)
  size : v.unmark.size = .ok items.length
  elementType : v.ty.elementType = .ok t
  height : ∀ x ∈ items, x.height < v.height
  types : ∀ x ∈ items, x.ty = t
  empty : items = [] → emptyCollection kind .dynamic t = v.unmark
  made : items ≠ [] →
    (if kind = .set then orFailure (Value.set items) else orFailure (Value.list items)) =
      .ok v.unmark

theorem shape_list (made : (Value.mk m (.list t items)).WellMade) :
    Shape .list t items ⟨m, .list t items⟩ where
  notMap := by simp
  known := rfl
  notNull := rfl
  typed := by simp only [ty, CollectionKind.type]
  elements := rfl
  size := rfl
  elementType := by
    rw [ty]
    rfl
  height _ hx := height_lt_of_mem_parts hx
  types := made.here
  empty none := by
    rw [none]
    rfl
  made hne := by
    rw [if_neg (by simp), list_of_common hne (commonType?_of_all hne made.here),
      map_conformTo_of_ty made.here]
    rfl

theorem shape_set (made : (Value.mk m (.set t items)).WellMade)
    (listed : (Content.set t items).Listed) : Shape .set t items ⟨m, .set t items⟩ where
  notMap := by simp
  known := rfl
  notNull := rfl
  typed := by simp only [ty, CollectionKind.type]
  elements := rfl
  size := rfl
  elementType := by
    rw [ty]
    rfl
  height _ hx := height_lt_of_mem_parts hx
  types x hx := (made.here x hx).1
  empty none := by
    rw [none]
    rfl
  made hne := by
    rw [if_pos rfl, set_of_listed hne made.here listed]
    rfl

theorem run_items {kind : CollectionKind} {v : Value} (shape : Shape kind t items v)
    (he : e.WellFormed) (empty : items = [] → EmptyAs e t)
    (parts : ∀ x ∈ items, ∃ c, Conversion.plan? mode x.ty e = some c ∧
      ∀ path site, c.run x path site = .ok x) :
    ∃ c, Conversion.plan? mode v.ty (kind.type e) = some c ∧
      ∀ path site, c.run v path site = .ok v := by
  by_cases same : t = e
  · exact Conversion.plan?_of_exact shape.known shape.notNull (same ▸ shape.typed)
  obtain ⟨c, hc⟩ : ∃ c, Conversion.plan? mode t e = some c := by
    cases items with
    | nil => exact Option.isSome_iff_exists.1 ((empty rfl).plan?_isSome he)
    | cons x items =>
      obtain ⟨c, hc, -⟩ := parts x List.mem_cons_self
      exact ⟨c, shape.types x List.mem_cons_self ▸ hc⟩
  refine ⟨.toward (kind.type e) (.collection kind mode c e), ?_, fun path site => ?_⟩
  · rw [shape.typed, Conversion.plan?_collection_eq kind same, hc]
    rfl
  refine Conversion.run_of_apply (by cases kind <;> simp [CollectionKind.type]) shape.known
    shape.notNull (by simp) ?_
  rw [Rule.apply, shape.size]
  change (if kind = .map then _ else _) = _
  rw [if_neg shape.notMap]
  by_cases none : items = []
  · rw [convertItems, shape.elements, none]
    change (orFailure v.unmark.ty.elementType >>= _) = _
    rw [ty_unmark, shape.elementType]
    change Except.ok (emptyCollection kind e t) = _
    rw [(empty none).emptyCollection_eq, shape.empty none]
  · rw [Runner.Leaves.convertItems none shape.elements shape.types fun x hx => ?_]
    · exact shape.made none
    · obtain ⟨c', hc', leaves⟩ := parts x hx
      rw [shape.types x hx] at hc'
      cases hc.symm.trans hc'
      exact Conversion.leaves_runPart leaves (shape.height x hx)

theorem run_map (made : (Value.mk m (.map t entries)).WellMade) (he : e.WellFormed)
    (empty : entries = [] → EmptyAs e t)
    (parts : ∀ x ∈ values entries, ∃ c, Conversion.plan? mode x.ty e = some c ∧
      ∀ path site, c.run x path site = .ok x) :
    ∃ c, Conversion.plan? mode (.map t) (.map e) = some c ∧
      ∀ path site, c.run ⟨m, .map t entries⟩ path site = .ok ⟨m, .map t entries⟩ := by
  obtain ⟨normal, types⟩ : Names.Normal (names entries) ∧ ∀ x ∈ values entries, x.ty = t := made.here
  have typed : (Value.mk m (.map t entries)).ty = .map t := by simp only [ty]
  by_cases same : t = e
  · rw [← typed]
    exact Conversion.plan?_of_exact rfl rfl (same ▸ typed)
  obtain ⟨c, hc⟩ : ∃ c, Conversion.plan? mode t e = some c := by
    cases entries with
    | nil => exact Option.isSome_iff_exists.1 ((empty rfl).plan?_isSome he)
    | cons x entries =>
      obtain ⟨c, hc, -⟩ := parts x.2 List.mem_cons_self
      exact ⟨c, types x.2 List.mem_cons_self ▸ hc⟩
  refine ⟨.toward (.map e) (.collection .map mode c e), ?_, fun path site => ?_⟩
  · exact (Conversion.plan?_collection_eq .map same).trans (by rw [hc]; rfl)
  refine Conversion.run_of_apply (by simp) rfl rfl (by simp) ?_
  rw [Rule.apply]
  change convertEntries _ mode c e (bare (.map t entries)) path site = .ok (bare (.map t entries))
  by_cases none : entries = []
  · subst none
    change Except.ok (emptyCollection .map e t) = _
    rw [(empty rfl).emptyCollection_eq]
    rfl
  · have nonempty : values entries ≠ [] := fun none' => none (List.map_eq_nil_iff.1 none')
    rw [Runner.Leaves.convertEntries none normal.proper rfl types fun x hx => ?_]
    · rw [map_of_common normal.proper nonempty (commonType?_of_all nonempty types),
        mapValues_eq_self fun x hx => conformTo_of_ty (types x hx)]
      rfl
    · obtain ⟨c', hc', leaves⟩ := parts x hx
      rw [types x hx] at hc'
      cases hc.symm.trans hc'
      exact Conversion.leaves_runPart leaves (height_lt_map hx)

theorem run_object {attributes : List (String × Value)} {targets : List (String × Ty)}
    {optional : List String} (made : (Value.mk m (.object attributes)).WellMade)
    (he : (Ty.object targets optional).WellFormed) (hn : names attributes = names targets)
    (parts : ∀ name x e, (name, x) ∈ attributes → (name, e) ∈ targets →
      ∃ c, Conversion.plan? mode x.ty e = some c ∧ ∀ path site, c.run x path site = .ok x) :
    ∃ c, Conversion.plan? mode (.object (entryTypes attributes) []) (.object targets optional) =
        some c ∧
      ∀ path site, c.run ⟨m, .object attributes⟩ path site = .ok ⟨m, .object attributes⟩ := by
  have proper : Names.Proper (names attributes) := Names.Normal.proper made.here
  have typed : (Value.mk m (.object attributes)).ty = .object (entryTypes attributes) [] := by
    simp only [ty]
  by_cases same : Ty.object (entryTypes attributes) [] = .object targets optional
  · rw [← typed]
    exact Conversion.plan?_of_exact rfl rfl (typed.trans same)
  obtain ⟨c, hc⟩ := Option.isSome_iff_exists.1 <| @Conversion.plan?_object_isSome _ mode
    (entryTypes attributes) targets [] optional fun name e ht => by
      obtain ⟨x, hx⟩ := exists_of_mem_names (hn ▸ mem_names ht)
      obtain ⟨c, hc, -⟩ := parts name x e hx ht
      exact ⟨x.ty, by rw [lookup_entryTypes, lookup_of_mem proper.nodup hx]; rfl, by rw [hc]; rfl⟩
  obtain ⟨rule, rfl, planned⟩ := Conversion.planned_of_plan? hc
  refine ⟨_, hc, fun path site => ?_⟩
  have toObject := planned.toObject
  generalize hs : Ty.object (entryTypes attributes) [] = source at toObject same
  cases toObject with
  | later | pick => cases hs
  | same => exact absurd rfl same
  | ofCapsule _ capsule =>
    rw [← hs] at capsule
    cases capsule
  | @object sources absent os plans plan =>
    cases hs
    have found (name : String) (h : name ∈ names targets) :
        (entryTypes attributes).lookup name ≠ none := by
      rw [← hn, ← names_entryTypes] at h
      exact fun none => lookup_eq_none.1 none h
    -- no attribute of the target is missing
    obtain rfl : absent = [] := List.eq_nil_iff_forall_not_mem.2 fun a ha => by
      obtain ⟨none, -, t, ht, -⟩ := plan.missing a.1 a.2 ha
      exact found a.1 (mem_names ht) none
    refine Conversion.run_of_apply (by simp) rfl rfl (by simp) ?_
    rw [Rule.apply]
    change (convertNamed _ plans _ (bare (.object attributes)) site >>= _) = _
    rw [Runner.Leaves.convertNamed proper rfl fun name x hx => ?_]
    · change Except.ok (Value.object (attributes ++ [])) = _
      rw [List.append_nil, Value.object, namedParts_of_proper proper]
      rfl
    · have member : name ∈ names targets := hn ▸ mem_names hx
      obtain ⟨c, hp⟩ := exists_of_mem_names ((plan.cover name member).resolve_right (by simp))
      obtain ⟨s, e, hs, ht, hc⟩ := plan.converted name c hp
      obtain ⟨c', hc', leaves⟩ := parts name x e hx ht
      rw [lookup_entryTypes, lookup_of_mem proper.nodup hx] at hs
      cases hs
      cases hc.symm.trans hc'
      exact ⟨c, lookup_of_mem (he.names_object.nodup.sublist plan.names_plans) hp,
        Conversion.leaves_runPart leaves (height_lt_object (mem_values hx))⟩

theorem run_tuple {targets : List Ty} (hl : items.length = targets.length)
    (parts : ∀ (i : Nat) x e, items[i]? = some x → targets[i]? = some e →
      ∃ c, Conversion.plan? mode x.ty e = some c ∧ ∀ path site, c.run x path site = .ok x) :
    ∃ c, Conversion.plan? mode (.tuple (types items)) (.tuple targets) = some c ∧
      ∀ path site, c.run ⟨m, .tuple items⟩ path site = .ok ⟨m, .tuple items⟩ := by
  have typed : (Value.mk m (.tuple items)).ty = .tuple (types items) := by simp only [ty]
  by_cases same : Ty.tuple (types items) = .tuple targets
  · rw [← typed]
    exact Conversion.plan?_of_exact rfl rfl (typed.trans same)
  have part {i : Nat} {s : Ty} (hs : (types items)[i]? = some s) :
      ∃ x, items[i]? = some x ∧ x.ty = s := by
    rwa [types_eq_map, List.getElem?_map, Option.map_eq_some_iff] at hs
  obtain ⟨c, hc⟩ := Option.isSome_iff_exists.1 <| @Conversion.plan?_tuple_isSome _ mode
    (types items) targets ((length_types items).trans hl) fun i s e hs he => by
      obtain ⟨x, hx, rfl⟩ := part hs
      obtain ⟨c, hc, -⟩ := parts i x e hx he
      rw [hc]
      rfl
  obtain ⟨plans, rfl, planned⟩ := Conversion.plan?_tuple_eq_some same hc
  have length : plans.length = targets.length := by
    rw [← planned.length_eq, List.length_zip, length_types, hl, Nat.min_self]
  refine ⟨_, hc, fun path site => Conversion.run_of_apply (by simp) rfl rfl (by simp) ?_⟩
  rw [Rule.apply]
  change (convertTuple _ plans (bare (.tuple items)) path site >>= _) = _
  rw [Runner.Leaves.convertTuple rfl (hl.trans length.symm) fun y hy => ?_]
  · rfl
  · obtain ⟨i, hi⟩ := List.getElem?_of_mem hy
    obtain ⟨hx, hp⟩ := List.getElem?_zip_eq_some.1 hi
    obtain ⟨s, e, hs, he, hc⟩ := getElem?_of_zip planned hp
    obtain ⟨x, hx', rfl⟩ := part hs
    cases hx.symm.trans hx'
    obtain ⟨c', hc', leaves⟩ := parts i y.1 e hx he
    cases hc.symm.trans hc'
    exact Conversion.leaves_runPart leaves (height_lt_tuple (List.mem_of_getElem? hx))

/-- A value at rest converts, and a run leaves it as it is. -/
theorem run {v : Value} (h : v.Rests e) (he : e.WellFormed) (made : v.WellMade) :
    ∃ c, Conversion.plan? mode v.ty e = some c ∧ ∀ path site, c.run v path site = .ok v := by
  induction h with
  | dynamic v => exact ⟨_, Conversion.plan?_dynamic _, fun path site => Conversion.run_dynamic⟩
  | exact known notNull typed => exact Conversion.plan?_of_exact known notNull typed
  | null free fills =>
    rw [ty]
    exact run_null free fills he
  | unknown free fills kept =>
    rw [ty]
    exact run_unknown free fills kept he made
  | list empty _ ih =>
    have element := (Ty.everywhere_list.1 he).2
    exact run_items (shape_list made) element empty fun x hx => ih x hx element (made.inside hx)
  | set empty _ listed ih =>
    have element := (Ty.everywhere_set.1 he).2
    exact run_items (shape_set made listed) element empty fun x hx =>
      ih x hx element (made.inside hx)
  | map empty _ ih =>
    have element := (Ty.everywhere_map.1 he).2
    rw [ty]
    exact run_map made element empty fun x hx => ih x hx element (made.inside hx)
  | object hn _ ih =>
    rw [ty]
    exact run_object made he hn fun name x e hx ht =>
      ih name x e hx ht (he.ofAttribute ht) (made.inside (mem_values hx))
  | tuple hl _ ih =>
    rw [ty]
    exact run_tuple hl fun i x e hx ht =>
      ih i x e hx ht (he.ofItem (List.mem_of_getElem? ht)) (made.inside (List.mem_of_getElem? hx))

end Value.Rests

end ValueAlgebra
