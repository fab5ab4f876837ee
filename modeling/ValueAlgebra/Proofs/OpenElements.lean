import ValueAlgebra.Proofs.Plugging
import ValueAlgebra.Proofs.ResultTypes
import ValueAlgebra.Proofs.Steady

/-!
# Collections with open element types

Where the element type of a target has a dynamic part, some value that is safely converted to the
target is not converted after all: nulls of two types fill the dynamic part in two ways, and the
collection of them has no element type. The failure is passed on by everything around the
collection.

Main statements:

* `Conversion.homogenize_rivals`: nulls of types that are plugged in two ways do not come together.
* `Conversion.exists_stuck`: for each target that is not settled, some value is not converted.
-/

namespace ValueAlgebra

open Entries Text Refining

/-- The values with room for all elements, without optional attributes in their types. -/
def Scope.plain : Scope :=
  Scope.ample.restrict fun t => t.optionalNames = []

theorem Scope.closed_plain : Scope.plain.Closed :=
  (Scope.closed_upTo Refining.listCapacity).restrict Ty.structural_optionalNames rfl

variable [Host]

namespace Conversion

variable {mode : Mode} {whole : Prop} {s t : Ty} {c : Conversion} {v w : Value} {path : Path}
  {site : List Nat}

/-- A value that is converted to a target, as far as types tell, but not when it comes to it. If
`whole`, the type of the value leaves nothing open. -/
structure Stuck (whole : Prop) (t : Ty) (v : Value) (c : Conversion) : Prop where
  decided : v.Decided
  within : v.Within .plain
  closed : whole → v.ty.hasDynamic = false
  planned : plan? .safe v.ty t = some c
  fails : ∀ path site w, c.run v path site ≠ .ok w

theorem Stuck.target_ne (h : Stuck whole t v c) : t ≠ .dynamic := by
  rintro rfl
  have := h.planned
  rw [plan?_dynamic] at this
  cases this
  exact h.fails .root [] v (by rw [run_eq, runWith_dynamic])

theorem Stuck.ty_ne (h : Stuck whole t v c) : v.ty ≠ t := by
  rintro rfl
  have := h.planned
  rw [plan?_keep h.target_ne] at this
  cases this
  obtain ⟨w, hr, -⟩ := @run_keep _ _ _ .root [] h.target_ne h.decided
  exact h.fails .root [] w hr

/-! ## Plans for structures that become collections -/

theorem planAll?_of_forall₂ {sources : List Ty} {plans : List Conversion}
    (h : List.Forall₂ (fun s c => plan? mode s t = some c) sources plans) :
    planAll? mode t sources = some plans := by
  induction h with
  | nil => rw [planAll?]
  | cons hc _ ih =>
    rw [planAll?, hc, ih]
    rfl

theorem planEntries?_of_paired {sources : List (String × Ty)} {plans : List (String × Conversion)}
    (h : Paired (fun _ s c => plan? mode s t = some c) sources plans) :
    planEntries? mode t sources = some plans := by
  induction h with
  | nil => rw [planEntries?]
  | @cons x y _ _ hc _ ih =>
    obtain ⟨name, s⟩ := x
    obtain ⟨other, c⟩ := y
    obtain ⟨rfl, hc⟩ := hc
    rw [planEntries?, hc, ih]
    rfl

theorem plan?_gather {sources : List Ty} {plans : List Conversion} {kind : CollectionKind}
    (hk : kind ≠ .map) (ht : t ≠ .dynamic)
    (h : List.Forall₂ (fun s c => plan? mode s t = some c) sources plans) :
    plan? mode (.tuple sources) (kind.type t) =
      some (.toward (kind.type t) (.gather kind mode plans t)) := by
  have hd : t.isDynamic = false := by cases t <;> first | rfl | exact absurd rfl ht
  have gathering : Rule.gathering? mode kind sources t = some (.gather kind mode plans t) := by
    rw [Rule.gathering?]
    simp [hd, planAll?_of_forall₂ h]
  cases kind with
  | map => exact absurd rfl hk
  | list =>
    change plan? mode (.tuple sources) (.list t) = _
    rw [plan?, Rule.between?.eq_def, if_neg (by simp), if_neg (by simp), if_neg (by simp)]
    exact congrArg _ gathering
  | set =>
    change plan? mode (.tuple sources) (.set t) = _
    rw [plan?, Rule.between?.eq_def, if_neg (by simp), if_neg (by simp), if_neg (by simp)]
    exact congrArg _ gathering

theorem plan?_entries {sources : List (String × Ty)} {plans : List (String × Conversion)}
    {os : List String} (hs : sources ≠ []) (ht : t ≠ .dynamic)
    (h : Paired (fun _ s c => plan? mode s t = some c) sources plans) :
    plan? mode (.object sources os) (.map t) = some (.toward (.map t) (.entries mode plans)) := by
  have hd : t.isDynamic = false := by cases t <;> first | rfl | exact absurd rfl ht
  have entries : Rule.ofEntries? mode sources t = some (.entries mode plans) := by
    rw [Rule.ofEntries?]
    simp [hd, hs, planEntries?_of_paired h]
  rw [plan?, Rule.between?.eq_def, if_neg (by simp), if_neg (by simp), if_neg (by simp)]
  exact congrArg _ entries

theorem plan?_tuple_eq_some {sources targets : List Ty} (hne : Ty.tuple sources ≠ .tuple targets)
    (h : plan? mode (.tuple sources) (.tuple targets) = some c) :
    ∃ plans, c = .toward (.tuple targets) (.tuple plans) ∧
      List.Forall₂ (fun p c => plan? mode p.1 p.2 = some c) (sources.zip targets) plans := by
  rw [plan?, Rule.between?.eq_def, if_neg (by simp), if_neg (by simp), if_neg hne] at h
  simp only [Option.map_map, Option.map_eq_some_iff] at h
  obtain ⟨plans, hp, rfl⟩ := h
  exact ⟨plans, rfl, (planEach?_spec hp).2⟩

theorem plan?_union_eq_some {sources targets : List (String × Ty)}
    (hne : Ty.union sources ≠ .union targets)
    (h : plan? mode (.union sources) (.union targets) = some c) :
    ∃ plans, c = .toward (.union targets) (.union plans) ∧
      Paired (fun name s c => ∃ t, targets.lookup name = some t ∧ plan? mode s t = some c)
        sources plans := by
  rw [plan?, Rule.between?.eq_def, if_neg (by simp), if_neg (by simp), if_neg hne] at h
  simp only [Option.map_map, Option.map_eq_some_iff] at h
  obtain ⟨plans, hp, rfl⟩ := h
  exact ⟨plans, rfl, planNamed?_spec hp⟩

/-! ## Runs of parts in successful runs -/

theorem run_gather_ok {kind : CollectionKind} {plans : List Conversion} {e : Ty}
    {items : List Value} (ht : t ≠ .dynamic)
    (h : (toward t (.gather kind mode plans e)).run (.tuple items) path site = .ok w) :
    ∃ ws : List Value, List.Forall₂ (fun x y => ∃ path site, x.2.run x.1 path site = .ok y)
        (items.zip plans) ws ∧
      (ws ≠ [] → ∃ n path site second, homogenize (runPart n) kind mode path site ws = .ok second) := by
  rw [run_eq, runWith_decided ht rfl rfl] at h
  obtain ⟨x, hx, -⟩ := map_eq_ok h
  change Rule.apply _ (.gather kind mode plans e) t (.tuple items) _ _ = _ at hx
  rw [Rule.apply] at hx
  obtain ⟨ws, hc, hx⟩ := bind_eq_ok hx
  have paired := @convertTuple_ok _ _ _ _ _ (Value.numbered 0 items) _ rfl hc
  rw [Value.map_snd_numbered] at paired
  refine ⟨ws, paired.imp ?_, fun hne => ?_⟩
  · rintro x y ⟨path, site, hr⟩
    exact ⟨path, site, (runPart_ok hr).2⟩
  rw [if_neg (by simpa using hne)] at hx
  obtain ⟨second, hh, -⟩ := bind_eq_ok hx
  exact ⟨_, _, _, second, hh⟩

theorem run_entries_ok {plans : List (String × Conversion)} {attributes : List (String × Value)}
    (ht : t ≠ .dynamic) (hn : ∀ name ∈ names attributes, normalize name = name)
    (hp : names plans = names attributes)
    (h : (toward t (.entries mode plans)).run (.bare (.object attributes)) path site = .ok w) :
    ∃ ws : List (String × Value), Paired (fun name x y => ∃ c path site,
        plans.lookup name = some c ∧ c.run x path site = .ok y) attributes ws ∧
      ∃ n path site second, homogenize (runPart n) .map mode path site (values ws) = .ok second := by
  rw [run_eq, runWith_decided ht rfl rfl] at h
  obtain ⟨x, hx, -⟩ := map_eq_ok h
  change Rule.apply _ (.entries mode plans) t (.bare (.object attributes)) _ _ = _ at hx
  rw [Rule.apply] at hx
  obtain ⟨ws, hc, hx⟩ := bind_eq_ok hx
  have paired := convertNamed_ok (Value.namedElements_of_content hn rfl) hc
  have all : covered plans attributes = attributes := List.filter_eq_self.2 fun x hx =>
    Option.isSome_iff_exists.2 (exists_lookup.2 (hp ▸ mem_names hx))
  rw [all] at paired
  obtain ⟨second, hh, -⟩ := bind_eq_ok hx
  refine ⟨ws, paired.imp ?_, _, _, _, second, hh⟩
  rintro x y ⟨hn, c, path, site, hl, hr⟩
  exact ⟨hn, c, path, site, hl, (runPart_ok hr).2⟩

theorem run_tuple_ok {plans : List Conversion} {items : List Value} (ht : t ≠ .dynamic)
    (h : (toward t (.tuple plans)).run (.tuple items) path site = .ok w) :
    ∃ ws : List Value, w.ty = .tuple (Value.types ws) ∧
      List.Forall₂ (fun x y => ∃ path site, x.2.run x.1 path site = .ok y) (items.zip plans) ws := by
  rw [run_eq, runWith_decided ht rfl rfl] at h
  obtain ⟨x, hx, rfl⟩ := map_eq_ok h
  change Rule.apply _ (.tuple plans) t (.tuple items) _ _ = _ at hx
  rw [Rule.apply] at hx
  obtain ⟨ws, hc, hx⟩ := bind_eq_ok hx
  cases hx
  have paired := @convertTuple_ok _ _ _ _ _ (Value.numbered 0 items) _ rfl hc
  rw [Value.map_snd_numbered] at paired
  refine ⟨ws, ?_, paired.imp ?_⟩
  · rw [Value.ty_withMarks]
    simp only [Value.tuple, Value.bare, Value.ty]
  · rintro x y ⟨path, site, hr⟩
    exact ⟨path, site, (runPart_ok hr).2⟩

theorem run_tuple_error {plans : List Conversion} {items : List Value} (ht : t ≠ .dynamic)
    {e : Failure} (h : (toward t (.tuple plans)).run (.tuple items) path site = .error e) :
    ∃ x c path site, (x, c) ∈ items.zip plans ∧ c.run x path site = .error e := by
  rw [run_eq, runWith_decided ht rfl rfl] at h
  have h := map_eq_error h
  change Rule.apply _ (.tuple plans) t (.tuple items) _ _ = _ at h
  rw [Rule.apply] at h
  rcases bind_eq_error h with h | ⟨_, -, h⟩
  · obtain ⟨key, x, c, site, -, hx, h⟩ :=
      @convertTuple_error _ _ _ _ _ (Value.numbered 0 items) _ rfl h
    rw [Value.map_snd_numbered] at hx
    have lower := Value.height_lt_tuple (m := .empty) (List.of_mem_zip hx).1
    exact ⟨x, c, _, site, hx, (runPart_of_lt lower).symm.trans h⟩
  · cases h

theorem run_union_ok {plans : List (String × Conversion)} {variants : List (String × Ty)}
    {name : String} (ht : t ≠ .dynamic) (hl : plans.lookup name = some c)
    (h : (toward t (.union plans)).run (.bare (.union variants name v)) path site = .ok w) :
    ∃ path site y, c.run v path site = .ok y := by
  rw [run_eq, runWith_decided ht rfl rfl] at h
  obtain ⟨x, hx, -⟩ := map_eq_ok h
  change Rule.apply _ (.union plans) t (.bare (.union variants name v)) _ _ = _ at hx
  rw [Rule.apply] at hx
  obtain ⟨_, eq, hx⟩ := bind_eq_ok hx
  cases eq
  simp only [convertVariant, hl] at hx
  obtain ⟨y, hr, -⟩ := bind_eq_ok hx
  exact ⟨_, _, y, (runPart_ok hr).2⟩

/-! ## Rivals -/

omit [Host] in
theorem ty_null (t : Ty) : (Value.null t).ty = t := by
  simp only [Value.null, Value.bare, Value.ty]

omit [Host] in
theorem wellFormed_of_plain (ht : t.Everywhere Scope.plain.types) : t.WellFormed :=
  ht.mono fun _ h => h.1.1

omit [Host] in
theorem optionalFree_of_plain (ht : t.Everywhere Scope.plain.types) : t.OptionalFree :=
  ht.mono fun _ h => h.2

omit [Host] in
theorem plain_plug {u : Ty} (hu : u.Everywhere Scope.plain.types)
    (ht : t.Everywhere Scope.plain.types) : (t.plug u).Everywhere Scope.plain.types :=
  .plug Scope.closed_plain.structural hu (fun _ _ h => h.2) (ht.mono fun _ h => .inr h)

/-- Nulls of types that are plugged in two ways have no common type. -/
theorem homogenize_rivals {run : Runner} {kind : CollectionKind} {e : Ty} {vs second : List Value}
    (hw : e.WellFormed) (hd : e.hasDynamic = true)
    (hty : Value.types vs = [e.plug .bool, e.plug (.object [] [])]) :
    homogenize run kind .safe path site vs ≠ .ok second := by
  have target {t : Ty} (ht : t.Fills e) (closed : t.hasDynamic = false)
      (hp : ∀ s ∈ Value.types vs, (plan? .safe s t).isSome = true) : False := by
    rw [closed_of_plugged ht hw closed (hp _ (by simp [hty])) (hp _ (by simp [hty]))] at hd
    cases hd
  have closed : ∀ s ∈ Value.types vs, s.hasDynamic = false := by
    rw [hty]
    simpa using ⟨Ty.hasDynamic_plug (u := .bool) rfl e,
      Ty.hasDynamic_plug (u := .object [] []) rfl e⟩
  intro h
  unfold homogenize at h
  split at h
  · rename_i common
    obtain ⟨e', common⟩ := Option.isSome_iff_exists.1 common
    -- both types would be the common one
    have eq (s : Ty) (hs : s ∈ Value.types vs) : s = e' := by
      obtain ⟨v, hv, rfl⟩ := Value.mem_types.1 hs
      refine (Value.ty_of_commonType? common hv).resolve_left fun dynamic => ?_
      have := closed v.ty hs
      rw [dynamic] at this
      cases this
    have first : e.plug .bool = e' := eq _ (by simp [hty])
    refine target (t := e') (first ▸ Ty.plug_fills hw) (first ▸ closed _ (by simp [hty])) ?_
    exact fun s hs => eq s hs ▸ plan?_self
  · split at h
    · cases h
    · rename_i u hu
      have common := Unification.common_target hu
      refine target (common.fills (by simp [hty]) ?_) ?_ fun s hs =>
        Unification.plan?_target_isSome hu hs
      · rw [hty]
        simpa using ⟨Ty.plug_fills hw, Ty.plug_fills hw⟩
      · refine Ty.hasDynamic_eq_false_iff.2 (common.everywhere Ty.structural_ne_dynamic ?_ ?_)
        · simp [hty]
        · exact fun s hs => Ty.hasDynamic_eq_false_iff.1 (closed s hs)

/-- A null of a plugged type is converted to a null of this type. -/
theorem ty_of_run_null {e u : Ty} (he : e.Everywhere Scope.plain.types)
    (hu : u.Everywhere Scope.plain.types) (hne : e ≠ .dynamic)
    (hc : plan? mode (e.plug u) e = some c)
    (h : c.run (.null (e.plug u)) path site = .ok w) : w.ty = e.plug u := by
  obtain ⟨rule, rfl, -⟩ := planned_of_plan? hc
  rw [run_eq, runWith_null hne rfl] at h
  cases h
  have hw := wellFormed_of_plain he
  rw [Value.ty_withMarks, ty_null, ty_null, Ty.converted,
    (Ty.plug_fills hw).filledFrom_eq hw (optionalFree_of_plain he),
    (optionalFree_of_plain (plain_plug hu he)).withoutOptional_eq]

omit [Host] in
theorem plain_tuple {items : List Value} (hl : items.length ≤ listCapacity)
    (hv : ∀ v ∈ items, v.Within .plain) : (Value.tuple items).Within .plain :=
  .tuple ⟨⟨⟨Names.proper_nil, by simp⟩, by rwa [Ty.partCount, Value.length_types]⟩, rfl⟩ hv

omit [Host] in
theorem plain_object {attributes : List (String × Value)} (hn : Names.Proper (names attributes))
    (hl : attributes.length ≤ listCapacity) (hv : ∀ v ∈ values attributes, v.Within .plain) :
    (Value.bare (.object attributes)).Within .plain := by
  refine .object ⟨⟨⟨?_, by simp⟩, ?_⟩, rfl⟩ hv
  · rwa [Ty.partNames, Value.names_entryTypes]
  · rwa [Ty.partCount, ← length_names, Value.names_entryTypes, length_names]

omit [Host] in
theorem closed_tuple {items : List Value} (h : ∀ v ∈ items, v.ty.hasDynamic = false) :
    (Value.tuple items).ty.hasDynamic = false := by
  simp only [Value.tuple, Value.bare, Value.ty]
  rw [Ty.hasDynamic, Ty.anyHasDynamic_eq_false]
  intro t ht
  obtain ⟨v, hv, rfl⟩ := Value.mem_types.1 ht
  exact h v hv

omit [Host] in
theorem closed_object {attributes : List (String × Value)}
    (h : ∀ v ∈ values attributes, v.ty.hasDynamic = false) :
    (Value.bare (.object attributes)).ty.hasDynamic = false := by
  simp only [Value.bare, Value.ty]
  rw [Ty.hasDynamic, Ty.anyHasDynamicEntry_eq_false]
  intro t ht
  obtain ⟨name, ht⟩ := exists_of_mem_values ht
  obtain ⟨v, hv, rfl⟩ := Value.mem_entryTypes.1 ht
  exact h v (mem_values hv)

/-- Results of the parts of a tuple that do not come together in a list or set. -/
theorem stuck_gather {e : Ty} {kind : CollectionKind} {items : List Value} {plans : List Conversion}
    (hk : kind ≠ .map) (hne : e ≠ .dynamic) (hl : items.length ≤ listCapacity)
    (within : ∀ v ∈ items, v.Within .plain) (closed : whole → ∀ v ∈ items, v.ty.hasDynamic = false)
    (hp : List.Forall₂ (fun v c => plan? .safe v.ty e = some c) items plans)
    (hf : ∀ ws : List Value, List.Forall₂ (fun x y => ∃ path site, x.2.run x.1 path site = .ok y)
      (items.zip plans) ws → ws ≠ [] ∧ ∀ n path site second,
        homogenize (runPart n) kind .safe path site ws ≠ .ok second) :
    ∃ v c, Stuck whole (kind.type e) v c := by
  have hty : (Value.tuple items).ty = .tuple (Value.types items) := by
    simp only [Value.tuple, Value.bare, Value.ty]
  refine ⟨.tuple items, .toward (kind.type e) (.gather kind .safe plans e), ⟨rfl, rfl, rfl⟩,
    plain_tuple hl within, fun hw => closed_tuple (closed hw), ?_, fun path site w h => ?_⟩
  · rw [hty]
    refine plan?_gather hk hne ?_
    rwa [Value.types_eq_map, List.forall₂_map_left_iff]
  · obtain ⟨ws, paired, hh⟩ := run_gather_ok (by cases kind <;> (intro eq; cases eq)) h
    obtain ⟨nonempty, differ⟩ := hf ws paired
    obtain ⟨n, path, site, second, hh⟩ := hh nonempty
    exact differ n path site second hh

/-- Results of the attributes of an object that do not come together in a map. -/
theorem stuck_entries {e : Ty} {attributes : List (String × Value)}
    {plans : List (String × Conversion)} (hne : e ≠ .dynamic) (ha : attributes ≠ [])
    (hn : Names.Proper (names attributes)) (hl : attributes.length ≤ listCapacity)
    (within : ∀ v ∈ values attributes, v.Within .plain)
    (closed : whole → ∀ v ∈ values attributes, v.ty.hasDynamic = false)
    (hp : Paired (fun _ v c => plan? .safe v.ty e = some c) attributes plans)
    (hf : ∀ ws : List (String × Value), Paired (fun name x y => ∃ c path site,
        plans.lookup name = some c ∧ c.run x path site = .ok y) attributes ws →
      ∀ n path site second, homogenize (runPart n) .map .safe path site (values ws) ≠ .ok second) :
    ∃ v c, Stuck whole (.map e) v c := by
  have hty : (Value.bare (.object attributes)).ty = .object (Value.entryTypes attributes) [] := by
    simp only [Value.bare, Value.ty]
  refine ⟨.bare (.object attributes), .toward (.map e) (.entries .safe plans), ⟨rfl, rfl, rfl⟩,
    plain_object hn hl within, fun hw => closed_object (closed hw), ?_, fun path site w h => ?_⟩
  · rw [hty, Value.entryTypes_eq_mapValues]
    refine plan?_entries (fun eq => ha (List.map_eq_nil_iff.1 eq)) hne ?_
    exact List.forall₂_map_left_iff.2 hp
  · obtain ⟨ws, paired, n, path, site, second, hh⟩ := run_entries_ok (t := .map e) (by simp) hn.2
      hp.names_eq.symm h
    exact hf ws paired n path site second hh

omit [Host] in
/-- The names of two elements of a map. -/
theorem proper_pair : Names.Proper ["x", "y"] := by
  refine ⟨by decide, fun name hn => ?_⟩
  rcases List.mem_pair.1 hn with rfl | rfl <;> rfl

/-- Where the element type has a dynamic part, nulls that fill it in two ways are not converted. -/
theorem exists_stuck_rivals {e : Ty} (he : e.Everywhere Scope.plain.types)
    (hd : e.hasDynamic = true) (hne : e ≠ .dynamic) (kind : CollectionKind) :
    ∃ v c, Stuck whole (kind.type e) v c := by
  have hw := wellFormed_of_plain he
  have bool : Ty.bool.Everywhere Scope.plain.types :=
    (Ty.everywhere_leaf rfl).2 Scope.closed_plain.structural.bool
  have object : (Ty.object [] []).Everywhere Scope.plain.types :=
    Ty.everywhere_object.2 ⟨⟨⟨⟨Names.proper_nil, by simp⟩, Nat.zero_le _⟩, rfl⟩, by simp⟩
  obtain ⟨v₁, hv₁⟩ : ∃ v, v = Value.null (e.plug .bool) := ⟨_, rfl⟩
  obtain ⟨v₂, hv₂⟩ : ∃ v, v = Value.null (e.plug (.object [] [])) := ⟨_, rfl⟩
  obtain ⟨c₁, h₁⟩ := Option.isSome_iff_exists.1
    (@plan?_isSome_of_fills _ .safe _ _ (Ty.plug_fills (u := .bool) hw) hw)
  obtain ⟨c₂, h₂⟩ := Option.isSome_iff_exists.1
    (@plan?_isSome_of_fills _ .safe _ _ (Ty.plug_fills (u := .object [] []) hw) hw)
  have within : ∀ v ∈ [v₁, v₂], v.Within .plain := by
    simpa [hv₁, hv₂] using
      ⟨Value.within_null (plain_plug bool he), Value.within_null (plain_plug object he)⟩
  have closed : ∀ v ∈ [v₁, v₂], v.ty.hasDynamic = false := by
    simpa [hv₁, hv₂, ty_null] using ⟨Ty.hasDynamic_plug (u := .bool) rfl e,
      Ty.hasDynamic_plug (u := .object [] []) rfl e⟩
  have rivals {w₁ w₂ : Value} {path₁ path₂ : Path} {site₁ site₂ : List Nat}
      (hr₁ : c₁.run v₁ path₁ site₁ = .ok w₁) (hr₂ : c₂.run v₂ path₂ site₂ = .ok w₂) :
      Value.types [w₁, w₂] = [e.plug .bool, e.plug (.object [] [])] := by
    rw [hv₁] at hr₁
    rw [hv₂] at hr₂
    rw [Value.types, Value.types, Value.types, ty_of_run_null he bool hne h₁ hr₁,
      ty_of_run_null he object hne h₂ hr₂]
  rw [← ty_null (e.plug .bool), ← hv₁] at h₁
  rw [← ty_null (e.plug (.object [] [])), ← hv₂] at h₂
  by_cases hk : kind = .map
  · subst hk
    refine @stuck_entries _ _ _ [("x", v₁), ("y", v₂)] [("x", c₁), ("y", c₂)]
      hne (by simp) proper_pair (show 2 ≤ listCapacity by decide) within (fun _ => closed)
      (.cons ⟨rfl, h₁⟩ (.cons ⟨rfl, h₂⟩ .nil)) fun ws paired n path site second => ?_
    obtain _ | ⟨⟨-, c, path₁, site₁, hl₁, hr₁⟩, _ | ⟨⟨-, c', path₂, site₂, hl₂, hr₂⟩, _ | _⟩⟩ := paired
    cases hl₁
    cases hl₂
    exact homogenize_rivals hw hd (rivals hr₁ hr₂)
  · refine @stuck_gather _ _ _ _ [v₁, v₂] [c₁, c₂] hk hne
      (show 2 ≤ listCapacity by decide) within (fun _ => closed) (.cons h₁ (.cons h₂ .nil))
      fun ws paired => ?_
    obtain _ | ⟨⟨path₁, site₁, hr₁⟩, _ | ⟨⟨path₂, site₂, hr₂⟩, _ | _⟩⟩ := paired
    exact ⟨by simp, fun n path site second => homogenize_rivals hw hd (rivals hr₁ hr₂)⟩

/-- Where any element type will do, lists of different element types are still not converted, if one
of the element types is open. -/
theorem exists_stuck_dynamic (open_ : ¬ whole) (kind : CollectionKind) :
    ∃ v c, Stuck whole (kind.type .dynamic) v c := by
  have list {e : Ty} (he : Scope.plain.types e) (leaf : e.components = []) :
      (Value.null (.list e)).Within .plain :=
    Value.within_null (Ty.everywhere_list.2 ⟨Scope.closed_plain.structural.list e,
      (Ty.everywhere_leaf leaf).2 he⟩)
  have within : ∀ v ∈ [Value.null (.list .dynamic), Value.null (.list .bool)], v.Within .plain := by
    simpa using ⟨list Scope.closed_plain.dynamic rfl, list Scope.closed_plain.structural.bool rfl⟩
  have stuck {t : Ty} {v : Value} (decided : v.Decided) (hv : v.Within .plain)
      (h : ∀ path site, ((plan? .safe v.ty t).map fun c => (c.run v path site).isOk) = some false) :
      ∃ v c, Stuck whole t v c := by
    obtain ⟨c, hc, -⟩ := Option.map_eq_some_iff.1 (h .root [])
    refine ⟨v, c, decided, hv, fun hw => absurd hw open_, hc, fun path site w hr => ?_⟩
    have failed := h path site
    rw [hc, Option.map_some, hr] at failed
    cases failed
  cases kind with
  | map =>
    refine stuck (v := .bare (.object [("x", .null (.list .dynamic)), ("y", .null (.list .bool))]))
      ⟨rfl, rfl, rfl⟩ (plain_object proper_pair (show 2 ≤ listCapacity by decide) within)
      fun path site => ?_
    cbv
  | list | set =>
    refine stuck (v := .tuple [.null (.list .dynamic), .null (.list .bool)]) ⟨rfl, rfl, rfl⟩
      (plain_tuple (show 2 ≤ listCapacity by decide) within) fun path site => ?_
    cbv

/-! ## A tuple of nulls, apart from one element -/

/-- A tuple of nulls, apart from one element. -/
def nullsButAt (source : Ty → Ty) (i : Nat) (v : Value) (targets : List Ty) : List Value :=
  (targets.map fun t => .null (source t)).set i v

section

variable {source : Ty → Ty} {ts : List Ty} {i : Nat}

omit [Host] in
theorem length_nullsButAt : (nullsButAt source i v ts).length = ts.length := by
  rw [nullsButAt, List.length_set, List.length_map]

omit [Host] in
theorem getElem?_nullsButAt_self (hi : ts[i]? = some t) :
    (nullsButAt source i v ts)[i]? = some v := by
  rw [nullsButAt, List.getElem?_set_self]
  rw [List.length_map]
  exact (List.getElem?_eq_some_iff.1 hi).1

omit [Host] in
theorem getElem?_nullsButAt {j : Nat} {x : Value} (hi : ts[i]? = some t)
    (hx : (nullsButAt source i v ts)[j]? = some x) :
    (j = i ∧ x = v) ∨ ∃ u, ts[j]? = some u ∧ x = .null (source u) := by
  by_cases hj : j = i
  · rw [hj, getElem?_nullsButAt_self hi] at hx
    cases hx
    exact .inl ⟨hj, rfl⟩
  · rw [nullsButAt, List.getElem?_set_ne (Ne.symm hj), List.getElem?_map,
      Option.map_eq_some_iff] at hx
    obtain ⟨u, hu, rfl⟩ := hx
    exact .inr ⟨u, hu, rfl⟩

omit [Host] in
theorem forall_nullsButAt {p : Value → Prop} (hi : ts[i]? = some t) (hv : p v)
    (null : ∀ t ∈ ts, p (.null (source t))) : ∀ x ∈ nullsButAt source i v ts, p x := by
  intro x hx
  obtain ⟨j, hj⟩ := List.mem_iff_getElem?.1 hx
  obtain ⟨-, rfl⟩ | ⟨t, ht, rfl⟩ := getElem?_nullsButAt hi hj
  · exact hv
  · exact null t (List.mem_of_getElem? ht)

omit [Host] in
theorem getElem?_types_nullsButAt (hi : ts[i]? = some t) :
    (Value.types (nullsButAt source i v ts))[i]? = some v.ty := by
  rw [Value.types_eq_map, List.getElem?_map, getElem?_nullsButAt_self hi, Option.map_some]

/-- A tuple of nulls is converted where the other element is. -/
theorem plan?_nullsButAt (hi : ts[i]? = some t) (hp : plan? mode v.ty t = some c)
    (hs : ∀ t ∈ ts, (plan? mode (source t) t).isSome = true) :
    (plan? mode (.tuple (Value.types (nullsButAt source i v ts))) (.tuple ts)).isSome = true := by
  refine plan?_tuple_isSome (by rw [Value.length_types, length_nullsButAt]) fun j s u hs' hu => ?_
  rw [Value.types_eq_map, List.getElem?_map, Option.map_eq_some_iff] at hs'
  obtain ⟨x, hx, rfl⟩ := hs'
  obtain ⟨rfl, rfl⟩ | ⟨t', ht', rfl⟩ := getElem?_nullsButAt hi hx
  · rw [hi] at hu
    cases hu
    rw [hp]
    rfl
  · rw [ht'] at hu
    cases hu
    rw [ty_null]
    exact hs _ (List.mem_of_getElem? ht')

/-- The rule that a tuple of nulls is converted by. -/
theorem planned_nullsButAt (hi : ts[i]? = some t) (hp : plan? mode v.ty t = some c)
    (hne : v.ty ≠ t) {k : Conversion}
    (hk : plan? mode (.tuple (Value.types (nullsButAt source i v ts))) (.tuple ts) = some k) :
    ∃ plans, k = .toward (.tuple ts) (.tuple plans) ∧
      ((nullsButAt source i v ts).zip plans)[i]? = some (v, c) ∧
      ∀ x c', (x, c') ∈ (nullsButAt source i v ts).zip plans →
        (x = v ∧ c' = c) ∨ ∃ s u rule, x = .null s ∧ c' = .toward u rule := by
  have typed := @getElem?_types_nullsButAt t v source ts i hi
  have different : Ty.tuple (Value.types (nullsButAt source i v ts)) ≠ .tuple ts := by
    intro eq
    rw [Ty.tuple.inj eq, hi] at typed
    exact hne (Option.some.inj typed).symm
  obtain ⟨plans, rfl, planned⟩ := plan?_tuple_eq_some different hk
  have hl : plans.length = ts.length := by
    rw [← planned.length_eq, List.length_zip, Value.length_types, length_nullsButAt, min_self]
  have each {j : Nat} {s u : Ty} {c' : Conversion} (hu : ts[j]? = some u)
      (hs : (Value.types (nullsButAt source i v ts))[j]? = some s) (hc : plans[j]? = some c') :
      plan? mode s u = some c' := by
    have hz : ((Value.types (nullsButAt source i v ts)).zip ts)[j]? = some (s, u) :=
      List.getElem?_zip_eq_some.2 ⟨hs, hu⟩
    have at_ := getElem?_of_forall₂ planned hz hc
    exact at_
  have here {c' : Conversion} (hc : plans[i]? = some c') : c' = c := by
    have planned := each hi typed hc
    rw [hp] at planned
    exact (Option.some.inj planned).symm
  refine ⟨plans, rfl, ?_, fun x c' hx => ?_⟩
  · have hc := List.getElem?_eq_getElem (hl ▸ (List.getElem?_eq_some_iff.1 hi).1)
    rw [here hc] at hc
    exact List.getElem?_zip_eq_some.2 ⟨getElem?_nullsButAt_self hi, hc⟩
  · obtain ⟨j, hj⟩ := List.mem_iff_getElem?.1 hx
    obtain ⟨hx, hc⟩ := List.getElem?_zip_eq_some.1 hj
    obtain ⟨rfl, rfl⟩ | ⟨u, hu, rfl⟩ := getElem?_nullsButAt hi hx
    · exact .inl ⟨rfl, here hc⟩
    · have hs : (Value.types (nullsButAt source i v ts))[j]? = some (source u) := by
        rw [Value.types_eq_map, List.getElem?_map, hx, Option.map_some, ty_null]
      obtain ⟨rule, rfl, -⟩ := planned_of_plan? (each hu hs hc)
      exact .inr ⟨_, u, rule, rfl, rfl⟩

theorem run_nullsButAt (hi : ts[i]? = some t) (hp : plan? mode v.ty t = some c)
    (hne : v.ty ≠ t) {k : Conversion}
    (hk : plan? mode (.tuple (Value.types (nullsButAt source i v ts))) (.tuple ts) = some k)
    (h : k.run (.tuple (nullsButAt source i v ts)) path site = .ok w) :
    ∃ (us : List Ty) (y : Value) (path : Path) (site : List Nat),
      w.ty = .tuple us ∧ us[i]? = some y.ty ∧ c.run v path site = .ok y := by
  obtain ⟨plans, rfl, here, -⟩ := planned_nullsButAt hi hp hne hk
  obtain ⟨ws, typed, paired⟩ := run_tuple_ok (t := .tuple ts) (by simp) h
  have hy := List.getElem?_eq_getElem (paired.length_eq ▸ (List.getElem?_eq_some_iff.1 here).1)
  obtain ⟨path, site, hr⟩ := getElem?_of_forall₂ paired here hy
  refine ⟨_, _, path, site, typed, ?_, hr⟩
  rw [Value.types_eq_map, List.getElem?_map, hy, Option.map_some]

/-- A tuple of nulls fails to convert only where the other element does. -/
theorem run_nullsButAt_error (hi : ts[i]? = some t) (hp : plan? mode v.ty t = some c)
    (hne : v.ty ≠ t) {k : Conversion}
    (hk : plan? mode (.tuple (Value.types (nullsButAt source i v ts))) (.tuple ts) = some k)
    {e : Failure} (h : k.run (.tuple (nullsButAt source i v ts)) path site = .error e) :
    ∃ path site, c.run v path site = .error e := by
  obtain ⟨plans, rfl, -, each⟩ := planned_nullsButAt hi hp hne hk
  obtain ⟨x, c', path, site, hx, hr⟩ := run_tuple_error (t := .tuple ts) (by simp) h
  obtain ⟨rfl, rfl⟩ | ⟨s, u, rule, rfl, rfl⟩ := each x c' hx
  · exact ⟨path, site, hr⟩
  · obtain ⟨w, ran⟩ := @run_null _ u path site rule s
    rw [ran] at hr
    cases hr

end

/-! ## What stands around a failure -/

namespace Stuck

omit [Host] in
theorem closed_plug {t : Ty} : (Value.null (t.plug .bool)).ty.hasDynamic = false := by
  rw [ty_null]
  exact Ty.hasDynamic_plug rfl t

/-- A collection of one element. -/
theorem collected (h : Stuck whole t v c) (kind : CollectionKind) :
    ∃ v c, Stuck whole (kind.type t) v c := by
  by_cases hk : kind = .map
  · subst hk
    refine @stuck_entries _ _ _ [("x", v)] [("x", c)] h.target_ne (by simp)
      (proper_pair.of_sublist (.cons_cons _ (.cons _ .slnil))) (show 1 ≤ listCapacity by decide)
      (by simpa [values] using h.within) (fun hw => by simpa [values] using h.closed hw)
      (.cons ⟨rfl, h.planned⟩ .nil) fun ws paired n path site second => ?_
    obtain _ | ⟨⟨-, c', path', site', hl, hr⟩, _ | _⟩ := paired
    cases hl
    exact absurd hr (h.fails _ _ _)
  · refine @stuck_gather _ _ _ _ [v] [c] hk h.target_ne
      (show 1 ≤ listCapacity by decide) (by simpa using h.within)
      (fun hw => by simpa using h.closed hw) (.cons h.planned .nil) fun ws paired => ?_
    obtain _ | ⟨⟨path', site', hr⟩, _ | _⟩ := paired
    exact absurd hr (h.fails _ _ _)

/-- An attribute of an object whose other attributes are null. -/
theorem inObject {targets : List (String × Ty)} {optional : List String} {name : String}
    (h : Stuck whole t v c) (ht : (Ty.object targets optional).Everywhere Scope.plain.types)
    (ha : (name, t) ∈ targets) : ∃ v c, Stuck whole (.object targets optional) v c := by
  have hw := wellFormed_of_plain ht
  have bool : Ty.bool.Everywhere Scope.plain.types :=
    (Ty.everywhere_leaf rfl).2 Scope.closed_plain.structural.bool
  let source : Ty → Ty := fun t => t.plug .bool
  have hn := names_nullsBut source name v targets
  obtain ⟨k, hk⟩ := Option.isSome_iff_exists.1 (@plan?_nullsBut _ _ _ _ source _ _ _ _ hw ha
    h.planned fun t hm => plan?_isSome_of_fills (Ty.plug_fills (hw.inside hm)) (hw.inside hm))
  refine ⟨.bare (.object (nullsBut source name v targets)), k, ⟨rfl, rfl, rfl⟩,
    plain_object (hn ▸ hw.names_object) ?_ (forall_nullsBut h.within fun t hm =>
      Value.within_null (plain_plug bool (ht.inside hm))),
    fun closed => closed_object (forall_nullsBut (h.closed closed) fun t _ => closed_plug), hk,
    fun path site w hr => ?_⟩
  · rw [← length_names, hn, length_names]
    exact ht.here.1.2
  · obtain ⟨as, y, path, site, -, -, hr⟩ := run_nullsBut hw ha h.planned hk
      (ty_nullsBut_ne hw.names_object.nodup ha h.ty_ne) hr
    exact h.fails _ _ _ hr

/-- An element of a tuple whose other elements are null. -/
theorem inTuple {ts : List Ty} (h : Stuck whole t v c)
    (ht : (Ty.tuple ts).Everywhere Scope.plain.types) (hm : t ∈ ts) :
    ∃ v c, Stuck whole (.tuple ts) v c := by
  have hw := wellFormed_of_plain ht
  have bool : Ty.bool.Everywhere Scope.plain.types :=
    (Ty.everywhere_leaf rfl).2 Scope.closed_plain.structural.bool
  obtain ⟨i, hi⟩ := List.mem_iff_getElem?.1 hm
  let source : Ty → Ty := fun t => t.plug .bool
  have hty : (Value.tuple (nullsButAt source i v ts)).ty =
      .tuple (Value.types (nullsButAt source i v ts)) := by
    simp only [Value.tuple, Value.bare, Value.ty]
  obtain ⟨k, hk⟩ := Option.isSome_iff_exists.1 (@plan?_nullsButAt _ _ _ _ _ source _ _ hi h.planned
    fun t hm => plan?_isSome_of_fills (Ty.plug_fills (hw.inside hm)) (hw.inside hm))
  refine ⟨.tuple (nullsButAt source i v ts), k, ⟨rfl, rfl, rfl⟩,
    plain_tuple ?_ (forall_nullsButAt hi h.within fun t hm =>
      Value.within_null (plain_plug bool (ht.inside hm))),
    fun closed => closed_tuple (forall_nullsButAt hi (h.closed closed) fun t _ => closed_plug),
    hty ▸ hk, fun path site w hr => ?_⟩
  · rw [length_nullsButAt]
    exact ht.here.1.2
  · obtain ⟨us, y, path, site, -, -, hr⟩ := run_nullsButAt hi h.planned h.ty_ne hk hr
    exact h.fails _ _ _ hr

/-- A variant of a union. -/
theorem inUnion {targets : List (String × Ty)} {name : String} (h : Stuck whole t v c)
    (ht : (Ty.union targets).Everywhere Scope.plain.types) (ha : (name, t) ∈ targets) :
    ∃ v c, Stuck whole (.union targets) v c := by
  have hw := wellFormed_of_plain ht
  have nodup := hw.names_union.nodup
  have bool : Ty.bool.Everywhere Scope.plain.types :=
    (Ty.everywhere_leaf rfl).2 Scope.closed_plain.structural.bool
  obtain ⟨sources, hsrc⟩ : ∃ sources : List (String × Ty), sources =
      targets.map fun x => (x.1, if x.1 = name then v.ty else x.2.plug .bool) := ⟨_, rfl⟩
  have hn : names sources = names targets := by
    rw [hsrc, names, List.map_map]
    rfl
  have at_ : (name, v.ty) ∈ sources := hsrc ▸ List.mem_map.2 ⟨(name, t), ha, by simp⟩
  have each {other : String} {s : Ty} (hs : (other, s) ∈ sources) :
      ∃ u, (other, u) ∈ targets ∧ (other = name ∧ s = v.ty ∨ s = u.plug .bool) := by
    rw [hsrc] at hs
    obtain ⟨⟨key, u⟩, hu, eq⟩ := List.mem_map.1 hs
    cases eq
    refine ⟨u, hu, ?_⟩
    by_cases eq : key = name
    · exact .inl ⟨eq, if_pos eq⟩
    · exact .inr (if_neg eq)
  have hty : (Value.bare (.union sources name v)).ty = .union sources := by
    simp only [Value.bare, Value.ty]
  have hne : Ty.union sources ≠ .union targets := by
    intro eq
    rw [Ty.union.inj eq] at at_
    exact h.ty_ne (eq_of_mem nodup at_ ha)
  obtain ⟨k, hk⟩ := Option.isSome_iff_exists.1 (@plan?_union_isSome _ .safe
      sources targets fun other s hs => by
    obtain ⟨u, hu, ⟨rfl, rfl⟩ | rfl⟩ := each hs
    · refine ⟨t, lookup_of_mem nodup ha, ?_⟩
      rw [h.planned]
      rfl
    · have hw := hw.ofVariant hu
      exact ⟨u, lookup_of_mem nodup hu, plan?_isSome_of_fills (Ty.plug_fills hw) hw⟩)
  obtain ⟨plans, rfl, hp⟩ := plan?_union_eq_some hne hk
  have types := h.within.ty Scope.closed_plain
  refine ⟨.bare (.union sources name v), _, ⟨rfl, rfl, rfl⟩, ?_, fun closed => ?_, hty ▸ hk,
    fun path site w hr => ?_⟩
  · have within : (Ty.union sources).Everywhere Scope.plain.types := by
      have parts : ∀ s ∈ values sources, s.Everywhere Scope.plain.types := by
        intro s hs
        obtain ⟨other, hs⟩ := exists_of_mem_values hs
        obtain ⟨u, hu, ⟨-, rfl⟩ | rfl⟩ := each hs
        · exact types
        · exact plain_plug bool (ht.ofVariant hu)
      exact Ty.everywhere_union.2 ⟨Scope.closed_plain.structural.union ht.here hn fun s hs =>
        optionalFree_of_plain (parts s hs), parts⟩
    refine .union within (lookup_of_mem (hn ▸ nodup) at_) ?_
      (fun _ => .refl (wellFormed_of_plain types)) fun _ => h.within
    unfold Value.Fits
    split
    · exact (Ty.Fills.refl (wellFormed_of_plain types)).conforms
    · rw [(optionalFree_of_plain types).withoutOptional_eq]
      exact beq_self_eq_true _
  · rw [hty, Ty.hasDynamic, Ty.anyHasDynamicEntry_eq_false]
    intro s hs
    obtain ⟨other, hs⟩ := exists_of_mem_values hs
    obtain ⟨u, -, ⟨-, rfl⟩ | rfl⟩ := each hs
    · exact h.closed closed
    · exact Ty.hasDynamic_plug rfl u
  · obtain ⟨c', hl, u, hu, hp⟩ := hp.lookup (lookup_of_mem (hn ▸ nodup) at_)
    rw [lookup_of_mem nodup ha] at hu
    cases hu
    rw [h.planned] at hp
    cases hp
    obtain ⟨path, site, y, hr⟩ := run_union_ok (t := .union targets) (by simp) hl hr
    exact h.fails _ _ _ hr

end Stuck

/-- Where an element type is open inside of a target, some value is not converted to the target. -/
theorem exists_stuck (ht : t.Everywhere Scope.plain.types) (hs : ¬ t.Settled whole) :
    ∃ v c, Stuck whole t v c := by
  induction t using Ty.induction with
  | _ t ih =>
    by_cases inside : ∃ u ∈ t.components, ¬ u.Settled whole
    · obtain ⟨u, hu, hs⟩ := inside
      obtain ⟨v, c, stuck⟩ := ih u hu (ht.inside hu) hs
      cases t with
      | list e => exact List.mem_singleton.1 hu ▸ stuck.collected .list
      | set e => exact List.mem_singleton.1 hu ▸ stuck.collected .set
      | map e => exact List.mem_singleton.1 hu ▸ stuck.collected .map
      | object =>
        obtain ⟨name, hu⟩ := exists_of_mem_values hu
        exact stuck.inObject ht hu
      | tuple => exact stuck.inTuple ht hu
      | union =>
        obtain ⟨name, hu⟩ := exists_of_mem_values hu
        exact stuck.inUnion ht hu
      | number | string | bool | dynamic | capsule => cases hu
    · -- the elements of the target itself are of an open type
      have here : ∃ e, t.element? = some e ∧ e.hasDynamic = true ∧ ¬ (whole ∧ e = .dynamic) := by
        by_contra none
        refine hs (.intro (fun e he => ?_) fun u hu => by_contra fun h => inside ⟨u, hu, h⟩)
        by_cases hd : e.hasDynamic = false
        · exact .inl hd
        · exact .inr (by_contra fun h => none ⟨e, he, by simpa using hd, h⟩)
      obtain ⟨e, he, hd, open_⟩ := here
      obtain ⟨kind, rfl⟩ : ∃ kind : CollectionKind, t = kind.type e := by
        cases t with
        | list | set | map =>
          cases he
          first | exact ⟨.list, rfl⟩ | exact ⟨.set, rfl⟩ | exact ⟨.map, rfl⟩
        | _ => cases he
      by_cases dynamic : e = .dynamic
      · subst dynamic
        exact exists_stuck_dynamic (fun h => open_ ⟨h, rfl⟩) kind
      · refine exists_stuck_rivals (ht.inside ?_) hd dynamic kind
        cases kind <;> exact List.mem_cons_self

end Conversion

end ValueAlgebra
