import ValueAlgebra.Proofs.PredictedTypes

/-!
# Mispredicted types

Some values get another type than a null of their type. An empty collection takes the element type
of the target, open as it is, and a value of a union takes the union type of the target. A structure
that has such a value in it gets another type than a null of its type, too.

Main statements:

* `Conversion.mispredicted_empty`, `Conversion.mispredicted_union`: what takes a type of the target
  that is open.
* `Conversion.Mispredicted.inObject`, `Conversion.Mispredicted.inTuple`: what stands around.
-/

namespace ValueAlgebra

open Entries Text

/-- The scope of all values without capsules in whose types every attribute is required. -/
def Scope.required : Scope :=
  Scope.capsuleFree.restrict fun t => t.optionalNames = []

theorem Scope.closed_required : Scope.required.Closed :=
  Scope.closed_capsuleFree.restrict Ty.structural_optionalNames rfl

namespace Ty

variable {t u : Ty}

theorem everywhere_required (hw : t.WellFormed) (hc : t.CapsuleFree) (ho : t.OptionalFree) :
    t.Everywhere Scope.required.types :=
  .and (.and hw hc) ho

section

variable (ht : t.Everywhere Scope.required.types)

include ht

theorem wellFormed_of_required : t.WellFormed :=
  ht.mono fun _ h => h.1.1

theorem capsuleFree_of_required : t.CapsuleFree :=
  ht.mono fun _ h => h.1.2

theorem optionalFree_of_required : t.OptionalFree :=
  ht.mono fun _ h => h.2

theorem required_plug : (t.plug .bool).Everywhere Scope.required.types :=
  .plug Scope.closed_required.structural
    ((everywhere_leaf rfl).2 Scope.closed_required.structural.bool) (fun _ _ h => h.2)
    (ht.mono fun _ h => .inr h)

theorem converted_plug [Host] : (t.plug .bool).converted t = t.plug .bool := by
  rw [converted, (plug_fills (wellFormed_of_required ht)).filledFrom_eq (wellFormed_of_required ht)
    (optionalFree_of_required ht), (optionalFree_of_required (required_plug ht)).withoutOptional_eq]

end

theorem plug_ne (hd : t.hasDynamic = true) (hu : u.hasDynamic = false) : t.plug u ≠ t := by
  intro eq
  have closed := hasDynamic_plug hu t
  rw [eq, hd] at closed
  cases closed

end Ty

theorem Value.capsuleFree_of_required {v : Value} (h : v.Within .required) :
    v.Within .capsuleFree :=
  h.mono (fun _ h => h.1) (fun _ h => h) (fun _ h => h) fun h => h

namespace Conversion

variable [Host] {mode : Mode} {closed : Prop} {s t : Ty} {c : Conversion} {v w : Value}
  {path : Path} {site : List Nat}

/-- A value whose result is not of the predicted type. If `closed`, its type leaves nothing open. -/
structure Mispredicted (mode : Mode) (closed : Prop) (t : Ty) (v : Value) (c : Conversion) :
    Prop where
  within : v.Within .required
  closed : closed → v.ty.hasDynamic = false
  planned : plan? mode v.ty t = some c
  differs : ∀ path site, ∃ w, c.run v path site = .ok w ∧ w.ty ≠ v.ty.converted t

theorem Mispredicted.ty_ne (h : Mispredicted mode closed t v c)
    (ht : t.Everywhere Scope.required.types) : v.ty ≠ t := by
  intro same
  obtain ⟨w, hr, differs⟩ := h.differs .root []
  exact differs (ty_eq_of_same (Ty.wellFormed_of_required ht) (Ty.capsuleFree_of_required ht)
    (Ty.optionalFree_of_required ht) (Value.capsuleFree_of_required h.within) same h.planned hr)

/-! ## Types of the target that are open -/

/-- A value of a plugged type that becomes one of the target. -/
theorem mispredicted_plug (ht : t.Everywhere Scope.required.types) (hd : t.hasDynamic = true)
    (hv : v.Within .required) (hs : v.ty = t.plug .bool)
    (hr : ∀ c path site, plan? mode (t.plug .bool) t = some c →
      ∃ w, c.run v path site = .ok w ∧ w.ty = t) : ∃ v c, Mispredicted mode closed t v c := by
  have hw := Ty.wellFormed_of_required ht
  obtain ⟨c, planned⟩ := Option.isSome_iff_exists.1
    (@plan?_isSome_of_fills _ mode _ _ (Ty.plug_fills (u := .bool) hw) hw)
  refine ⟨v, c, hv, fun _ => hs ▸ Ty.hasDynamic_plug rfl t, hs ▸ planned, fun path site => ?_⟩
  obtain ⟨w, ran, typed⟩ := hr c path site planned
  refine ⟨w, ran, ?_⟩
  rw [typed, hs, Ty.converted_plug ht]
  exact (Ty.plug_ne hd rfl).symm

theorem plan?_collection {kind : CollectionKind} (hne : s ≠ t) (hp : plan? mode s t = some c) :
    plan? mode (kind.type s) (kind.type t) =
      some (.toward (kind.type t) (.collection kind mode c t)) := by
  cases kind <;>
    simp only [CollectionKind.type] <;>
    rw [plan?, Rule.between?.eq_def, if_neg (by simp), if_neg (by simp), if_neg (by simpa)] <;>
    simp [hp]

theorem run_emptyCollection {kind : CollectionKind} :
    (toward (kind.type t) (.collection kind mode c t)).run (emptyCollection kind .dynamic s) path
      site = .ok (emptyCollection kind t s) := by
  have target : kind.type t ≠ .dynamic := by cases kind <;> simp [CollectionKind.type]
  have known : (emptyCollection kind .dynamic s).isKnown = true := by cases kind <;> rfl
  have notNull : (emptyCollection kind .dynamic s).isNull = false := by cases kind <;> rfl
  rw [run_eq, runWith_decided target known notNull]
  cases kind <;> rfl

/-- An empty collection takes the element type of the target. -/
theorem mispredicted_empty (kind : CollectionKind) (ht : t.Everywhere Scope.required.types)
    (hd : t.hasDynamic = true) (hne : t ≠ .dynamic) :
    ∃ v c, Mispredicted mode closed (kind.type t) v c := by
  have hw := Ty.wellFormed_of_required ht
  have plug : (kind.type t).plug .bool = kind.type (t.plug .bool) := by
    cases kind <;> simp only [CollectionKind.type, Ty.plug]
  refine @mispredicted_plug _ _ _ (kind.type t) (emptyCollection kind .dynamic (t.plug .bool))
    (Ty.everywhere_collection.2 ⟨Scope.closed_required.structural.collection kind t, ht⟩)
    (by cases kind <;> exact hd) ?_ ?_ fun c path site hp => ?_
  · have element := Ty.required_plug ht
    cases kind with
    | list => exact .list element (by simp) (by simp)
    | set => exact .set element (by simp) (by simp)
    | map => exact .map element Names.proper_nil (by simp) (by simp)
  · rw [ty_emptyCollection, if_pos rfl, plug]
  · obtain ⟨c', hp'⟩ := Option.isSome_iff_exists.1
      (@plan?_isSome_of_fills _ mode _ _ (Ty.plug_fills (u := .bool) hw) hw)
    rw [plug, plan?_collection (Ty.plug_ne hd rfl) hp'] at hp
    cases hp
    refine ⟨_, run_emptyCollection, ?_⟩
    rw [ty_emptyCollection, if_neg hne, (Ty.optionalFree_of_required ht).withoutOptional_eq]

/-- What a null becomes on the way to what a variant holds. -/
theorem exists_fits {rule : Rule Conversion} (hs : s.Everywhere Scope.required.types)
    (ht : t.Everywhere Scope.required.types) (hp : plan? mode s t = some (.toward t rule)) :
    ∃ y, (toward t rule).run (.null s) path site = .ok y ∧ y.Fits t := by
  obtain ⟨y, hr⟩ := @run_null _ t path site rule s
  have hv := Value.capsuleFree_of_required (Value.within_null hs)
  have hw := Ty.wellFormed_of_required ht
  have hc := Ty.capsuleFree_of_required ht
  rw [← ty_null s] at hp
  have lands := run_lands Scope.closed_capsuleFree (fun _ => Scope.noCapsule_capsuleFree)
    (.planned hp) (hv.ty Scope.closed_capsuleFree) (hw.aims hc) hv
    (.refl (hv.wellFormed_ty Scope.closed_capsuleFree)) hr
  exact ⟨y, hr, lands.fits Scope.closed_capsuleFree (.inr (Ty.optionalFree_of_required ht))⟩

/-- A value of a union takes the type of the target. -/
theorem mispredicted_union {vs : List (String × Ty)}
    (ht : (Ty.union vs).Everywhere Scope.required.types) (hd : (Ty.union vs).hasDynamic = true) :
    ∃ v c, Mispredicted mode closed (.union vs) v c := by
  have hw := Ty.wellFormed_of_required ht
  obtain _ | ⟨⟨name, u⟩, vs⟩ := vs
  · exact absurd rfl hw.here.2
  have hu : (name, u) ∈ (name, u) :: vs := List.mem_cons_self
  have part := ht.ofVariant hu
  have plugged := Ty.required_plug part
  -- the variants of the source
  obtain ⟨ss, hss⟩ : ∃ ss, Ty.plugEntries ((name, u) :: vs) .bool = ss := ⟨_, rfl⟩
  have hty : (Ty.union ((name, u) :: vs)).plug .bool = .union ss := by rw [Ty.plug, hss]
  have found : ss.lookup name = some (u.plug .bool) := by
    rw [← hss, Ty.plugEntries, List.lookup_cons_self]
  refine @mispredicted_plug _ _ _ _ (.bare (.union ss name (.null (u.plug .bool)))) ht hd
    (.union (hty ▸ Ty.required_plug ht) found ?_ (fun deep => absurd deep id) fun deep =>
      absurd deep id)
    (by simp only [Value.bare, Value.ty, hty]) fun c path site hp => ?_
  · unfold Value.Fits
    rw [ty_null]
    split
    · exact (Ty.Fills.refl (Ty.wellFormed_of_required plugged)).conforms
    · rw [(Ty.optionalFree_of_required plugged).withoutOptional_eq]
      exact beq_self_eq_true _
  · rw [hty] at hp
    obtain ⟨plans, rfl, plan⟩ := plan?_union_eq_some (hty ▸ Ty.plug_ne hd rfl) hp
    obtain ⟨c, hl, u', hu', hp⟩ := plan.lookup found
    rw [List.lookup_cons_self] at hu'
    cases hu'
    obtain ⟨rule, rfl, -⟩ := planned_of_plan? hp
    obtain ⟨y, hr, fits⟩ := @exists_fits _ _ _ _ (path.attr name) (0 :: site) rule plugged part hp
    have made : convertVariant
        (runPart (Value.bare (.union ss name (.null (u.plug .bool)))).height) plans
        (.union ((name, u) :: vs)) name (.null (u.plug .bool)) (.variantRefused name) path site =
        .ok (.bare (.union ((name, u) :: vs) name y)) := by
      have union := Value.union_of_fits (hw.names_union.2 name (mem_names hu))
        (lookup_of_mem hw.names_union.nodup hu) fits
      have lower : (Value.null (u.plug .bool)).height <
          (Value.bare (.union ss name (.null (u.plug .bool)))).height := Value.height_lt_union
      simp only [convertVariant, hl, runPart_of_lt lower, hr]
      exact congrArg orFailure union
    rw [run_eq, runWith_decided (by simp) rfl rfl]
    refine ⟨_, congrArg (Except.map _) made, ?_⟩
    rw [Value.ty_withMarks]
    simp only [Value.bare, Value.ty]

/-! ## What stands around a misprediction -/

namespace Mispredicted

omit [Host] in
theorem closed_plug {t : Ty} : (Value.null (t.plug .bool)).ty.hasDynamic = false := by
  rw [ty_null]
  exact Ty.hasDynamic_plug rfl t

/-- An attribute of an object whose other attributes are null. -/
theorem inObject {targets : List (String × Ty)} {name : String} (h : Mispredicted mode closed t v c)
    (ht : (Ty.object targets []).Everywhere Scope.required.types) (ha : (name, t) ∈ targets) :
    ∃ v c, Mispredicted mode closed (.object targets []) v c := by
  have hw := Ty.wellFormed_of_required ht
  have nodup := hw.names_object.nodup
  let source : Ty → Ty := fun t => t.plug .bool
  have hn : names (Value.entryTypes (nullsBut source name v targets)) = names targets := by
    rw [Value.names_entryTypes, names_nullsBut]
  have hv := Value.mem_entryTypes.2 ⟨v, @mem_nullsBut_self v source _ _ _ ha, rfl⟩
  have hne : (Value.bare (.object (nullsBut source name v targets))).ty ≠ .object targets [] :=
    ty_nullsBut_ne nodup ha (h.ty_ne (ht.ofAttribute ha))
  obtain ⟨k, hk⟩ := Option.isSome_iff_exists.1 (@plan?_nullsBut _ _ _ _ source _ _ _ _ hw ha
    h.planned fun t hm => plan?_isSome_of_fills (Ty.plug_fills (hw.inside hm)) (hw.inside hm))
  refine ⟨.bare (.object (nullsBut source name v targets)), k,
    .object ⟨⟨⟨by rw [Ty.partNames, hn]; exact hw.names_object, by simp⟩, rfl⟩, rfl⟩
      (forall_nullsBut h.within fun t hm => Value.within_null (Ty.required_plug (ht.inside hm))),
    fun closed => closed_object (forall_nullsBut (h.closed closed) fun t _ => closed_plug), hk,
    fun path site => ?_⟩
  cases hr : k.run (.bare (.object (nullsBut source name v targets))) path site with
  | error e =>
    obtain ⟨path, site, hr⟩ := run_nullsBut_error hw ha h.planned hk hne hr
    obtain ⟨w, ran, -⟩ := h.differs path site
    rw [hr] at ran
    cases ran
  | ok w =>
    refine ⟨w, rfl, fun eq => ?_⟩
    obtain ⟨as, y, path, site, hty, hy, hr⟩ := run_nullsBut hw ha h.planned hk hne hr
    obtain ⟨y', ran, differs⟩ := h.differs path site
    rw [hr] at ran
    cases ran
    simp only [Value.bare, Value.ty] at eq
    rw [hty, Ty.converted_object] at eq
    rw [(Ty.object.inj eq).1] at hy
    obtain ⟨⟨other, u⟩, hu, made⟩ := List.mem_map.1 hy
    simp only [Prod.mk.injEq] at made
    obtain ⟨rfl, made⟩ := made
    obtain rfl := eq_of_mem nodup hu ha
    rw [Ty.attributeSource, lookup_of_mem (hn ▸ nodup) hv] at made
    exact differs made.symm

/-- An element of a tuple whose other elements are null. -/
theorem inTuple {ts : List Ty} (h : Mispredicted mode closed t v c)
    (ht : (Ty.tuple ts).Everywhere Scope.required.types) (hm : t ∈ ts) :
    ∃ v c, Mispredicted mode closed (.tuple ts) v c := by
  have hw := Ty.wellFormed_of_required ht
  have hne := h.ty_ne (ht.inside hm)
  obtain ⟨i, hi⟩ := List.mem_iff_getElem?.1 hm
  let source : Ty → Ty := fun t => t.plug .bool
  have hty : (Value.tuple (nullsButAt source i v ts)).ty =
      .tuple (Value.types (nullsButAt source i v ts)) := by
    simp only [Value.tuple, Value.bare, Value.ty]
  obtain ⟨k, hk⟩ := Option.isSome_iff_exists.1 (@plan?_nullsButAt _ _ _ _ _ source _ _ hi h.planned
    fun t hm => plan?_isSome_of_fills (Ty.plug_fills (hw.inside hm)) (hw.inside hm))
  refine ⟨.tuple (nullsButAt source i v ts), k,
    .tuple ⟨⟨⟨Names.proper_nil, by simp⟩, rfl⟩, rfl⟩ (forall_nullsButAt hi h.within fun t hm =>
      Value.within_null (Ty.required_plug (ht.inside hm))),
    fun closed => closed_tuple (forall_nullsButAt hi (h.closed closed) fun t _ => closed_plug),
    hty ▸ hk, fun path site => ?_⟩
  cases hr : k.run (.tuple (nullsButAt source i v ts)) path site with
  | error e =>
    obtain ⟨path, site, hr⟩ := run_nullsButAt_error hi h.planned hne hk hr
    obtain ⟨w, ran, -⟩ := h.differs path site
    rw [hr] at ran
    cases ran
  | ok w =>
    refine ⟨w, rfl, fun eq => ?_⟩
    obtain ⟨us, y, path, site, typed, hy, hr⟩ := run_nullsButAt hi h.planned hne hk hr
    obtain ⟨y', ran, differs⟩ := h.differs path site
    rw [hr] at ran
    cases ran
    obtain ⟨us', converted, -, predicted⟩ := @Ty.converted_tuple _
      (Value.types (nullsButAt source i v ts)) ts (by rw [Value.length_types, length_nullsButAt])
    rw [typed, hty, converted] at eq
    rw [Ty.tuple.inj eq, predicted i _ _ (getElem?_types_nullsButAt hi) hi] at hy
    exact differs (Option.some.inj hy).symm

end Mispredicted

end Conversion

end ValueAlgebra
