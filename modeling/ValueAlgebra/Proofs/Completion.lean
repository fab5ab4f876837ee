import Mathlib
import ValueAlgebra.Proofs.SoundValues
import ValueAlgebra.Proofs.TypeInstances

/-!
# Completions of values

A completion of a value has a wholly known value in the place of each unknown, and is made again by
the constructors from there on. What stands for an unknown meets what is known about it, and its
type fits the type of the unknown. What fitting means is left open by `Value.Completes`. Where types
have to be told apart it means `Ty.Instantiates`.

Main statements:

* `Value.Completes.follows`: the type of a completion is an instance of the type.
* `Value.Completes.ty_eq`: a type without open parts stays.
* `Value.Completes.sound`, `Value.Completes.isWhollyKnown`: what completions are like.
-/

namespace ValueAlgebra

open Entries Text

/-! ## Values as constructors make them -/

/-- A heap without payloads. Values that are sound there have no capsules. -/
def Heap.empty : Heap where
  live _ := False
  faithful h := h.elim

/-- What a refinement says about a known content. -/
def Refinement.Meets (r : Refinement) : Content → Prop
  | .null _ => r.nullness ≠ .notNull
  | .number n => r.nullness ≠ .null ∧ r.lower.admitsAbove n = true ∧ r.upper.admitsBelow n = true
  | .string s => r.nullness ≠ .null ∧ r.stem.toList <+: s.toList
  | .list _ items | .set _ items => r.nullness ≠ .null ∧ MeetsLength items.length
  | .map _ entries => r.nullness ≠ .null ∧ MeetsLength entries.length
  | _ => r.nullness ≠ .null
where
  /-- What a refinement says about a length. -/
  MeetsLength (n : Nat) : Prop :=
    r.minLength ≤ n ∧ ∀ max, r.maxLength = some max → n ≤ max

namespace Value

/-- The elements of a collection have its element type, names are in canonical form, and what a
variant holds fits the variant. The parts of the value do not count. -/
def Regular (v : Value) : Prop :=
  v.ty.WellFormed ∧ match v.content with
    | .list e items | .set e items => ∀ w ∈ items, w.ty = e
    | .map e entries => Names.Proper (names entries) ∧ ∀ w ∈ values entries, w.ty = e
    | .union variants name inner => ∃ wanted, variants.lookup name = some wanted ∧ inner.Fits wanted
    | _ => True

/-- Values within a scope are regular. -/
theorem regular_of_within {S : Scope} {v : Value} (hS : S.Closed) (hd : S.deep) (h : v.Within S) :
    v.Everywhere Regular := by
  have typed {w : Value} (hw : w.Within S) : w.ty.WellFormed := hw.wellFormed_ty hS
  induction h with
  | null ht => exact .intro ⟨typed (.null ht), trivial⟩ (List.forall_mem_nil _)
  | unknown ht hr hl => exact .intro ⟨typed (.unknown ht hr hl), trivial⟩ (List.forall_mem_nil _)
  | number h => exact .intro ⟨typed (.number h), trivial⟩ (List.forall_mem_nil _)
  | string h => exact .intro ⟨typed (.string h), trivial⟩ (List.forall_mem_nil _)
  | bool => exact .intro ⟨typed .bool, trivial⟩ (List.forall_mem_nil _)
  | capsule h => exact .intro ⟨typed (.capsule h), trivial⟩ (List.forall_mem_nil _)
  | list he ht hv ih => exact .intro ⟨typed (.list he ht hv), ht⟩ ih
  | set he ht hv ih => exact .intro ⟨typed (.set he ht hv), ht⟩ ih
  | map he hn ht hv ih => exact .intro ⟨typed (.map he hn ht hv), hn, ht⟩ ih
  | object ht hv ih => exact .intro ⟨typed (.object ht hv), trivial⟩ ih
  | tuple ht hv ih => exact .intro ⟨typed (.tuple ht hv), trivial⟩ ih
  | union ht hw hf ha hi ih =>
    refine .intro ⟨typed (.union ht hw hf ha hi), _, hw, hf⟩ fun w hm => ?_
    cases List.mem_singleton.1 hm
    exact ih hd

/-! ## Types of values that are related part by part -/

section

variable {e t : Ty} {xs ys : List Value}

/-- The first type is an instance of the second one, and the same unless a value has open parts. -/
def Follows (x y : Value) : Prop :=
  y.ty.Instantiates x.ty ∧ (x.hasWhollyKnownType = true → y.ty = x.ty)

/-- The common type of elements follows from the types of elements. -/
theorem follows_commonType? (typed : ∀ x ∈ xs, x.ty = e) (hl : xs.length = ys.length)
    (parts : ∀ (i : Nat) x y, xs[i]? = some x → ys[i]? = some y → Follows x y)
    (hne : ys ≠ []) (hc : commonType? ys = some t) :
    t.Instantiates e ∧ ((∀ x ∈ xs, x.hasWhollyKnownType = true) → t = e) := by
  obtain ⟨y, hy, rfl⟩ := exists_of_commonType? hc hne
  obtain ⟨i, hi⟩ := List.mem_iff_getElem?.1 hy
  obtain ⟨x, hx⟩ := exists_getElem? hl hi
  have hm := List.mem_of_getElem? hx
  rw [← typed x hm]
  exact ⟨(parts i x y hx hi).1, fun closed => (parts i x y hx hi).2 (closed x hm)⟩

/-- The types of values follow one by one. -/
theorem follows_types (hl : xs.length = ys.length)
    (parts : ∀ (i : Nat) x y, xs[i]? = some x → ys[i]? = some y → Follows x y) :
    (∀ (i : Nat) a b, (types ys)[i]? = some a → (types xs)[i]? = some b → a.Instantiates b) ∧
    ((∀ x ∈ xs, x.hasWhollyKnownType = true) → types ys = types xs) := by
  constructor
  · intro i a b ha hb
    rw [types_eq_map, List.getElem?_map, Option.map_eq_some_iff] at ha hb
    obtain ⟨y, hy, rfl⟩ := ha
    obtain ⟨x, hx, rfl⟩ := hb
    exact (parts i x y hx hy).1
  · intro closed
    refine eq_of_getElem? (by rw [length_types, length_types, hl]) fun i a b ha hb => ?_
    rw [types_eq_map, List.getElem?_map, Option.map_eq_some_iff] at ha hb
    obtain ⟨y, hy, rfl⟩ := ha
    obtain ⟨x, hx, rfl⟩ := hb
    exact (parts i x y hx hy).2 (closed x (List.mem_of_getElem? hx))

theorem values_entryTypes (entries : List (String × Value)) :
    values (entryTypes entries) = types (values entries) := by
  rw [entryTypes_eq_mapValues, values_mapValues, types_eq_map]

theorem entryTypes_ext {xs ys : List (String × Value)} (hn : names xs = names ys)
    (ht : types (values ys) = types (values xs)) : entryTypes ys = entryTypes xs := by
  rw [← zip_names_values (entryTypes ys), ← zip_names_values (entryTypes xs), names_entryTypes,
    names_entryTypes, values_entryTypes, values_entryTypes, hn, ht]

end

/-- The names of a regular object are in canonical form. -/
theorem Regular.names_object {m : MarkSet} {entries : List (String × Value)}
    (h : (⟨m, .object entries⟩ : Value).Regular) : Names.Proper (names entries) := by
  have typed := h.1
  rw [ty] at typed
  rw [← names_entryTypes]
  exact typed.names_object

/-- The variant of a regular union is in canonical form. -/
theorem Regular.canonical_variant {m : MarkSet} {variants : List (String × Ty)} {name : String}
    {inner : Value} (h : (⟨m, .union variants name inner⟩ : Value).Regular) :
    normalize name = name := by
  obtain ⟨typed, wanted, hw, -⟩ := h
  rw [ty] at typed
  exact typed.names_union.2 name (mem_names (mem_of_lookup hw))

/-- A regular value whose type has no dynamic part leaves no part of its type open. -/
theorem hasWhollyKnownType_of_ty {v : Value} (h : v.Everywhere Regular)
    (closed : v.ty.hasDynamic = false) : v.hasWhollyKnownType = true := by
  induction h with
  | @intro v here inside ih =>
    obtain ⟨m, c⟩ := v
    have parts (hp : ∀ w ∈ c.parts, w.ty.hasDynamic = false) :
        ∀ w ∈ c.parts, w.hasWhollyKnownType = true := fun w hw => ih w hw (hp w hw)
    cases c with
    | null | unknown => simpa [hasWhollyKnownType, ty] using closed
    | number | string | bool | capsule => rfl
    | list e items | set e items =>
      rw [ty, Ty.hasDynamic] at closed
      refine hasWhollyKnownType_of_parts rfl rfl (parts fun w hw => ?_)
      rw [here.2 w hw, closed]
    | map e entries =>
      rw [ty, Ty.hasDynamic] at closed
      refine hasWhollyKnownType_of_parts rfl rfl (parts fun w hw => ?_)
      rw [here.2.2 w hw, closed]
    | object entries =>
      rw [ty, Ty.hasDynamic, Ty.anyHasDynamicEntry_eq_false, values_entryTypes] at closed
      exact hasWhollyKnownType_of_parts rfl rfl
        (parts fun w hw => closed _ (mem_types.2 ⟨w, hw, rfl⟩))
    | tuple items =>
      rw [ty, Ty.hasDynamic, Ty.anyHasDynamic_eq_false] at closed
      exact hasWhollyKnownType_of_parts rfl rfl
        (parts fun w hw => closed _ (mem_types.2 ⟨w, hw, rfl⟩))
    | union variants name inner =>
      obtain ⟨-, wanted, hw, fits⟩ := here
      rw [ty, Ty.hasDynamic, Ty.anyHasDynamicEntry_eq_false] at closed
      have known := closed wanted (mem_values (mem_of_lookup hw))
      refine hasWhollyKnownType_of_parts rfl rfl (parts fun w hm => ?_)
      cases List.mem_singleton.1 hm
      rw [Fits, known, if_neg Bool.false_ne_true, beq_iff_eq] at fits
      rw [fits, Ty.hasDynamic_withoutOptional, known]

/-! ## Elements of collections -/

theorem conformTo_of_ty {v : Value} {e : Ty} (h : v.ty = e) : conformTo e v = v := by
  rw [conformTo, if_pos]
  by_cases hd : e = .dynamic
  · exact .inr hd
  · exact .inl (h ▸ hd)

theorem map_conformTo_of_ty {vs : List Value} {e : Ty} (h : ∀ v ∈ vs, v.ty = e) :
    vs.map (conformTo e) = vs := by
  rw [List.map_congr_left fun v hv => conformTo_of_ty (h v hv), List.map_id']

theorem isNull_of_ty_dynamic {v : Value} (known : v.isKnown = true) (h : v.ty = .dynamic) :
    v.isNull = true := by
  obtain ⟨m, c⟩ := v
  cases c with
  | unknown => cases known
  | null => rfl
  | _ => simp [ty] at h

theorem isWhollyKnown_conformTo {v : Value} (e : Ty) (h : v.isWhollyKnown = true) :
    (conformTo e v).isWhollyKnown = true := by
  unfold conformTo
  split
  · exact h
  · rename_i open_
    rw [not_or, not_not] at open_
    rw [if_pos (isNull_of_ty_dynamic (isWhollyKnown_iff.1 h).1 open_.1)]
    rfl

theorem isWhollyKnown_of_content {v w : Value} (h : v.content = w.content) :
    v.isWhollyKnown = w.isWhollyKnown := by
  rw [Bool.eq_iff_iff, isWhollyKnown_iff, isWhollyKnown_iff, h, isKnown_of_content h]

theorem hasWhollyKnownType_of_content {v w : Value} (h : v.content = w.content) :
    v.hasWhollyKnownType = w.hasWhollyKnownType := by
  obtain ⟨m, c⟩ := v
  obtain ⟨n, d⟩ := w
  cases h
  cases c <;> simp only [hasWhollyKnownType]

variable [Host]

/-- Without capsules, what equality asks for does not depend on the payloads that are around. -/
theorem Sound.without_capsules {v : Value} (h : v.Sound .empty) (heap : Heap) : v.Sound heap := by
  refine h.mono fun w lawful => ?_
  generalize w.content = c at lawful ⊢
  cases c with
  | capsule => exact lawful.2.1.elim
  | _ => exact lawful

/-- The second value is the first one with values for its unknowns. Where a type is open they may
have capsules. -/
inductive Completes (heap : Heap) (fits : Ty → Ty → Prop) : Value → Value → Prop where
  | unknown {v w : Value} {t : Ty} {r : Refinement} (hv : v.content = .unknown t r)
      (known : w.isWhollyKnown = true) (sound : w.Sound heap) (type : fits w.ty t)
      (meets : r.Meets w.content) : Completes heap fits v w
  | plain {v w : Value} (known : v.isKnown = true) (parts : v.content.parts = [])
      (hw : w.content = v.content) : Completes heap fits v w
  | list {v w made : Value} {e : Ty} {xs ys : List Value} (hv : v.content = .list e xs)
      (hl : xs.length = ys.length)
      (parts : ∀ (i : Nat) x y, xs[i]? = some x → ys[i]? = some y → Completes heap fits x y)
      (h : Value.list ys = .ok made) (hw : w.content = made.content) : Completes heap fits v w
  | set {v w made : Value} {e : Ty} {xs ys : List Value} (hv : v.content = .set e xs)
      (hl : xs.length = ys.length)
      (parts : ∀ (i : Nat) x y, xs[i]? = some x → ys[i]? = some y → Completes heap fits x y)
      (h : Value.set ys = .ok made) (hw : w.content = made.content) : Completes heap fits v w
  | map {v w made : Value} {e : Ty} {xs ys : List (String × Value)} (hv : v.content = .map e xs)
      (hn : names xs = names ys)
      (parts : ∀ (i : Nat) x y, (values xs)[i]? = some x → (values ys)[i]? = some y →
        Completes heap fits x y)
      (h : Value.map ys = .ok made) (hw : w.content = made.content) : Completes heap fits v w
  | object {v w : Value} {xs ys : List (String × Value)} (hv : v.content = .object xs)
      (hn : names xs = names ys)
      (parts : ∀ (i : Nat) x y, (values xs)[i]? = some x → (values ys)[i]? = some y →
        Completes heap fits x y)
      (hw : w.content = (Value.object ys).content) : Completes heap fits v w
  | tuple {v w : Value} {xs ys : List Value} (hv : v.content = .tuple xs)
      (hl : xs.length = ys.length)
      (parts : ∀ (i : Nat) x y, xs[i]? = some x → ys[i]? = some y → Completes heap fits x y)
      (hw : w.content = (Value.tuple ys).content) : Completes heap fits v w
  | union {v w made x y : Value} {variants : List (String × Ty)} {name : String}
      (hv : v.content = .union variants name x) (part : Completes heap fits x y)
      (h : Value.union (.union variants) name y = .ok made) (hw : w.content = made.content) :
      Completes heap fits v w

/-- Contents with completed parts. The elements of a set may turn out equal. -/
inductive Completed (heap : Heap) : Content → Content → Prop where
  | matched {c d : Content} (h : c.Matched (Completes heap Ty.Instantiates) d) : Completed heap c d
  | set {e : Ty} {xs ys : List Value} (h : List.Forall₂ (Completes heap Ty.Instantiates) xs ys) :
    Completed heap (.set e xs) (.set e (RuleSet.ofList (ValueRules.mk e) (ys.map unmarkDeep)).values)

namespace Completes

variable {heap : Heap} {fits : Ty → Ty → Prop} {v w : Value}

/-- The type of a completion is an instance of the type, and it is the type itself if no part of it
is open. -/
theorem follows (hv : v.Everywhere Regular) (h : Completes heap Ty.Instantiates v w) :
    Follows v w := by
  induction h with
  | @unknown v w t r hc known sound type meets =>
    obtain ⟨m, c⟩ := v
    cases hc
    refine ⟨by rwa [ty], fun closed => ?_⟩
    rw [ty]
    apply type.eq_of_hasDynamic
    simpa [hasWhollyKnownType] using closed
  | plain known parts hw =>
    rw [Follows, ty_of_content hw]
    exact ⟨Ty.instantiates_refl _, fun _ => rfl⟩
  | @list v w made e xs ys hc hl parts h hw ih =>
    obtain ⟨m, c⟩ := v
    cases hc
    obtain ⟨t, hne, ht, rfl⟩ := list_eq_ok h
    obtain ⟨instantiates, same⟩ := follows_commonType? hv.here.2 hl
      (fun i x y hx hy => ih i x y hx hy (hv.inside (List.mem_of_getElem? hx))) hne ht
    rw [Follows, ty_of_content hw, bare, ty, ty]
    refine ⟨.list instantiates, fun closed => ?_⟩
    rw [same fun x hx => hasWhollyKnownType_of_mem_parts closed hx]
  | @set v w made e xs ys hc hl parts h hw ih =>
    obtain ⟨m, c⟩ := v
    cases hc
    obtain ⟨t, hne, ht, rfl⟩ := set_eq_ok h
    obtain ⟨instantiates, same⟩ := follows_commonType? hv.here.2 hl
      (fun i x y hx hy => ih i x y hx hy (hv.inside (List.mem_of_getElem? hx))) hne ht
    rw [Follows, ty_of_content hw, ty_setOf, ty]
    refine ⟨.set instantiates, fun closed => ?_⟩
    rw [same fun x hx => hasWhollyKnownType_of_mem_parts closed hx]
  | @map v w made e xs ys hc hn parts h hw ih =>
    obtain ⟨m, c⟩ := v
    cases hc
    obtain ⟨t, hne, ht, rfl⟩ := map_eq_ok (hn ▸ hv.here.2.1) h
    obtain ⟨instantiates, same⟩ := follows_commonType? hv.here.2.2 (length_values_of_names hn)
      (fun i x y hx hy => ih i x y hx hy (hv.inside (List.mem_of_getElem? hx))) hne ht
    rw [Follows, ty_of_content hw, bare, ty, ty]
    refine ⟨.map instantiates, fun closed => ?_⟩
    rw [same fun x hx => hasWhollyKnownType_of_mem_parts closed hx]
  | @object v w xs ys hc hn parts hw ih =>
    obtain ⟨m, c⟩ := v
    cases hc
    rw [Value.object, namedParts_of_proper (hn ▸ hv.here.names_object)] at hw
    obtain ⟨instantiates, same⟩ := follows_types (length_values_of_names hn)
      fun i x y hx hy => ih i x y hx hy (hv.inside (List.mem_of_getElem? hx))
    rw [Follows, ty_of_content hw, bare, ty, ty]
    refine ⟨.object ?_ ?_, fun closed => ?_⟩
    · rw [names_entryTypes, names_entryTypes, hn]
    · rwa [values_entryTypes, values_entryTypes]
    · rw [entryTypes_ext hn (same fun x hx => hasWhollyKnownType_of_mem_parts closed hx)]
  | @tuple v w xs ys hc hl parts hw ih =>
    obtain ⟨m, c⟩ := v
    cases hc
    obtain ⟨instantiates, same⟩ := follows_types hl
      fun i x y hx hy => ih i x y hx hy (hv.inside (List.mem_of_getElem? hx))
    rw [Follows, ty_of_content hw, Value.tuple, bare, ty, ty]
    refine ⟨.tuple (by rw [length_types, length_types, hl]) instantiates, fun closed => ?_⟩
    rw [same fun x hx => hasWhollyKnownType_of_mem_parts closed hx]
  | @union v w made x y variants name hc part h hw ih =>
    obtain ⟨m, c⟩ := v
    cases hc
    obtain ⟨wanted, -, -, rfl⟩ := union_eq_ok hv.here.canonical_variant h
    rw [Follows, ty_of_content hw, bare, ty, ty]
    exact ⟨Ty.instantiates_refl _, fun _ => rfl⟩

/-- A type without open parts stays. -/
theorem ty_eq (hv : v.Everywhere Regular) (closed : v.ty.hasDynamic = false)
    (h : Completes heap Ty.Instantiates v w) : w.ty = v.ty :=
  (h.follows hv).1.eq_of_hasDynamic closed

/-! ## What completions are like -/

theorem sound (hv : v.Sound .empty) (h : Completes heap fits v w) : w.Sound heap := by
  have parts_sound {xs ys : List Value} (hl : xs.length = ys.length)
      (hx : ∀ x ∈ xs, x.Sound .empty)
      (ih : ∀ (i : Nat) x y, xs[i]? = some x → ys[i]? = some y → x.Sound .empty → y.Sound heap) :
      ∀ y ∈ ys, y.Sound heap := by
    intro y hy
    obtain ⟨x, hxs, step⟩ := exists_of_getElem? hl ih hy
    exact step (hx x hxs)
  induction h with
  | unknown hc known sound type meets => exact sound
  | plain known parts hw => exact (hv.without_capsules heap).of_content hw
  | list hc hl parts h hw ih =>
    refine Sound.of_content (sound_list (parts_sound hl (fun x hx => hv.inside ?_) ih) h) hw
    rwa [hc]
  | set hc hl parts h hw ih =>
    refine Sound.of_content (sound_set (parts_sound hl (fun x hx => hv.inside ?_) ih) h) hw
    rwa [hc]
  | map hc hn parts h hw ih =>
    refine Sound.of_content
      (sound_map (parts_sound (length_values_of_names hn) (fun x hx => hv.inside ?_) ih) h) hw
    rwa [hc]
  | object hc hn parts hw ih =>
    refine Sound.of_content
      (sound_object (parts_sound (length_values_of_names hn) (fun x hx => hv.inside ?_) ih)) hw
    rwa [hc]
  | @tuple v w xs ys hc hl parts hw ih =>
    refine Sound.of_content (a := Value.tuple ys)
      (.intro trivial (parts_sound hl (fun x hx => hv.inside ?_) ih)) hw
    rwa [hc]
  | union hc part h hw ih =>
    refine Sound.of_content (sound_union (ih (hv.inside ?_)) h) hw
    rw [hc]
    exact List.mem_cons_self

theorem isWhollyKnown (h : Completes heap fits v w) : w.isWhollyKnown = true := by
  have parts_known {xs ys : List Value} (hl : xs.length = ys.length)
      (ih : ∀ (i : Nat) x y, xs[i]? = some x → ys[i]? = some y → y.isWhollyKnown = true) :
      ∀ y ∈ ys, y.isWhollyKnown = true := by
    intro y hy
    obtain ⟨x, -, known⟩ := exists_of_getElem? hl ih hy
    exact known
  induction h with
  | unknown hc known sound type meets => exact known
  | plain known parts hw =>
    rw [isWhollyKnown_of_content hw, isWhollyKnown_iff, parts]
    exact ⟨known, List.forall_mem_nil _⟩
  | list hc hl parts h hw ih =>
    obtain ⟨t, -, -, rfl⟩ := list_eq_ok h
    rw [isWhollyKnown_of_content hw, isWhollyKnown_iff]
    refine ⟨rfl, List.forall_mem_map.2 fun y hy => ?_⟩
    exact isWhollyKnown_conformTo t (parts_known hl ih y hy)
  | set hc hl parts h hw ih =>
    obtain ⟨t, -, -, rfl⟩ := set_eq_ok h
    rw [isWhollyKnown_of_content (hw.trans (content_setOf t _)) (w := bare (.set t _)),
      isWhollyKnown_iff]
    refine ⟨rfl, fun z hz => ?_⟩
    obtain ⟨y', hy', rfl⟩ := List.mem_map.1 (RuleSet.mem_of_mem_ofList hz)
    obtain ⟨y, hy, rfl⟩ := List.mem_map.1 hy'
    rw [(isWhollyKnown_unmarkDeep _).1]
    exact isWhollyKnown_conformTo t (parts_known hl ih y hy)
  | map hc hn parts h hw ih =>
    obtain ⟨t, hm⟩ := content_map h
    rw [isWhollyKnown_of_content (hw.trans hm) (w := bare (.map t _)), isWhollyKnown_iff]
    refine ⟨rfl, ?_⟩
    rw [bare, content, Content.parts, values_mapValues]
    refine List.forall_mem_map.2 fun y hy => isWhollyKnown_conformTo t ?_
    exact parts_known (length_values_of_names hn) ih y (mem_values_namedParts hy)
  | object hc hn parts hw ih =>
    rw [isWhollyKnown_of_content hw, isWhollyKnown_iff]
    exact ⟨rfl, fun y hy =>
      parts_known (length_values_of_names hn) ih y (mem_values_namedParts hy)⟩
  | tuple hc hl parts hw ih =>
    rw [isWhollyKnown_of_content hw, isWhollyKnown_iff]
    exact ⟨rfl, parts_known hl ih⟩
  | union hc part h hw ih =>
    obtain ⟨variants, variant, hm⟩ := content_union h
    rw [isWhollyKnown_of_content (hw.trans hm) (w := bare (.union variants variant _)),
      isWhollyKnown_iff]
    refine ⟨rfl, fun y hy => ?_⟩
    cases List.mem_singleton.1 hy
    exact ih

/-- A completion of a value that is there is of the same kind and holds completions of the parts, if
the parts keep their types. -/
theorem completed_of_typed (hv : v.Everywhere Regular) (hs : v.Sound .empty) (present : v.Present)
    (typed : ∀ x ∈ v.content.parts, ∀ y, Completes heap Ty.Instantiates x y → y.ty = x.ty)
    (h : Completes heap Ty.Instantiates v w) : Completed heap v.content w.content := by
  have elements {xs ys : List Value} {e : Ty} (hl : xs.length = ys.length)
      (parts : ∀ (i : Nat) x y, xs[i]? = some x → ys[i]? = some y →
        Completes heap Ty.Instantiates x y)
      (inside : ∀ x ∈ xs, x ∈ v.content.parts) (he : ∀ x ∈ xs, x.ty = e) : ∀ y ∈ ys, y.ty = e := by
    intro y hy
    obtain ⟨x, hx, completes⟩ := exists_of_getElem? hl parts hy
    rw [typed x (inside x hx) y completes, he x hx]
  obtain ⟨m, c⟩ := v
  cases h with
  | unknown hc => exact absurd hc present.not_unknown
  | plain known parts hw =>
    simp only [content] at parts hw ⊢
    rw [hw]
    cases c with
    | unknown => exact absurd rfl present.not_unknown
    | null => exact absurd rfl present.not_null
    | number n => exact .matched (.number n)
    | string s => exact .matched (.string s)
    | bool b => exact .matched (.bool b)
    | list e items =>
      cases parts
      exact .matched (.list .nil)
    | tuple items =>
      cases parts
      exact .matched (.tuple .nil)
    | map e entries =>
      cases List.map_eq_nil_iff.1 parts
      exact .matched (.map rfl .nil)
    | object entries =>
      cases List.map_eq_nil_iff.1 parts
      exact .matched (.object rfl .nil)
    | set e items =>
      cases parts
      have none := @Completed.set _ heap e [] [] .nil
      rwa [List.map_nil, (RuleSet.perm_ofList .nil).eq_nil] at none
    | union => cases parts
    | capsule => exact hs.here.2.1.elim
  | @list _ _ made e xs ys hc hl parts h hw =>
    cases hc
    obtain ⟨t, hne, ht, rfl⟩ := list_eq_ok h
    have same := elements hl parts (fun _ hx => hx) hv.here.2
    cases ht.symm.trans (commonType?_of_all hne same)
    rw [map_conformTo_of_ty same] at hw
    rw [hw]
    exact .matched (.list (forall₂_of_getElem? hl parts))
  | @set _ _ made e xs ys hc hl parts h hw =>
    cases hc
    obtain ⟨t, hne, ht, rfl⟩ := set_eq_ok h
    have same := elements hl parts (fun _ hx => hx) hv.here.2
    cases ht.symm.trans (commonType?_of_all hne same)
    rw [content_setOf, map_conformTo_of_ty same] at hw
    rw [hw]
    exact .set (forall₂_of_getElem? hl parts)
  | @map _ _ made e xs ys hc hn parts h hw =>
    cases hc
    obtain ⟨t, hne, ht, rfl⟩ := map_eq_ok (hn ▸ hv.here.2.1) h
    have hl := length_values_of_names hn
    have same := elements hl parts (fun _ hx => hx) hv.here.2.2
    cases ht.symm.trans (commonType?_of_all hne same)
    rw [hw]
    refine .matched (.map ?_ ?_)
    · rw [names_mapValues, hn]
    · rw [values_mapValues, map_conformTo_of_ty same]
      exact forall₂_of_getElem? hl parts
  | @object _ _ xs ys hc hn parts hw =>
    cases hc
    rw [Value.object, namedParts_of_proper (hn ▸ hv.here.names_object)] at hw
    rw [hw]
    exact .matched (.object hn (forall₂_of_getElem? (length_values_of_names hn) parts))
  | @tuple _ _ xs ys hc hl parts hw =>
    cases hc
    rw [hw]
    exact .matched (.tuple (forall₂_of_getElem? hl parts))
  | @union _ _ made x y variants name hc part h hw =>
    cases hc
    obtain ⟨wanted, -, -, rfl⟩ := union_eq_ok hv.here.canonical_variant h
    rw [hw]
    exact .matched (.union part)

/-- This holds where no part of the type is open. -/
theorem completed (hv : v.Everywhere Regular) (hs : v.Sound .empty) (definite : v.Definite)
    (h : Completes heap Ty.Instantiates v w) : Completed heap v.content w.content :=
  h.completed_of_typed hv hs definite.1 fun _ hx _ part =>
    (part.follows (hv.inside hx)).2 (hasWhollyKnownType_of_mem_parts definite.2 hx)

/-- The type of a wholly known value stays. -/
theorem ty_eq_of_known (hv : v.Everywhere Regular) (hs : v.Sound .empty)
    (known : v.isWhollyKnown = true) (h : Completes heap Ty.Instantiates v w) : w.ty = v.ty := by
  induction v using Value.induction generalizing w with
  | step v ih =>
    have typed (x : Value) (hx : x ∈ v.content.parts) (y : Value)
        (part : Completes heap Ty.Instantiates x y) : y.ty = x.ty :=
      ih x hx (hv.inside hx) (hs.inside hx) ((isWhollyKnown_iff.1 known).2 x hx) part
    have same {xs ys : List Value} (inside : ∀ x ∈ xs, x ∈ v.content.parts)
        (related : List.Forall₂ (Completes heap Ty.Instantiates) xs ys) : types ys = types xs := by
      induction related with
      | nil => rfl
      | cons part _ rest =>
        rw [types, types, typed _ (inside _ List.mem_cons_self) _ part,
          rest fun x hx => inside x (List.mem_cons_of_mem _ hx)]
    rcases cases_present v with ⟨t, r, hc⟩ | ⟨t, hc⟩ | present
    · cases (isWhollyKnown_iff.1 known).1.symm.trans (isKnown_iff.2 ⟨t, r, hc⟩)
    · cases h with
      | plain _ _ hw => exact ty_of_content hw
      | unknown hv | list hv | set hv | map hv | object hv | tuple hv | union hv =>
        cases hc.symm.trans hv
    · have completed := h.completed_of_typed hv hs present typed
      obtain ⟨m, c⟩ := v
      obtain ⟨n, d⟩ := w
      simp only [content] at completed same
      cases completed with
      | matched matched =>
        cases matched with
        | @tuple xs ys related => rw [ty, ty, @same xs ys (fun _ hx => hx) related]
        | @object xs ys hn related =>
          rw [ty, ty, entryTypes_ext hn (@same (values xs) (values ys) (fun _ hx => hx) related)]
        | _ => simp only [ty]
      | set => simp only [ty]

end Completes

end Value

end ValueAlgebra
