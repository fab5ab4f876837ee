import ValueAlgebra.Proofs.Targets

/-!
# What targets leave open

Types that fill one type differ in what they put in the place of its dynamic parts. The target of
their unification fills the type, too. Where one of the types has left a part `dynamic`, so does the
target: `Ty.KeepsOpen e s t` says this of a type `s` and a target `t` that fill a type `e`, part by
part.

The variants of unions are no parts in this sense, since a value keeps the union type that it was
made for. They are left alone here: `Ty.VariantsClosed` asks that the variants of unions leave
nothing open and have no optional attributes, so that a union is filled by itself alone.

Main statements:

* `Unification.keepsOpen`: the target of types that fill one type.
* `Ty.KeepsOpen.withoutOptional_eq`: the target of a type that fills nothing in does not, either.
-/

namespace ValueAlgebra

open Entries

namespace Ty

/-! ## Unions that are filled by themselves alone -/

/-- The variants of a union leave nothing open and have no optional attributes. -/
def VariantsClosed (t : Ty) : Prop :=
  ∀ variants, t = .union variants →
    ∀ u ∈ values variants, u.hasDynamic = false ∧ u.OptionalFree

instance (t : Ty) : Decidable t.OptionalFree :=
  inferInstanceAs (Decidable (t.Everywhere fun t => t.optionalNames = []))

instance : DecidablePred VariantsClosed
  | .union variants =>
    decidable_of_iff (∀ u ∈ values variants, u.hasDynamic = false ∧ u.OptionalFree)
      ⟨fun h _ eq => Ty.union.inj eq ▸ h, fun h => h variants rfl⟩
  | .dynamic | .number | .string | .bool | .list _ | .set _ | .map _ | .object _ _ | .tuple _
  | .capsule _ => .isTrue nofun

variable {e s t : Ty}

/-- A union whose variants leave nothing open is filled by itself alone. -/
theorem VariantsClosed.eq_of_fills {variants : List (String × Ty)}
    (h : (Ty.union variants).VariantsClosed) (fills : t.Fills (.union variants)) :
    t = .union variants := by
  have closed := h variants rfl
  refine fills.eq_of_optionalFree ?_ (everywhere_union.2 ⟨rfl, fun u hu => (closed u hu).2⟩)
  rw [hasDynamic, anyHasDynamicEntry_eq_false]
  exact fun u hu => (closed u hu).1

/-! ## Parts that stay open -/

/-- A type without parts, or a union. -/
def Rigid (t : Ty) : Prop :=
  t.element? = none ∧ t.isObject = false ∧ t.isTuple = false

/-- Of two types that fill the type `e`, the second one is `dynamic` in each dynamic part of `e` in
which the first one is. -/
inductive KeepsOpen : Ty → Ty → Ty → Prop where
  | dynamic {s t : Ty} (h : s = .dynamic → t = .dynamic) : KeepsOpen .dynamic s t
  | rigid {e : Ty} (h : e.Rigid) : KeepsOpen e e e
  | collection {e s t : Ty} (kind : CollectionKind) (element : KeepsOpen e s t) :
      KeepsOpen (kind.type e) (kind.type s) (kind.type t)
  | object {es ss ts : List (String × Ty)} {os ps qs : List String}
      (source : names ss = names es) (target : names ts = names es)
      (parts : ∀ name e s t, (name, e) ∈ es → (name, s) ∈ ss → (name, t) ∈ ts → KeepsOpen e s t) :
      KeepsOpen (.object es os) (.object ss ps) (.object ts qs)
  | tuple {es ss ts : List Ty} (source : ss.length = es.length) (target : ts.length = es.length)
      (parts : ∀ (i : Nat) e s t, es[i]? = some e → ss[i]? = some s → ts[i]? = some t →
        KeepsOpen e s t) :
      KeepsOpen (.tuple es) (.tuple ss) (.tuple ts)

namespace KeepsOpen

theorem self (h : s.Fills e) (he : e.WellFormed) (closed : e.Everywhere VariantsClosed) :
    KeepsOpen e s s := by
  induction h with
  | dynamic => exact .dynamic id
  | number | string | bool | capsule => exact .rigid ⟨rfl, rfl, rfl⟩
  | list _ ih => exact .collection .list (ih (everywhere_list.1 he).2 (everywhere_list.1 closed).2)
  | set _ ih => exact .collection .set (ih (everywhere_set.1 he).2 (everywhere_set.1 closed).2)
  | map _ ih => exact .collection .map (ih (everywhere_map.1 he).2 (everywhere_map.1 closed).2)
  | object hn _ _ ih =>
    refine .object hn hn fun name e s t he' hs ht => ?_
    cases eq_of_mem (hn ▸ he.names_object.nodup) hs ht
    exact ih name s e hs he' (he.ofAttribute he') (closed.ofAttribute he')
  | union hn parts =>
    cases closed.here.eq_of_fills (.union hn parts)
    exact .rigid ⟨rfl, rfl, rfl⟩
  | tuple hl _ ih =>
    refine .tuple hl hl fun i e s t he' hs ht => ?_
    cases hs.symm.trans ht
    have hm := List.mem_of_getElem? he'
    exact ih i s e hs he' (he.ofItem hm) (closed.ofItem hm)

theorem of_collection {kind : CollectionKind} (h : KeepsOpen (kind.type e) s t) :
    ∃ a b, s = kind.type a ∧ t = kind.type b ∧ KeepsOpen e a b := by
  generalize he : kind.type e = e' at h
  cases h with
  | rigid rigid =>
    have element := rigid.1
    rw [← he] at element
    cases kind <;> cases element
  | @collection _ a b other element =>
    cases kind <;> cases other <;> cases he <;> exact ⟨a, b, rfl, rfl, element⟩
  | dynamic | object | tuple => cases kind <;> cases he

theorem of_object {es : List (String × Ty)} {os : List String} (h : KeepsOpen (.object es os) s t) :
    ∃ ss ps ts qs, s = .object ss ps ∧ t = .object ts qs ∧ names ss = names es ∧
      ∀ name e s t, (name, e) ∈ es → (name, s) ∈ ss → (name, t) ∈ ts → KeepsOpen e s t := by
  generalize he : Ty.object es os = e' at h
  cases h with
  | rigid rigid =>
    have object := rigid.2.1
    rw [← he] at object
    cases object
  | collection kind => cases kind <;> cases he
  | object source _ parts =>
    cases he
    exact ⟨_, _, _, _, rfl, rfl, source, parts⟩
  | dynamic | tuple => cases he

theorem of_tuple {es : List Ty} (h : KeepsOpen (.tuple es) s t) :
    ∃ ss ts, s = .tuple ss ∧ t = .tuple ts ∧ ss.length = es.length ∧
      ∀ (i : Nat) e s t, es[i]? = some e → ss[i]? = some s → ts[i]? = some t →
        KeepsOpen e s t := by
  generalize he : Ty.tuple es = e' at h
  cases h with
  | rigid rigid =>
    have tuple := rigid.2.2
    rw [← he] at tuple
    cases tuple
  | collection kind => cases kind <;> cases he
  | tuple source _ parts =>
    cases he
    exact ⟨_, _, rfl, rfl, source, parts⟩
  | dynamic | object => cases he

/-- Where the source fills nothing in, neither does the target. -/
theorem withoutOptional_eq (h : KeepsOpen e s t) (he : e.WellFormed)
    (hs : s.withoutOptional = e.withoutOptional) : t.withoutOptional = e.withoutOptional := by
  induction h with
  | @dynamic s t h =>
    cases s <;> simp only [withoutOptional, reduceCtorEq] at hs
    rw [h rfl]
  | rigid => rfl
  | collection kind _ ih =>
    have element := (everywhere_collection.1 he).2
    cases kind <;> simp only [CollectionKind.type, withoutOptional, list.injEq, set.injEq,
      map.injEq] at hs ⊢ <;> exact ih element hs
  | @object es ss ts _ _ _ source target _ ih =>
    simp only [withoutOptional, withoutOptionalEntries_eq_mapValues, object.injEq, and_true] at hs ⊢
    refine mapValues_congr target fun name t e ht he' => ?_
    obtain ⟨s, hs'⟩ := exists_of_mem_names (source ▸ mem_names he')
    refine ih name e s t he' hs' ht (he.ofAttribute he') ?_
    have same : (name, s.withoutOptional) ∈ mapValues Ty.withoutOptional es :=
      hs ▸ mem_mapValues.2 ⟨s, hs', rfl⟩
    obtain ⟨e', he'', eq⟩ := mem_mapValues.1 same
    rw [eq_of_mem he.names_object.nodup he' he'', eq]
  | @tuple es ss ts source target _ ih =>
    simp only [withoutOptional, withoutOptionalAll_eq_map, tuple.injEq] at hs ⊢
    refine List.ext_getElem (by simp [target]) fun i hi hj => ?_
    rw [List.length_map] at hi hj
    have hk : i < ss.length := source ▸ hj
    have he' := List.getElem?_eq_getElem hj
    simp only [List.getElem_map]
    refine ih i _ _ _ he' (List.getElem?_eq_getElem hk) (List.getElem?_eq_getElem hi)
      (he.ofItem (List.getElem_mem hj)) ?_
    have same := congrArg (·[i]?) hs
    simpa [hk, hj] using same

end KeepsOpen

end Ty

/-! ## Mixtures of types of one kind -/

namespace Mixture

variable {types : List Ty}

/-- Types that pass a check alike. -/
theorem any_all_of_uniform {p : Ty → Bool} {b : Bool} (hne : types ≠ [])
    (h : ∀ t ∈ types, p t = b) : types.any p = b ∧ types.all p = b := by
  obtain ⟨t, ht⟩ := List.exists_mem_of_ne_nil _ hne
  cases b with
  | true => exact ⟨List.any_eq_true.2 ⟨t, ht, h t ht⟩, List.all_eq_true.2 h⟩
  | false =>
    refine ⟨List.any_eq_false.2 fun s hs => by simp [h s hs], ?_⟩
    exact List.all_eq_false.2 ⟨t, ht, by simp [h t ht]⟩

theorem isOnly_of_uniform {p : Ty → Bool} {b : Bool} (hne : types ≠ [])
    (h : ∀ t ∈ types, p t = b) : isOnly p types = b := by
  rw [isOnly, (any_all_of_uniform hne h).1]
  cases b with
  | false => rfl
  | true => simpa using fun t ht => .inl (h t ht)

/-- Collections of one kind, of which none is `dynamic`. -/
theorem of_collections (hne : types ≠ []) (kind : CollectionKind)
    (h : ∀ t ∈ types, ∃ e, t = kind.type e) : Mixture.of types = .collections kind := by
  have check {p : Ty → Bool} {b : Bool} (hp : ∀ e, p (kind.type e) = b) : ∀ t ∈ types, p t = b := by
    intro t ht
    obtain ⟨e, rfl⟩ := h t ht
    exact hp e
  have closed := (any_all_of_uniform hne (@check Ty.isDynamic false fun e => by cases kind <;> rfl)).1
  have only {p : Ty → Bool} {b : Bool} (hp : ∀ e, p (kind.type e) = b) :=
    isOnly_of_uniform hne (check hp)
  cases kind with
  | map => simp [Mixture.of, @only Ty.isMap true fun _ => rfl, closed]
  | list =>
    simp [Mixture.of, @only Ty.isMap false fun _ => rfl, @only Ty.isList true fun _ => rfl,
      (any_all_of_uniform hne (@check Ty.isMap false fun _ => rfl)).1, closed]
  | set =>
    simp [Mixture.of, @only Ty.isMap false fun _ => rfl, @only Ty.isList false fun _ => rfl,
      @only Ty.isSet true fun _ => rfl,
      (any_all_of_uniform hne (@check Ty.isMap false fun _ => rfl)).1, closed]

theorem of_objects (hne : types ≠ []) (h : ∀ t ∈ types, t.isObject = true) :
    Mixture.of types = .objects := by
  have check {p : Ty → Bool} {b : Bool} (hp : ∀ as os, p (.object as os) = b) :
      ∀ t ∈ types, p t = b := by
    intro t ht
    have object := h t ht
    cases t <;> cases object
    exact hp _ _
  have only {p : Ty → Bool} {b : Bool} (hp : ∀ as os, p (.object as os) = b) :=
    isOnly_of_uniform hne (check hp)
  simp [Mixture.of, @only Ty.isMap false fun _ _ => rfl, @only Ty.isList false fun _ _ => rfl,
    @only Ty.isSet false fun _ _ => rfl, isOnly_of_uniform hne h,
    (any_all_of_uniform hne (@check Ty.isMap false fun _ _ => rfl)).1,
    (any_all_of_uniform hne (@check Ty.isDynamic false fun _ _ => rfl)).1]

theorem of_tuples (hne : types ≠ []) (h : ∀ t ∈ types, t.isTuple = true) :
    Mixture.of types = .tuples := by
  have check {p : Ty → Bool} {b : Bool} (hp : ∀ ts, p (.tuple ts) = b) : ∀ t ∈ types, p t = b := by
    intro t ht
    have tuple := h t ht
    cases t <;> cases tuple
    exact hp _
  have only {p : Ty → Bool} {b : Bool} (hp : ∀ ts, p (.tuple ts) = b) :=
    isOnly_of_uniform hne (check hp)
  simp [Mixture.of, @only Ty.isMap false fun _ => rfl, @only Ty.isList false fun _ => rfl,
    @only Ty.isSet false fun _ => rfl, @only Ty.isObject false fun _ => rfl,
    isOnly_of_uniform hne h, (any_all_of_uniform hne (@check Ty.isMap false fun _ => rfl)).1,
    (any_all_of_uniform hne (@check Ty.isDynamic false fun _ => rfl)).1]

end Mixture

/-! ## Targets of types that fill one type -/

namespace Unification

variable [Host] {mode : Mode} {types : List Ty} {e s t : Ty}

/-- The target of types that are not all the same is looked for in the way of their mixture. -/
theorem target?_of_not_agreed (hne : types ≠ []) (h : Ty.agreed? id types = none) :
    target? mode types = (Way.ofDifferent types).target? mode types := by
  rw [target?_eq, Way.of, if_neg hne, h]

/-- What is known of the targets of types that fill a part of a type. -/
def KeepOpen (mode : Mode) (e : Ty) : Prop :=
  ∀ {types : List Ty} {s t : Ty}, (∀ t ∈ types, t.Fills e) → s ∈ types →
    target? mode types = some t → Ty.KeepsOpen e s t

theorem keepsOpen_collection {kind : CollectionKind} (part : KeepOpen mode e)
    (fills : ∀ t ∈ types, ∃ a, t = kind.type a ∧ a.Fills e) (hs : s ∈ types)
    (different : Ty.agreed? id types = none) (ht : target? mode types = some t) :
    Ty.KeepsOpen (kind.type e) s t := by
  have hne := List.ne_nil_of_mem hs
  have mem_parts {a b : Ty} (h : a ∈ Ty.elementPart.of (kind.type b)) : a = b := by
    cases kind <;> exact List.mem_singleton.1 h
  rw [target?_of_not_agreed hne different, Way.ofDifferent, Mixture.of_collections hne kind
    fun t ht => (fills t ht).imp fun _ => And.left] at ht
  obtain ⟨b, hb, ht⟩ := Option.bind_eq_some_iff.1 ht
  obtain ⟨rfl, -⟩ := reach?_eq_some_iff.1 ht
  obtain ⟨a, rfl, -⟩ := fills s hs
  refine .collection kind (part (fun c hc => ?_) (Ty.mem_parts_all.2 ⟨_, hs, ?_⟩) hb)
  · obtain ⟨t, ht, hc⟩ := Ty.mem_parts_all.1 hc
    obtain ⟨a, rfl, fills⟩ := fills t ht
    rwa [mem_parts hc]
  · cases kind <;> exact List.mem_cons_self

theorem keepsOpen_object {es : List (String × Ty)} {os : List String}
    (parts : ∀ name e, (name, e) ∈ es → KeepOpen mode e)
    (fills : ∀ t ∈ types, t.Fills (.object es os)) (hs : s ∈ types) (hd : (names es).Nodup)
    (different : Ty.agreed? id types = none) (ht : target? mode types = some t) :
    Ty.KeepsOpen (.object es os) s t := by
  have hne := List.ne_nil_of_mem hs
  have objects : ∀ t ∈ types, ∃ as ps, t = .object as ps ∧ names as = names es ∧
      ∀ name a e, (name, a) ∈ as → (name, e) ∈ es → a.Fills e := by
    intro t ht
    cases fills t ht with
    | object hn parts _ => exact ⟨_, _, rfl, hn, parts⟩
  have agreed : Ty.agreed? Ty.attributeNames types = some (names es) := by
    refine Ty.agreed?_eq_some_iff.2 ⟨hne, fun t ht => ?_⟩
    obtain ⟨as, ps, rfl, hn, -⟩ := objects t ht
    exact hn
  have kind : ∀ t ∈ types, t.isObject = true := by
    intro t ht
    obtain ⟨as, ps, rfl, -⟩ := objects t ht
    rfl
  rw [target?_of_not_agreed hne different, Way.ofDifferent, Mixture.of_objects hne kind] at ht
  simp only [agreed] at ht
  obtain ⟨attributes, ha, rfl⟩ := Option.map_eq_some_iff.1 ht
  obtain ⟨hn, found⟩ := named_of_mapM ha
  obtain ⟨as, ps, rfl, hn', -⟩ := objects s hs
  refine .object hn' hn fun name e a b he ha hb => ?_
  refine parts name e he (fun c hc => ?_) (Ty.mem_parts_all.2 ⟨_, hs, ?_⟩) (found name b hb)
  · obtain ⟨t, ht, hc⟩ := Ty.mem_parts_all.1 hc
    obtain ⟨as, ps, rfl, hn, fills⟩ := objects t ht
    obtain ⟨_, _, eq, hc⟩ := Ty.mem_attributePart hc
    cases eq
    exact fills name c e (mem_of_lookup hc) he
  · simp [Ty.attributePart, lookup_of_mem (hn' ▸ hd) ha]

theorem keepsOpen_tuple {es : List Ty} (parts : ∀ e ∈ es, KeepOpen mode e)
    (fills : ∀ t ∈ types, t.Fills (.tuple es)) (hs : s ∈ types)
    (different : Ty.agreed? id types = none) (ht : target? mode types = some t) :
    Ty.KeepsOpen (.tuple es) s t := by
  have hne := List.ne_nil_of_mem hs
  have tuples : ∀ t ∈ types, ∃ as, t = .tuple as ∧ as.length = es.length ∧
      ∀ (i : Nat) a e, as[i]? = some a → es[i]? = some e → a.Fills e := by
    intro t ht
    cases fills t ht with
    | tuple hl parts => exact ⟨_, rfl, hl, parts⟩
  have agreed : Ty.agreed? Ty.itemCount types = some es.length := by
    refine Ty.agreed?_eq_some_iff.2 ⟨hne, fun t ht => ?_⟩
    obtain ⟨as, rfl, hl, -⟩ := tuples t ht
    exact hl
  have kind : ∀ t ∈ types, t.isTuple = true := by
    intro t ht
    obtain ⟨as, rfl, -⟩ := tuples t ht
    rfl
  rw [target?_of_not_agreed hne different, Way.ofDifferent, Mixture.of_tuples hne kind] at ht
  simp only [agreed] at ht
  obtain ⟨elements, ha, rfl⟩ := Option.map_eq_some_iff.1 ht
  obtain ⟨hl, found⟩ := placed_of_mapM ha
  obtain ⟨as, rfl, hl', -⟩ := tuples s hs
  refine .tuple hl' hl fun i e a b he ha hb => ?_
  refine parts e (List.mem_of_getElem? he) (fun c hc => ?_) (Ty.mem_parts_all.2 ⟨_, hs, ?_⟩)
    (found i b hb)
  · obtain ⟨t, ht, hc⟩ := Ty.mem_parts_all.1 hc
    obtain ⟨as, rfl, hl, fills⟩ := tuples t ht
    obtain ⟨_, eq, hc⟩ := Ty.mem_itemPart hc
    cases eq
    exact fills i c e hc he
  · simp [Ty.itemPart, ha]

/-- A target of types that fill one type is `dynamic` in each part that one of them leaves so. -/
theorem keepsOpen (he : e.WellFormed) (closed : e.Everywhere Ty.VariantsClosed) :
    KeepOpen mode e := by
  unfold Ty.WellFormed at he
  induction he with
  | @intro e here inside ih =>
    intro types s t fills hs ht
    have hne := List.ne_nil_of_mem hs
    have part {a : Ty} (ha : a ∈ e.components) : KeepOpen mode a := ih a ha (closed.inside ha)
    have elements {kind : CollectionKind} {a : Ty} (eq : e = kind.type a)
        (t : Ty) (ht : t ∈ types) : ∃ b, t = kind.type b ∧ b.Fills a := by
      have fills := eq ▸ fills t ht
      cases kind <;> cases fills <;> exact ⟨_, rfl, ‹_›⟩
    cases same : Ty.agreed? id types with
    | some u =>
      -- where all types are the same, the target is one of them
      rw [target?_eq, Way.of, if_neg hne, same] at ht
      cases ht
      obtain rfl : s = t := (Ty.agreed?_eq_some_iff.1 same).2 s hs
      exact .self (fills s hs) (.intro here inside) closed
    | none =>
      have alone (h : ∀ t ∈ types, t = e) : Ty.KeepsOpen e s t := by
        rw [Ty.agreed?_eq_some_iff (f := id) |>.2 ⟨hne, h⟩] at same
        cases same
      cases e with
      | dynamic => exact .dynamic fun hd => (eq_dynamic_iff ht).2 (.inr (hd ▸ hs))
      | number | string | bool | capsule =>
        refine alone fun t ht => ?_
        cases fills t ht
        rfl
      | union vs => exact alone fun t ht => closed.here.eq_of_fills (fills t ht)
      | list a =>
        exact @keepsOpen_collection _ _ _ _ _ _ .list (part List.mem_cons_self) (elements rfl) hs
          same ht
      | set a =>
        exact @keepsOpen_collection _ _ _ _ _ _ .set (part List.mem_cons_self) (elements rfl) hs
          same ht
      | map a =>
        exact @keepsOpen_collection _ _ _ _ _ _ .map (part List.mem_cons_self) (elements rfl) hs
          same ht
      | object es os =>
        exact keepsOpen_object (fun name e he => part (mem_values he)) fills hs here.1.nodup same ht
      | tuple es => exact keepsOpen_tuple (fun e he => part he) fills hs same ht

end Unification

end ValueAlgebra
