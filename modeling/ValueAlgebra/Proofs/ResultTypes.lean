import ValueAlgebra.Proofs.Results

/-!
# Types of results

The result of a conversion has a type that conforms to the target, and where the target has no
dynamic part, they agree up to optional attributes. Most rules make values of a type in which every
attribute is required. A value that is kept as it is keeps its optional attributes, though, and so
does a union, which is made for the target as it stands.

`Ty.Strippable` says of which targets every result has just the type in which every attribute is
required.

Main statements:

* `Conversion.ty_eq_of_strippable`: all results for a strippable target have one type.
* `Conversion.exists_kept`: for any other target, some value keeps an optional attribute.
* `Conversion.run_type`: both, together with what holds of all targets.
-/

namespace ValueAlgebra

open Entries Text

/-- The scope of all values without capsules. What the variants of unions hold is not looked into. -/
def Scope.capsuleFree : Scope where
  types t := t.Headed ∧ t.isCapsule = false
  texts _ := True
  lengths _ := True
  deep := False

theorem Scope.closed_capsuleFree : Scope.capsuleFree.Closed where
  structural := Ty.structural_headed.and Ty.structural_not_capsule
  headed _ h := h.1
  dynamic := ⟨⟨Names.proper_nil, by simp⟩, rfl⟩
  flag _ := trivial
  parsed _ _ _ _ := trivial
  shorter _ _ := trivial
  empty := trivial
  tuple _ _ := trivial
  object _ _ _ := trivial

theorem Scope.noCapsule_capsuleFree (c : CapsuleType) : ¬ Scope.capsuleFree.types (.capsule c) :=
  fun h => Bool.noConfusion h.2

namespace Ty

/-- A type without optional attributes, or an object type with an optional attribute, of which the
types of the attributes are such types again. No value has such an object type, so none is kept. -/
inductive Strippable : Ty → Prop where
  | free {t : Ty} (h : t.OptionalFree) : Strippable t
  | object {attributes : List (String × Ty)} {optional : List String} (ho : optional ≠ [])
      (ha : ∀ t ∈ values attributes, Strippable t) : Strippable (.object attributes optional)

/-- A well-formed type without capsules can be aimed at. -/
theorem WellFormed.aims {t : Ty} (h : t.WellFormed) (hc : t.CapsuleFree) :
    Aims Scope.capsuleFree.types t :=
  .ofEverywhere Scope.closed_capsuleFree.structural (Everywhere.and h hc)

/-- What is filled from a source has the type of the target, if that leaves nothing open. -/
theorem converted_eq [Host] {s t : Ty} (h : t.WellFormed) (hd : t.hasDynamic = false) :
    s.converted t = t.withoutOptional := by
  have fills : (s.converted t).Fills t := filledFrom_fills h s
  rw [← fills.withoutOptional_eq hd, converted, (optionalFree_withoutOptional _).withoutOptional_eq]

end Ty

/-- An object whose attributes have the types of a target. -/
theorem Value.ty_object {entries : List (String × Value)} {targets : List (String × Ty)}
    {optional : List String} (hp : Names.Proper (names targets))
    (hn : ∀ name, name ∈ names entries ↔ name ∈ names targets)
    (hv : ∀ name y t, (name, y) ∈ entries → (name, t) ∈ targets → y.ty = t.withoutOptional) :
    (Value.object entries).ty = (Ty.object targets optional).withoutOptional := by
  have hnames : names (ofList entries) = names targets :=
    names_eq_of_sorted (sorted_ofList entries) hp.1 fun name => mem_names_ofList.trans (hn name)
  have object : Value.object entries = Value.bare (.object (ofList entries)) := by
    rw [Value.object, namedParts_of_canonical fun name h => hp.2 name ((hn name).1 h)]
  rw [object, Ty.withoutOptional, Ty.withoutOptionalEntries_eq_mapValues]
  simp only [Value.bare, Value.ty]
  rw [Value.entryTypes_eq_mapValues, mapValues_congr hnames fun name y t hy ht =>
    hv name y t (mem_ofList hy) ht]

namespace Conversion

variable [Host] {mode : Mode} {t : Ty} {c : Conversion} {v w : Value} {path : Path}
  {site : List Nat}

/-! ## Strippable targets -/

/-- An object that is the result of a run has a type in which every attribute is required, if the
parts of the value are converted to such types. -/
theorem ty_attributes {run : Runner} {parts entries : List (String × Value)}
    {types : String → Ty → Prop} {targets : List (String × Ty)} {optional : List String}
    (hp : Names.Proper (names targets))
    (hn : ∀ name, name ∈ names entries ↔ name ∈ names targets)
    (hr : ∀ name x s t c path site y, (name, x) ∈ parts → types name s → (name, t) ∈ targets →
      plan? mode s t = some c → run c x path site = .ok y → y.ty = t.withoutOptional)
    (hv : ∀ name y t, (name, y) ∈ entries → (name, t) ∈ targets →
      Rule.Attribute run mode parts types name t y) :
    (Value.object entries).ty = (Ty.object targets optional).withoutOptional := by
  refine Value.ty_object hp hn fun name y t hy ht => ?_
  rcases hv name y t hy ht with ⟨-, rfl⟩ | ⟨x, s, c, path, site, hx, hs, hc, hr'⟩
  · simp only [Value.null, Value.bare, Value.ty]
  · exact hr name x s t c path site y hx hs ht hc hr'

/-- A known object type with an optional attribute is made anew, since it is the type of no value. -/
theorem ty_of_decided_object {run : Runner} {rule : Rule Conversion}
    {targets : List (String × Ty)} {optional : List String} (ho : optional ≠ [])
    (hwf : (Ty.object targets optional).WellFormed) (hd : v.Decided) (hv : v.Within .capsuleFree)
    (h : Rule.Planned mode v.ty (.object targets optional) rule)
    (hr : ∀ name x t c path site y, x.Within .capsuleFree → (name, t) ∈ targets →
      plan? mode x.ty t = some c → run c x path site = .ok y → y.ty = t.withoutOptional)
    (hw : rule.applyDecided run (.object targets optional) v path site = .ok w) :
    w.ty = (Ty.object targets optional).withoutOptional := by
  have proper := hwf.names_object
  have fills (s : Ty) (hs : v.ty = s) : v.ty.Fills s :=
    hs ▸ .refl (hv.wellFormed_ty Scope.closed_capsuleFree)
  have source := hv.ty Scope.closed_capsuleFree
  have toObject := h.toObject
  generalize hs : v.ty = s at toObject source
  cases toObject with
  | later => exact absurd hs hd.ty_ne_dynamic
  | same =>
    obtain ⟨attributes, rfl, -, -⟩ := hd.object (fills _ hs)
    simp only [Value.bare, Value.ty] at hs
    cases hs
    exact absurd rfl ho
  | object plan =>
    obtain ⟨attributes, rfl, hn, -⟩ := hd.object (fills _ hs)
    have sources := Ty.WellFormed.names_object (source.mono fun _ h => h.1)
    simp only [Value.bare, Value.ty, Ty.object.injEq] at hs
    obtain ⟨rfl, -⟩ := hs
    obtain ⟨entries, rfl, hne, result⟩ :=
      Rule.object_result (t := .object targets optional) plan hn (hn ▸ sources) proper.nodup hw
    cases hv with
    | object _ within =>
      refine ty_attributes proper hne (fun name x s t c path site y hx hs => ?_) result
      have eq : s = x.ty := eq_of_mem sources.nodup hs (Value.mem_entryTypes.2 ⟨x, hx, rfl⟩)
      subst eq
      exact hr name x t c path site y (within x (mem_values hx))
  | @pick e _ hm plan =>
    subst hm
    obtain ⟨e', parts, rfl, -⟩ := hd.map (fills _ hs)
    simp only [Value.bare, Value.ty, Ty.map.injEq] at hs
    subst hs
    cases hv with
    | map _ hp types within =>
      obtain ⟨entries, rfl, hne, result⟩ :=
        Rule.pick_result (t := .object targets optional) plan hp proper.nodup hw
      refine ty_attributes proper hne (fun name x s t c path site y hx hs => ?_) result
      subst hs
      rw [← types x (mem_values hx)]
      exact hr name x t c path site y (within x (mem_values hx))
  | ofCapsule _ hc =>
    have := source.here.2
    rw [hc] at this
    cases this

/-- The result for a null or an unknown has the predicted type. For other values the rule of the
conversion tells. -/
theorem ty_of_run {rule : Rule Conversion} (ht : t ≠ .dynamic) (hw : t.WellFormed)
    (hc : t.CapsuleFree) (hv : v.Within .capsuleFree)
    (h : (toward t rule).run v path site = .ok w) :
    w.ty = v.ty.converted t ∨ v.unmark.Decided ∧ ∃ x,
      rule.applyDecided (runPart v.height) t v.unmark path site = .ok x ∧ w.ty = x.ty := by
  have hS := Scope.closed_capsuleFree
  rw [run_eq] at h
  cases known : v.isKnown with
  | false =>
    rw [runWith_unknown ht known] at h
    obtain ⟨x, hx, rfl⟩ := map_eq_ok h
    obtain ⟨r, hr⟩ := Value.unmark_of_unknown known
    rw [hr] at hx
    have converted := (hw.aims hc).filledFrom hS.structural hS.dynamic (hv.ty hS)
    rw [Value.ty_withMarks]
    exact .inl (Value.convertUnknown_ok hS (hr ▸ hv.unmark) converted (orFailure_eq_ok hx)).2.1
  | true =>
    cases null : v.isNull with
    | true =>
      rw [runWith_null ht null] at h
      cases h
      rw [Value.ty_withMarks]
      refine .inl ?_
      simp only [Value.null, Value.bare, Value.ty]
    | false =>
      rw [runWith_decided ht known null] at h
      obtain ⟨x, hx, rfl⟩ := map_eq_ok h
      exact .inr ⟨Value.decided_unmark known null, x, hx, Value.ty_withMarks _ _⟩

/-- A run toward an object type with an optional attribute keeps no value. -/
theorem ty_eq_of_strippable (ht : t.Strippable) (hw : t.WellFormed) (hc : t.CapsuleFree)
    (hd : t.hasDynamic = false) (hv : v.Within .capsuleFree) (hp : plan? mode v.ty t = some c)
    (h : c.run v path site = .ok w) : w.ty = t.withoutOptional := by
  have hS := Scope.closed_capsuleFree
  induction ht generalizing mode c v w path site with
  | @free t ho =>
    have lands := run_lands hS (fun _ => Scope.noCapsule_capsuleFree) (.planned hp) (hv.ty hS) (hw.aims hc) hv
      (.refl (hv.wellFormed_ty hS)) h
    rw [lands.fills.eq_of_optionalFree hd ho, ho.withoutOptional_eq]
  | @object targets optional ho _ ih =>
    obtain ⟨rule, rfl, planned⟩ := planned_of_plan? hp
    have hne : Ty.object targets optional ≠ .dynamic := by simp
    rcases ty_of_run hne hw hc hv h with predicted | ⟨decided, x, hx, typed⟩
    · rw [predicted, Ty.converted_eq hw hd]
    · rw [typed]
      refine ty_of_decided_object ho hw decided hv.unmark (by rwa [Value.ty_unmark])
        (fun name x t c path site y hx ht hp hr => ?_) hx
      rw [Ty.hasDynamic, Ty.anyHasDynamicEntry_eq_false] at hd
      exact ih t (mem_values ht) (hw.ofAttribute ht) (hc.ofAttribute ht) (hd t (mem_values ht)) hx
        hp (runPart_ok hr).2

/-! ## Targets that values keep -/

theorem plan?_keep (ht : t ≠ .dynamic) : plan? mode t t = some (.toward t .keep) := by
  rw [plan?, Rule.between?.eq_def, if_neg ht, if_neg ht, if_pos rfl]
  rfl

theorem run_keep (ht : t ≠ .dynamic) (hd : v.Decided) :
    ∃ w, (toward t .keep).run v path site = .ok w ∧ w.ty = v.ty := by
  rw [run_eq, runWith_decided ht hd.known hd.notNull]
  exact ⟨_, rfl, by rw [Value.ty_withMarks, Value.ty_unmark]⟩

omit [Host] in
/-- Every type but that of an object with optional attributes is the type of a value that is known
and not null, if it has optional attributes inside. -/
theorem exists_decided (hw : t.WellFormed) (hc : t.CapsuleFree) (hf : ¬ t.OptionalFree)
    (ho : t.optionalNames = []) : ∃ v : Value, v.Within .capsuleFree ∧ v.Decided ∧ v.ty = t := by
  have here : t.Everywhere Scope.capsuleFree.types := Ty.Everywhere.and hw hc
  cases t with
  | number | string | bool | dynamic | capsule =>
    refine absurd ?_ hf
    exact (Ty.everywhere_leaf rfl).2 rfl
  | list e =>
    refine ⟨.emptyList e, .list (Ty.everywhere_list.1 here).2 (by simp) (by simp), ⟨rfl, rfl, rfl⟩, ?_⟩
    simp only [Value.emptyList, Value.bare, Value.ty]
  | set e =>
    refine ⟨.emptySet e, .set (Ty.everywhere_set.1 here).2 (by simp) (by simp), ⟨rfl, rfl, rfl⟩, ?_⟩
    simp only [Value.emptySet, Value.bare, Value.ty]
  | map e =>
    refine ⟨.emptyMap e, .map (Ty.everywhere_map.1 here).2 Names.proper_nil (by simp) (by simp),
      ⟨rfl, rfl, rfl⟩, ?_⟩
    simp only [Value.emptyMap, Value.bare, Value.ty]
  | object as os =>
    cases ho
    have types : Value.entryTypes (mapValues Value.null as) = as := by
      rw [Value.entryTypes_eq_mapValues, mapValues, mapValues, List.map_map]
      refine (List.map_congr_left fun x _ => ?_).trans (List.map_id as)
      simp only [Function.comp, Value.null, Value.bare, Value.ty, id]
    refine ⟨.bare (.object (mapValues Value.null as)), .object (types.symm ▸ here.here) ?_,
      ⟨rfl, rfl, rfl⟩, ?_⟩
    · rw [values_mapValues, List.forall_mem_map]
      exact fun t ht => .null ((Ty.everywhere_object.1 here).2 t ht)
    · simp only [Value.bare, Value.ty, types]
  | tuple ts =>
    have types : Value.types (ts.map Value.null) = ts := by
      rw [Value.types_eq_map, List.map_map]
      refine (List.map_congr_left fun t _ => ?_).trans (List.map_id ts)
      simp only [Function.comp, Value.null, Value.bare, Value.ty, id]
    refine ⟨.tuple (ts.map Value.null), .tuple (types.symm ▸ here.here) ?_, ⟨rfl, rfl, rfl⟩, ?_⟩
    · rw [List.forall_mem_map]
      exact fun t ht => .null ((Ty.everywhere_tuple.1 here).2 t ht)
    · simp only [Value.tuple, Value.bare, Value.ty, types]
  | union vs =>
    obtain _ | ⟨⟨name, wanted⟩, vs⟩ := vs
    · exact absurd rfl hw.here.2
    · have fills := Ty.Fills.withoutOptional (@Ty.Everywhere.ofVariant _ _ name _ hw List.mem_cons_self)
      refine ⟨.bare (.union _ name (.null wanted.withoutOptional)),
        .union here List.lookup_cons_self ?_ (by intro h; cases h) (by intro h; cases h), ⟨rfl, rfl, rfl⟩, ?_⟩
      · have hty : (Value.null wanted.withoutOptional).ty = wanted.withoutOptional := by
          simp only [Value.null, Value.bare, Value.ty]
        rw [Value.Fits, hty]
        split
        · exact fills.conforms
        · exact beq_self_eq_true _
      · simp only [Value.bare, Value.ty]

/-- An object of nulls, apart from one attribute. -/
def nullsBut (source : Ty → Ty) (name : String) (v : Value) (targets : List (String × Ty)) :
    List (String × Value) :=
  targets.map fun x => (x.1, if x.1 = name then v else .null (source x.2))

omit [Host] in
theorem mem_nullsBut {source : Ty → Ty} {v x : Value} {name other : String}
    {targets : List (String × Ty)} (h : (other, x) ∈ nullsBut source name v targets) :
    ∃ t, (other, t) ∈ targets ∧ (other = name ∧ x = v ∨ x = .null (source t)) := by
  obtain ⟨⟨key, t⟩, ht, eq⟩ := List.mem_map.1 h
  cases eq
  refine ⟨t, ht, ?_⟩
  by_cases hn : key = name
  · exact .inl ⟨hn, if_pos hn⟩
  · exact .inr (if_neg hn)

omit [Host] in
theorem names_nullsBut (source : Ty → Ty) (name : String) (v : Value)
    (targets : List (String × Ty)) : names (nullsBut source name v targets) = names targets := by
  rw [nullsBut, names, List.map_map]
  rfl

/-- A null is converted to any target. -/
theorem run_null {rule : Rule Conversion} {s : Ty} :
    ∃ w, (toward t rule).run (.null s) path site = .ok w := by
  by_cases ht : t = .dynamic
  · rw [ht, run_eq, runWith_dynamic]
    exact ⟨_, rfl⟩
  · rw [run_eq, runWith_null ht rfl]
    exact ⟨_, rfl⟩

omit [Host] in
theorem mem_nullsBut_self {source : Ty → Ty} {name : String} {a : Ty}
    {targets : List (String × Ty)} (h : (name, a) ∈ targets) :
    (name, v) ∈ nullsBut source name v targets :=
  List.mem_map.2 ⟨(name, a), h, by simp⟩

omit [Host] in
theorem forall_nullsBut {source : Ty → Ty} {name : String} {targets : List (String × Ty)}
    {p : Value → Prop} (hv : p v) (null : ∀ t ∈ values targets, p (.null (source t))) :
    ∀ x ∈ values (nullsBut source name v targets), p x := by
  intro x hx
  obtain ⟨other, hx⟩ := exists_of_mem_values hx
  obtain ⟨t, ht, ⟨-, rfl⟩ | rfl⟩ := mem_nullsBut hx
  · exact hv
  · exact null t (mem_values ht)

section

variable {source : Ty → Ty} {targets : List (String × Ty)} {optional : List String} {name : String}
  {a : Ty}

omit [Host] in
theorem ty_nullsBut_ne (hn : (names targets).Nodup) (ha : (name, a) ∈ targets) (hne : v.ty ≠ a) :
    (Value.bare (.object (nullsBut source name v targets))).ty ≠ .object targets optional := by
  simp only [Value.bare, Value.ty]
  intro eq
  have hv := Value.mem_entryTypes.2 ⟨v, @mem_nullsBut_self v source _ _ _ ha, rfl⟩
  rw [(Ty.object.inj eq).1] at hv
  exact hne (eq_of_mem hn hv ha)

/-- An object of nulls is converted where the other attribute is. -/
theorem plan?_nullsBut (hw : (Ty.object targets optional).WellFormed) (ha : (name, a) ∈ targets)
    (hp : plan? mode v.ty a = some c)
    (hs : ∀ t ∈ values targets, (plan? mode (source t) t).isSome = true) :
    (plan? mode (Value.bare (.object (nullsBut source name v targets))).ty
      (.object targets optional)).isSome = true := by
  have proper := hw.names_object
  simp only [Value.bare, Value.ty]
  refine plan?_object_isSome fun other t ht => ?_
  have hn : other ∈ names (nullsBut source name v targets) :=
    names_nullsBut source name v targets ▸ mem_names ht
  obtain ⟨x, hx⟩ := exists_of_mem_names hn
  have nodup : (names (nullsBut source name v targets)).Nodup :=
    names_nullsBut source name v targets ▸ proper.nodup
  refine ⟨x.ty, ?_, ?_⟩
  · rw [Value.lookup_entryTypes, lookup_of_mem nodup hx]
    rfl
  · obtain ⟨t', ht', ⟨rfl, rfl⟩ | rfl⟩ := mem_nullsBut hx
    · rw [eq_of_mem proper.nodup ht ha, hp]
      rfl
    · simp only [Value.null, Value.bare, Value.ty]
      rw [eq_of_mem proper.nodup ht' ht]
      exact hs t (mem_values ht)

/-- The rule that an object of nulls is converted by. -/
theorem planned_nullsBut {k : Conversion}
    (hk : plan? mode (Value.bare (.object (nullsBut source name v targets))).ty
      (.object targets optional) = some k)
    (hne : (Value.bare (.object (nullsBut source name v targets))).ty ≠ .object targets optional) :
    ∃ plans absent, k = .toward (.object targets optional) (.object plans absent) ∧
      ObjectPlan mode (Value.entryTypes (nullsBut source name v targets)) optional targets plans
        absent := by
  obtain ⟨rule, rfl, planned⟩ := planned_of_plan? hk
  simp only [Value.bare, Value.ty] at planned hne
  have toObject := planned.toObject
  generalize hs : Ty.object (Value.entryTypes (nullsBut source name v targets)) [] = s at toObject
  cases toObject with
  | later | pick => cases hs
  | same => exact absurd hs hne
  | object plan =>
    cases hs
    exact ⟨_, _, rfl, plan⟩
  | ofCapsule _ hc =>
    rw [← hs] at hc
    cases hc

theorem run_nullsBut (hw : (Ty.object targets optional).WellFormed) (ha : (name, a) ∈ targets)
    (hp : plan? mode v.ty a = some c) {k : Conversion}
    (hk : plan? mode (Value.bare (.object (nullsBut source name v targets))).ty
      (.object targets optional) = some k)
    (hne : (Value.bare (.object (nullsBut source name v targets))).ty ≠ .object targets optional)
    (h : k.run (.bare (.object (nullsBut source name v targets))) path site = .ok w) :
    ∃ (as : List (String × Ty)) (y : Value) (path : Path) (site : List Nat),
      w.ty = .object as [] ∧ (name, y.ty) ∈ as ∧ c.run v path site = .ok y := by
  have proper := hw.names_object
  obtain ⟨plans, absent, rfl, plan⟩ := planned_nullsBut hk hne
  have hn := names_nullsBut source name v targets
  have nodup : (names (nullsBut source name v targets)).Nodup := hn ▸ proper.nodup
  rw [run_eq, runWith_decided (t := .object targets optional) (by simp) rfl rfl] at h
  obtain ⟨x, hx, rfl⟩ := map_eq_ok h
  obtain ⟨entries, rfl, hnames, result⟩ := Rule.object_result (t := .object targets optional) plan
    (by rw [Value.names_entryTypes]) (hn ▸ proper) proper.nodup hx
  obtain ⟨y, hy⟩ := exists_of_mem_names (mem_names_ofList.2 ((hnames name).2 (mem_names ha)))
  have hv := @mem_nullsBut_self v source _ _ _ ha
  rcases result name y a (mem_ofList hy) ha with ⟨absent, -⟩ | ⟨x, s, c', path, site, hx, hs, hc, hr⟩
  · exact absurd (mem_names hv) absent
  · cases eq_of_mem nodup hx hv
    obtain ⟨x, hx', rfl⟩ := Value.mem_entryTypes.1 hs
    cases eq_of_mem nodup hx' hv
    rw [hp] at hc
    cases hc
    refine ⟨_, y, path, site, ?_, Value.mem_entryTypes.2 ⟨y, hy, rfl⟩, (runPart_ok hr).2⟩
    have canonical : ∀ name ∈ names entries, normalize name = name := fun name h =>
      proper.2 name ((hnames name).1 h)
    rw [Value.ty_withMarks, Value.object, namedParts_of_canonical canonical]
    simp only [Value.bare, Value.ty]

/-- An object of nulls fails to convert only where the other attribute does. -/
theorem run_nullsBut_error (hw : (Ty.object targets optional).WellFormed)
    (ha : (name, a) ∈ targets) (hp : plan? mode v.ty a = some c) {k : Conversion}
    (hk : plan? mode (Value.bare (.object (nullsBut source name v targets))).ty
      (.object targets optional) = some k)
    (hne : (Value.bare (.object (nullsBut source name v targets))).ty ≠ .object targets optional)
    {e : Failure} (h : k.run (.bare (.object (nullsBut source name v targets))) path site = .error e) :
    ∃ path site, c.run v path site = .error e := by
  have proper := hw.names_object
  obtain ⟨plans, absent, rfl, plan⟩ := planned_nullsBut hk hne
  have hn := names_nullsBut source name v targets
  have nodup : (names (nullsBut source name v targets)).Nodup := hn ▸ proper.nodup
  rw [run_eq, runWith_decided (t := .object targets optional) (by simp) rfl rfl] at h
  have h := map_eq_error h
  change Rule.apply _ (.object plans absent) (.object targets optional) (.bare _) _ _ = _ at h
  rw [Rule.apply] at h
  rcases bind_eq_error h with h | ⟨_, -, h⟩
  · obtain ⟨other, x, c', site, hx, hl, h⟩ := convertNamed_error
      (Value.namedElements_of_content (hn ▸ proper.2) rfl) h
    obtain ⟨s, t, hs, ht, hp'⟩ := plan.converted other c' (mem_of_lookup hl)
    have lower : x.height < (Value.bare (.object (nullsBut source name v targets))).height := by
      simp only [Value.bare, Value.height]
      exact Nat.lt_succ_of_le (Value.height_le_heightEntries (mem_values hx))
    rw [runPart_of_lt lower] at h
    rw [Value.lookup_entryTypes, lookup_of_mem nodup hx] at hs
    obtain rfl : x.ty = s := Option.some.inj hs
    obtain ⟨t', _, ⟨rfl, rfl⟩ | rfl⟩ := mem_nullsBut hx
    · rw [eq_of_mem proper.nodup ht ha, hp] at hp'
      cases hp'
      exact ⟨_, site, h⟩
    · obtain ⟨rule, rfl, -⟩ := planned_of_plan? hp'
      obtain ⟨w, hr⟩ := @run_null _ t (path.attr other) site _ _
      rw [hr] at h
      cases h
  · cases h

end

/-- Where a target is not strippable, a value keeps an optional attribute. -/
theorem exists_kept (hw : t.WellFormed) (hc : t.CapsuleFree) (hd : t.hasDynamic = false)
    (hs : ¬ t.Strippable) : ∃ (v : Value) (c : Conversion), v.Within .capsuleFree ∧
      plan? mode v.ty t = some c ∧
      ∀ path site, ∃ w, c.run v path site = .ok w ∧ w.ty ≠ t.withoutOptional := by
  induction t using Ty.induction with
  | _ t ih =>
    have ht : t ≠ .dynamic := (Ty.hasDynamic_eq_false_step.1 hd).1
    have hf : ¬ t.OptionalFree := fun h => hs (.free h)
    by_cases ho : t.optionalNames = []
    · -- a value of this very type is kept
      obtain ⟨v, hv, decided, hty⟩ := exists_decided hw hc hf ho
      refine ⟨v, .toward t .keep, hv, by rw [hty, plan?_keep ht], fun path site => ?_⟩
      obtain ⟨w, hr, hty'⟩ := @run_keep _ _ _ path site ht decided
      refine ⟨w, hr, fun eq => hf (Ty.withoutOptional_eq_self_iff.1 ?_)⟩
      rw [← eq, hty', hty]
    · obtain ⟨targets, optional, rfl⟩ : ∃ targets optional, t = .object targets optional := by
        cases t with
        | object targets optional => exact ⟨_, _, rfl⟩
        | _ => exact absurd rfl ho
      -- an attribute keeps one in turn
      obtain ⟨a, ha, hsa⟩ : ∃ a ∈ values targets, ¬ a.Strippable := by
        by_contra none
        exact hs (.object ho fun a ha => by_contra fun hsa => none ⟨a, ha, hsa⟩)
      obtain ⟨name, hm⟩ := exists_of_mem_values ha
      have inside := Ty.anyHasDynamicEntry_eq_false.1 (by rwa [Ty.hasDynamic] at hd)
      obtain ⟨v, c, hv, hp, run⟩ := ih a ha (hw.ofAttribute hm) (hc.ofAttribute hm) (inside a ha) hsa
      obtain ⟨k, hk⟩ := Option.isSome_iff_exists.1
        (@plan?_nullsBut _ _ _ _ id _ _ _ _ hw hm hp fun t _ => plan?_self)
      have hne : (Value.bare (.object (nullsBut id name v targets))).ty ≠ .object targets optional := by
        simp only [Value.bare, Value.ty]
        exact fun eq => ho (Ty.object.inj eq).2.symm
      refine ⟨_, k, ?_, hk, fun path site => ?_⟩
      · have here : Scope.capsuleFree.types (.object targets optional) := ⟨hw.here, hc.here⟩
        refine .object (Scope.closed_capsuleFree.structural.object here ?_)
          (forall_nullsBut hv fun t ht => .null (Ty.Everywhere.and (hw.inside ht) (hc.inside ht)))
        rw [Value.names_entryTypes, names_nullsBut]
      · cases h : k.run (.bare (.object (nullsBut id name v targets))) path site with
        | error e =>
          obtain ⟨path, site, h⟩ := run_nullsBut_error hw hm hp hk hne h
          obtain ⟨w, hr, -⟩ := run path site
          rw [hr] at h
          cases h
        | ok w =>
          refine ⟨w, rfl, fun eq => ?_⟩
          obtain ⟨as, y, path, site, hty, hy, hr⟩ := run_nullsBut hw hm hp hk hne h
          obtain ⟨w', hr', kept⟩ := run path site
          rw [hr] at hr'
          cases hr'
          rw [hty, Ty.withoutOptional, Ty.withoutOptionalEntries_eq_mapValues] at eq
          cases eq
          obtain ⟨a', ha', eq⟩ := mem_mapValues.1 hy
          rw [eq_of_mem hw.names_object.nodup ha' hm] at eq
          exact kept eq.symm

/-! ## All targets -/

/-- The type of a result conforms to the target and, if the target has no dynamic part, agrees with
it up to optional attributes. All results have the type in which every attribute is required just if
the target is strippable. -/
theorem run_type (hw : t.WellFormed) (hc : t.CapsuleFree) (mode : Mode) :
    (∀ v c path site w, v.Within .capsuleFree → plan? mode v.ty t = some c →
      c.run v path site = .ok w → w.ty.conforms t = true ∧
        (t.hasDynamic = false → w.ty.withoutOptional = t.withoutOptional)) ∧
    (t.hasDynamic = false →
      ((∀ v c path site w, v.Within .capsuleFree → plan? mode v.ty t = some c →
        c.run v path site = .ok w → w.ty = t.withoutOptional) ↔ t.Strippable)) := by
  have hS := Scope.closed_capsuleFree
  refine ⟨fun v c path site w hv hp h => ?_, fun hd => ⟨fun all => ?_, ?_⟩⟩
  · have fills := (run_lands hS (fun _ => Scope.noCapsule_capsuleFree) (.planned hp) (hv.ty hS)
      (hw.aims hc) hv (.refl (hv.wellFormed_ty hS)) h).fills
    exact ⟨fills.conforms, fills.withoutOptional_eq⟩
  · by_contra hs
    obtain ⟨v, c, hv, hp, run⟩ := @exists_kept _ mode _ hw hc hd hs
    obtain ⟨w, hr, kept⟩ := run .root []
    exact kept (all v c .root [] w hv hp hr)
  · intro hs v c path site w hv hp h
    exact ty_eq_of_strippable hs hw hc hd hv hp h

end Conversion

/-! ## An object type with an optional attribute -/

namespace Ty

/-- The type of objects with an optional number. -/
def optionalNumber : Ty :=
  .object [("a", .number)] ["a"]

theorem everywhere_optionalNumber {p : Ty → Prop} (here : p optionalNumber) (inside : p .number) :
    optionalNumber.Everywhere p := by
  refine everywhere_object.2 ⟨here, fun t ht => ?_⟩
  obtain rfl := List.mem_singleton.1 ht
  exact (everywhere_leaf rfl).2 inside

theorem wellFormed_optionalNumber : optionalNumber.WellFormed := by
  refine everywhere_optionalNumber ⟨⟨List.pairwise_singleton .., ?_⟩, by intro h; cases h⟩
    ⟨Names.proper_nil, by simp⟩
  intro name hn
  obtain rfl := List.mem_singleton.1 hn
  rfl

theorem capsuleFree_optionalNumber : optionalNumber.CapsuleFree :=
  everywhere_optionalNumber rfl rfl

theorem strippable_optionalNumber : optionalNumber.Strippable := by
  refine .object (by simp) fun t ht => ?_
  obtain rfl := List.mem_singleton.1 ht
  exact .free ((everywhere_leaf rfl).2 rfl)

end Ty

namespace Conversion

open Ty

theorem run_type_optionalNumber :
    letI := Host.plain
    optionalNumber.WellFormed ∧ optionalNumber.CapsuleFree ∧
      ∀ v c path site w, v.Within .capsuleFree → plan? .safe v.ty optionalNumber = some c →
        c.run v path site = .ok w → w.ty = .object [("a", .number)] [] := by
  let := Host.plain
  exact ⟨wellFormed_optionalNumber, capsuleFree_optionalNumber,
    ((run_type wellFormed_optionalNumber capsuleFree_optionalNumber .safe).2 rfl).2
      strippable_optionalNumber⟩

/-- An empty list of objects is kept together with their optional attributes. -/
theorem run_keeps_optional :
    ¬ ∀ (_ : Host) (mode : Mode) (t : Ty) (v : Value) (c : Conversion) (path : Path)
      (site : List Nat) (w : Value), t.WellFormed → t.CapsuleFree → v.Within .capsuleFree →
      plan? mode v.ty t = some c → c.run v path site = .ok w →
      w.ty.conforms t = true ∧ (t.hasDynamic = false → w.ty = t.withoutOptional) := by
  intro claim
  let := Host.plain
  have hw : (Ty.list optionalNumber).WellFormed :=
    everywhere_list.2 ⟨⟨Names.proper_nil, by simp⟩, wellFormed_optionalNumber⟩
  have hc : (Ty.list optionalNumber).CapsuleFree :=
    everywhere_list.2 ⟨rfl, capsuleFree_optionalNumber⟩
  have hv : (Value.emptyList optionalNumber).Within .capsuleFree :=
    .list (Everywhere.and wellFormed_optionalNumber capsuleFree_optionalNumber) (by simp) (by simp)
  have hty : (Value.emptyList optionalNumber).ty = .list optionalNumber := by
    simp only [Value.emptyList, Value.bare, Value.ty]
  have hne : Ty.list optionalNumber ≠ .dynamic := by simp
  obtain ⟨w, hr, kept⟩ := @run_keep _ _ (.emptyList optionalNumber) .root [] hne
    ⟨rfl, rfl, rfl⟩
  have hp : plan? .safe (Value.emptyList optionalNumber).ty (.list optionalNumber) =
      some (.toward (.list optionalNumber) .keep) := by rw [hty, plan?_keep hne]
  have stripped := (claim _ _ _ _ _ _ _ w hw hc hv hp hr).2 rfl
  rw [kept, hty] at stripped
  cases stripped

end Conversion

end ValueAlgebra
