import ValueAlgebra.Proofs.Results
import ValueAlgebra.Proofs.WellMade

/-!
# Conversions make well-made values

A conversion between types without capsules makes its result with the constructors alone. So it
keeps what they keep (`Value.Heritable`), whatever the type of the value is, and takes a well-made
value without capsules to a well-made value without capsules. That the type has no capsules has to be
carried along: elements that come out with different types are converted once more, by what is
planned on these types, and only a capsule type could slip in a value that is made elsewhere.

Main statements:

* `Rule.Planned.apply_keeps`: planned rules, if the runs of parts do so.
* `Conversion.run_keeps`: whole runs.
* `Conversion.run_sterile`, `Value.convert_sterile`: well-made values without capsules.
-/

namespace ValueAlgebra

open Entries Text

namespace Ty.CapsuleFree

variable {s t e : Ty}

theorem withoutOptional (h : t.CapsuleFree) : t.withoutOptional.CapsuleFree :=
  Everywhere.withoutOptional structural_not_capsule h

theorem converted [Host] (hs : s.CapsuleFree) (ht : t.CapsuleFree) : (s.converted t).CapsuleFree :=
  (Aims.ofEverywhere structural_not_capsule ht).filledFrom structural_not_capsule rfl hs

theorem element (h : t.CapsuleFree) (he : t.elementType = .ok e) : e.CapsuleFree := by
  unfold elementType at he
  cases t <;> cases he <;> exact h.inside List.mem_cons_self

theorem unified [Host] {mode : Mode} {types : List Ty} {u : Unification}
    (h : ∀ t ∈ types, t.CapsuleFree) (hu : Unification.plan? mode types = some u) :
    u.target.CapsuleFree :=
  (Unification.common_target hu).everywhere structural_not_capsule
    (fun _ => rfl) h

theorem gathered [Host] {mode : Mode} {types : List Ty} {wanted : Ty}
    (h : ∀ t ∈ types, t.CapsuleFree) (hw : wanted.CapsuleFree)
    (he : Rule.Gathers mode types wanted e) : e.CapsuleFree := by
  cases he with
  | wanted => exact hw
  | common _ hu => exact unified h hu

end Ty.CapsuleFree

namespace Value

variable {v w : Value} {vs : List Value} {e t : Ty}

/-! ## Values without capsules -/

/-- There is no capsule in a value, and no capsule type in the types of its parts. -/
def CapsuleFree (v : Value) : Prop :=
  v.Everywhere fun w => w.ty.CapsuleFree

/-- A well-made value without capsules. -/
structure Sterile (v : Value) : Prop where
  wellMade : v.WellMade
  free : v.CapsuleFree

theorem Sterile.inside (h : v.Sterile) (hw : w ∈ v.content.parts) : w.Sterile :=
  ⟨h.wellMade.inside hw, h.free.inside hw⟩

theorem CapsuleFree.of_content (h : v.CapsuleFree) (hc : w.content = v.content) :
    w.CapsuleFree := by
  refine .intro ?_ fun x hx => ?_
  · rw [ty_of_content hc]
    exact h.here
  · rw [hc] at hx
    exact h.inside hx

theorem Sterile.withMarks (h : v.Sterile) (marks : MarkSet) : (v.withMarks marks).Sterile :=
  ⟨h.wellMade.withMarks marks, h.free.of_content rfl⟩

theorem Sterile.unmark (h : v.Sterile) : v.unmark.Sterile :=
  ⟨h.wellMade.unmark, h.free.of_content rfl⟩

theorem capsuleFree_leaf (h : v.ty.CapsuleFree) (hp : v.content.parts = []) : v.CapsuleFree :=
  .intro h fun w hw => by
    rw [hp] at hw
    cases hw

theorem sterile_null (ht : t.CapsuleFree) : (null t).Sterile := by
  refine ⟨wellMade_null t, capsuleFree_leaf ?_ rfl⟩
  simp only [null, bare, ty]
  exact ht

theorem sterile_unknown (ht : t.CapsuleFree) : (unknown t).Sterile :=
  ⟨wellMade_unknown t, capsuleFree_leaf ((ty_unknown t).symm ▸ ht) rfl⟩

theorem sterile_string (s : String) : (string s).Sterile := by
  refine ⟨wellMade_string s, capsuleFree_leaf ?_ rfl⟩
  simp only [string, bare, ty]
  exact (Ty.everywhere_leaf rfl).2 rfl

theorem sterile_number (n : Number) : (number n).Sterile := by
  refine ⟨wellMade_number n, capsuleFree_leaf ?_ rfl⟩
  simp only [number, bare, ty]
  exact (Ty.everywhere_leaf rfl).2 rfl

theorem sterile_bool (b : Bool) : (bool b).Sterile := by
  refine ⟨wellMade_bool b, capsuleFree_leaf ?_ rfl⟩
  simp only [bool, bare, ty]
  exact (Ty.everywhere_leaf rfl).2 rfl

theorem sterile_told (ht : t.CapsuleFree) (h : Refining.Told t v) : v.Sterile := by
  refine ⟨wellMade_told h, ?_⟩
  cases h with
  | untold => exact (sterile_unknown ht).free
  | only h =>
    refine .intro (h.ty.symm ▸ ht) fun w hw => ?_
    cases h with
    | null | number | emptySet | map => cases hw
    | list e n =>
      rw [List.eq_of_mem_replicate hw]
      exact (sterile_unknown (ht.inside List.mem_cons_self)).free
    | set e =>
      cases List.mem_singleton.1 hw
      exact (sterile_unknown (ht.inside List.mem_cons_self)).free
  | narrowed =>
    refine capsuleFree_leaf ?_ rfl
    simp only [refined, bare, ty]
    exact ht

/-! ## Constructors -/

theorem CapsuleFree.conformTo (h : v.CapsuleFree) (he : e.CapsuleFree) :
    (conformTo e v).CapsuleFree := by
  unfold Value.conformTo
  split
  · exact h
  · refine CapsuleFree.of_content (v := if v.isNull then null e else unknown e) ?_ rfl
    split
    · exact (sterile_null he).free
    · exact (sterile_unknown he).free

theorem CapsuleFree.unmarkDeep (h : v.CapsuleFree) : v.unmarkDeep.CapsuleFree := by
  induction h with
  | @intro v here inside ih =>
    refine .intro ((ty_unmarkDeep v).symm ▸ here) fun w hw => ?_
    obtain ⟨m, c⟩ := v
    cases c with
    | list | tuple =>
      rw [Value.unmarkDeep, unmarkDeepAll_eq_map] at hw
      obtain ⟨x, hx, rfl⟩ := List.mem_map.1 hw
      exact ih x hx
    | map | object =>
      rw [Value.unmarkDeep, unmarkDeepEntries_eq_mapValues, bare, content, Content.parts,
        values_mapValues] at hw
      obtain ⟨x, hx, rfl⟩ := List.mem_map.1 hw
      exact ih x hx
    | union =>
      rw [Value.unmarkDeep] at hw
      cases List.mem_singleton.1 hw
      exact ih _ List.mem_cons_self
    | set => exact inside w hw
    | _ => cases hw

/-- The elements that a new collection gets, and their type. -/
theorem sterile_conformed (hne : vs ≠ []) (hc : commonType? vs = some e)
    (h : ∀ v ∈ vs, v.Sterile) : e.CapsuleFree ∧ ∀ v ∈ vs, (conformTo e v).CapsuleFree := by
  obtain ⟨v, hv, rfl⟩ := exists_of_commonType? hc hne
  exact ⟨(h v hv).free.here, fun w hw => (h w hw).free.conformTo (h v hv).free.here⟩

theorem sterile_object {attributes : List (String × Value)}
    (h : ∀ v ∈ values attributes, v.Sterile) : (object attributes).Sterile := by
  have parts : ∀ v ∈ values (Ty.namedParts attributes), v.Sterile := fun v hv =>
    h v (mem_values_namedParts hv)
  refine ⟨wellMade_object fun v hv => (h v hv).wellMade, .intro ?_ fun v hv => (parts v hv).free⟩
  simp only [object, bare, ty]
  refine Ty.everywhere_object.2 ⟨rfl, fun a ha => ?_⟩
  rw [entryTypes_eq_mapValues, values_mapValues] at ha
  obtain ⟨v, hv, rfl⟩ := List.mem_map.1 ha
  exact (parts v hv).free.here

theorem sterile_tuple (h : ∀ v ∈ vs, v.Sterile) : (tuple vs).Sterile := by
  refine ⟨wellMade_tuple fun v hv => (h v hv).wellMade, .intro ?_ fun v hv => (h v hv).free⟩
  simp only [tuple, bare, ty]
  refine Ty.everywhere_tuple.2 ⟨rfl, fun a ha => ?_⟩
  obtain ⟨v, hv, rfl⟩ := mem_types.1 ha
  exact (h v hv).free.here

theorem sterile_union {name : String} (ht : t.CapsuleFree) (hv : v.Sterile)
    (h : union t name v = .ok w) : w.Sterile := by
  refine ⟨wellMade_union hv.wellMade h, ?_⟩
  obtain ⟨variants, wanted, rfl, -, -, rfl⟩ := eq_of_union_ok h
  refine .intro ?_ fun x hx => ?_
  · simp only [bare, ty]
    exact ht
  · cases List.mem_singleton.1 hx
    exact hv.free

theorem sterile_emptyMap (he : e.CapsuleFree) : (emptyMap e).Sterile := by
  refine ⟨wellMade_emptyMap e, capsuleFree_leaf ?_ rfl⟩
  simp only [emptyMap, bare, ty]
  exact Ty.everywhere_map.2 ⟨rfl, he⟩

theorem sterile_emptyCollection {kind : CollectionKind} {wanted source : Ty}
    (hw : wanted.CapsuleFree) (hs : source.CapsuleFree) :
    (emptyCollection kind wanted source).Sterile := by
  have he : (if wanted = .dynamic then source else wanted.withoutOptional).CapsuleFree := by
    split
    · exact hs
    · exact hw.withoutOptional
  unfold emptyCollection
  generalize (if wanted = .dynamic then source else wanted.withoutOptional) = e at he ⊢
  cases kind
  · refine ⟨wellMade_emptyList e, capsuleFree_leaf ?_ rfl⟩
    simp only [emptyList, bare, ty]
    exact Ty.everywhere_list.2 ⟨rfl, he⟩
  · refine ⟨wellMade_emptySet e, capsuleFree_leaf ?_ rfl⟩
    simp only [emptySet, bare, ty]
    exact Ty.everywhere_set.2 ⟨rfl, he⟩
  · exact sterile_emptyMap he

variable [Host]

theorem sterile_list (hv : ∀ v ∈ vs, v.Sterile) (h : list vs = .ok w) : w.Sterile := by
  refine ⟨wellMade_list (fun v hm => (hv v hm).wellMade) h, ?_⟩
  obtain ⟨e, hne, hc, rfl⟩ := list_eq_ok h
  obtain ⟨he, parts⟩ := sterile_conformed hne hc hv
  refine .intro ?_ (List.forall_mem_map.2 parts)
  simp only [bare, ty]
  exact Ty.everywhere_list.2 ⟨rfl, he⟩

theorem sterile_set (hv : ∀ v ∈ vs, v.Sterile) (h : set vs = .ok w) : w.Sterile := by
  refine ⟨wellMade_set (fun v hm => (hv v hm).wellMade) h, ?_⟩
  obtain ⟨e, hne, hc, rfl⟩ := set_eq_ok h
  obtain ⟨he, parts⟩ := sterile_conformed hne hc hv
  refine .intro ?_ fun x hx => ?_
  · rw [ty_setOf]
    exact Ty.everywhere_set.2 ⟨rfl, he⟩
  · rw [content_setOf] at hx
    obtain ⟨y, hy, rfl⟩ := List.mem_map.1 (RuleSet.mem_of_mem_ofList hx)
    obtain ⟨z, hz, rfl⟩ := List.mem_map.1 hy
    exact (parts z hz).unmarkDeep

theorem sterile_map {entries : List (String × Value)} (hv : ∀ v ∈ values entries, v.Sterile)
    (h : map entries = .ok w) : w.Sterile := by
  refine ⟨wellMade_map (fun v hm => (hv v hm).wellMade) h, ?_⟩
  rw [map] at h
  obtain ⟨e, he, h⟩ := bind_eq_ok h
  cases h
  obtain ⟨hne, hc⟩ := elementTypeFor_eq_ok he
  obtain ⟨he, parts⟩ := sterile_conformed hne hc fun v hm => hv v (mem_values_namedParts hm)
  refine .intro ?_ ?_
  · simp only [bare, ty]
    exact Ty.everywhere_map.2 ⟨rfl, he⟩
  · rw [bare, content, Content.parts, values_mapValues]
    exact List.forall_mem_map.2 parts

omit [Host] in
theorem follows_tellNull {s s' : Refining} (h : tellNull v s = .ok s') : s.Follows s' := by
  unfold tellNull at h
  split at h
  · exact Refining.follows_notNull h
  · cases h
    exact .refl s

omit [Host] in
theorem follows_tellLength {s s' : Refining} (h : tellLength v t s = .ok s') : s.Follows s' := by
  unfold tellLength at h
  split at h
  · obtain ⟨raised, hr, h⟩ := bind_eq_ok h
    refine (Refining.follows_lengthAtLeast hr).trans ?_
    split at h
    · exact Refining.follows_lengthAtMost h
    · cases h
      exact .refl _
  · cases h
    exact .refl s

/-- An unknown is told to be of the new type. -/
theorem told_convertUnknown {s : Ty} {r : Refinement}
    (h : (bare (.unknown s r)).convertUnknown t = .ok w) :
    Refining.Told (s.converted t) w := by
  by_cases open_ : (s.isDynamic || (s.converted t).isDynamic) = true
  · rw [convertUnknown_of_dynamic open_] at h
    cases h
    exact .untold
  · rw [convertUnknown_of_not_dynamic open_] at h
    obtain ⟨s', hs', h⟩ := bind_eq_ok h
    obtain ⟨s'', hs'', h⟩ := bind_eq_ok h
    exact Refining.told_of_follows ((follows_tellNull hs').trans (follows_tellLength hs'')) h

end Value

/-! ## Parts that are converted -/

/-- A conversion that is planned between types without capsules. -/
def Conversion.Sterile [Host] (c : Conversion) : Prop :=
  ∃ mode s t, Conversion.Leads mode s t c ∧ s.CapsuleFree ∧ t.CapsuleFree

theorem Conversion.sterile_of_plan? [Host] {mode : Mode} {s t : Ty} {c : Conversion}
    (h : Conversion.plan? mode s t = some c) (hs : s.CapsuleFree) (ht : t.CapsuleFree) :
    c.Sterile :=
  ⟨mode, s, t, .planned h, hs, ht⟩

/-- The conversions of parts are planned too. They keep away from capsules if the whole does. -/
theorem Rule.Planned.plans [Host] {mode : Mode} {s t : Ty} {rule : Rule Conversion}
    {c : Conversion} (h : Rule.Planned mode s t rule) (hc : c ∈ rule.conversions) :
    ∃ mode' s' t', Conversion.plan? mode' s' t' = some c ∧
      (s.CapsuleFree → t.CapsuleFree → s'.CapsuleFree ∧ t'.CapsuleFree) := by
  have named {sources targets : List (String × Ty)} {plans : List (String × Conversion)}
      (h : Paired (fun name s c => ∃ t, targets.lookup name = some t ∧
        Conversion.plan? mode s t = some c) sources plans) (hc : c ∈ values plans) :
      ∃ s' t', Conversion.plan? mode s' t' = some c ∧ s' ∈ values sources ∧
        t' ∈ values targets := by
    obtain ⟨name, hm⟩ := exists_of_mem_values hc
    obtain ⟨s', hs', t', found, hp⟩ := h.mem_right hm
    exact ⟨s', t', hp, mem_values hs', mem_values (mem_of_lookup found)⟩
  cases h with
  | toDynamic | later | same | emptyMap | primitive => cases hc
  | object h =>
    obtain ⟨name, hm⟩ := exists_of_mem_values hc
    obtain ⟨s', t', found, ht', hp⟩ := h.converted name c hm
    exact ⟨mode, s', t', hp, fun hs ht =>
      ⟨hs.ofAttribute (mem_of_lookup found), ht.ofAttribute ht'⟩⟩
  | tuple _ h =>
    obtain ⟨⟨s', t'⟩, hm, hp⟩ := exists_left_of_forall₂ h hc
    obtain ⟨hs', ht'⟩ := List.of_mem_zip hm
    exact ⟨mode, s', t', hp, fun hs ht => ⟨hs.ofItem hs', ht.ofItem ht'⟩⟩
  | items _ from_ hp =>
    cases List.mem_singleton.1 hc
    refine ⟨mode, _, _, hp, fun hs ht => ⟨?_, (Ty.everywhere_collection.1 ht).2⟩⟩
    rcases from_ with rfl | rfl <;> exact hs.inside List.mem_cons_self
  | mapItems hp =>
    cases List.mem_singleton.1 hc
    exact ⟨mode, _, _, hp, fun hs ht =>
      ⟨hs.inside List.mem_cons_self, ht.inside List.mem_cons_self⟩⟩
  | gather _ he h =>
    obtain ⟨s', hs', hp⟩ := exists_left_of_forall₂ h hc
    exact ⟨mode, s', _, hp, fun hs ht => ⟨hs.ofItem hs',
      Ty.CapsuleFree.gathered (fun _ => hs.ofItem) (Ty.everywhere_collection.1 ht).2 he⟩⟩
  | entries _ he h =>
    obtain ⟨name, hm⟩ := exists_of_mem_values hc
    obtain ⟨s', hs', hp⟩ := h.mem_right hm
    exact ⟨mode, s', _, hp, fun hs ht => ⟨hs.ofAttribute hs',
      Ty.CapsuleFree.gathered (fun _ hm => hs.inside hm) (ht.inside List.mem_cons_self) he⟩⟩
  | pick _ h =>
    obtain ⟨name, hm⟩ := exists_of_mem_values hc
    obtain ⟨t', ht', hp⟩ := h.mem_right hm
    exact ⟨.lenient, _, t', hp, fun hs ht =>
      ⟨hs.inside List.mem_cons_self, ht.ofAttribute ht'⟩⟩
  | union h | select _ _ h =>
    obtain ⟨s', t', hp, hs', ht'⟩ := named h hc
    exact ⟨mode, s', t', hp, fun hs ht => ⟨hs.inside hs', ht.inside ht'⟩⟩
  | ofCapsules _ _ h =>
    obtain ⟨-, ⟨_, accept, -, -, rfl⟩ | ⟨_, offer, -, -, rfl⟩⟩ := Rule.ofCapsules?_eq_some h <;>
      cases hc

theorem Rule.Planned.sterile_conversions [Host] {mode : Mode} {s t : Ty} {rule : Rule Conversion}
    (h : Rule.Planned mode s t rule) (hs : s.CapsuleFree) (ht : t.CapsuleFree) :
    ∀ c ∈ rule.conversions, c.Sterile := by
  intro c hc
  obtain ⟨mode', s', t', hp, free⟩ := h.plans hc
  exact Conversion.sterile_of_plan? hp (free hs ht).1 (free hs ht).2

/-- The runs of parts keep a property of values. -/
def Runner.Keeps [Host] (P : Value → Prop) (run : Runner) : Prop :=
  ∀ {c : Conversion} {v w : Value} {path : Path} {site : List Nat}, c.Sterile → P v →
    run c v path site = .ok w → P w

/-- The runs of parts take well-made values without capsules to such values. -/
def Runner.Sterile [Host] (run : Runner) : Prop :=
  run.Keeps Value.Sterile

/-- A value is the result of a part of `v` and a conversion among some. -/
def ResultOf (run : Runner) (v : Value) (among : Conversion → Prop) (w : Value) : Prop :=
  ∃ x c path site, x ∈ v.content.parts ∧ among c ∧ run c x path site = .ok w

section

variable {run : Runner} {path : Path} {site : List Nat} {v w : Value} {among : Conversion → Prop}

theorem Runner.resultOf_runAll {plans : List PartPlan} {results : List Value}
    (hp : ∀ p ∈ plans, p.part ∈ v.content.parts ∧ among p.conversion)
    (h : run.runAll site plans = .ok results) : ∀ w ∈ results, ResultOf run v among w := by
  intro w hw
  obtain ⟨p, hm, site, hr⟩ := exists_left_of_forall₂ (Runner.runAll_ok h) hw
  exact ⟨p.part, p.conversion, p.path, site, (hp p hm).1, (hp p hm).2, hr⟩

theorem resultOf_convertTuple {conversions : List Conversion} {results : List Value}
    (h : convertTuple run conversions v path site = .ok results) :
    ∀ w ∈ results, ResultOf run v (· ∈ conversions) w := by
  unfold convertTuple at h
  obtain ⟨elements, he, h⟩ := bind_eq_ok h
  refine Runner.resultOf_runAll (fun p hp => ?_) h
  obtain ⟨⟨element, c⟩, hm, rfl⟩ := List.mem_map.1 hp
  obtain ⟨hx, hc⟩ := List.of_mem_zip hm
  exact ⟨(Value.elements_eq_ok (orFailure_eq_ok he) hx).1, hc⟩

/-- Named elements are parts. -/
theorem mem_parts_of_namedElements {elements : List (String × Value × Value)}
    (h : v.namedElements = .ok elements) : ∀ x ∈ elements, x.2.2 ∈ v.content.parts := by
  intro x hx
  obtain ⟨es, he, h⟩ := bind_eq_ok h
  obtain ⟨y, hy, hr⟩ := exists_left_of_forall₂ (forall₂_of_mapM_ok h) hx
  obtain ⟨name, -, rfl⟩ := map_eq_ok (orFailure_eq_ok hr)
  exact (Value.elements_eq_ok (orFailure_eq_ok he) hy).1

theorem resultOf_convertNamed {conversions : List (String × Conversion)}
    {locate : String → Value → Path} {results : List (String × Value)}
    (h : convertNamed run conversions locate v site = .ok results) :
    ∀ w ∈ values results, ResultOf run v (· ∈ values conversions) w := by
  unfold convertNamed at h
  obtain ⟨elements, he, h⟩ := bind_eq_ok h
  obtain ⟨ws, hr, h⟩ := bind_eq_ok h
  cases h
  intro w hw
  refine Runner.resultOf_runAll (fun p hp => ?_) hr w ?_
  · obtain ⟨⟨name, plan⟩, hm, rfl⟩ := List.mem_map.1 hp
    obtain ⟨⟨key, part⟩, hx, eq⟩ := List.mem_filterMap.1 hm
    obtain ⟨c, hc, eq⟩ := Option.map_eq_some_iff.1 eq
    cases eq
    exact ⟨mem_parts_of_namedElements he _ hx, mem_values (mem_of_lookup hc)⟩
  · obtain ⟨⟨name, x⟩, hm, rfl⟩ := List.mem_map.1 hw
    exact (List.of_mem_zip hm).2

/-- A variant is chosen among the elements. -/
theorem part_of_select {chosen : Option (String × Value)} {elements : List (Value × Value)}
    {name : String} {part : Value}
    (h : select path chosen elements = .ok (.variant name part)) :
    chosen = some (name, part) ∨ ∃ x ∈ elements, x.2 = part := by
  induction elements generalizing chosen with
  | nil =>
    cases chosen with
    | none => cases h
    | some chosen =>
      cases h
      exact .inl rfl
  | cons element elements ih =>
    obtain ⟨key, x⟩ := element
    have later : (∃ y ∈ elements, y.2 = part) → ∃ y ∈ (key, x) :: elements, y.2 = part :=
      fun ⟨y, hy, eq⟩ => ⟨y, List.mem_cons_of_mem _ hy, eq⟩
    rw [select] at h
    split at h
    · cases h
    split at h
    · exact (ih h).imp_right later
    · obtain ⟨other, -, h⟩ := bind_eq_ok h
      cases chosen with
      | some => cases h
      | none =>
        rcases ih h with h | h
        · cases h
          exact .inr ⟨_, List.mem_cons_self, rfl⟩
        · exact .inr (later h)

end

variable [Host] {run : Runner} {path : Path} {site : List Nat} {v w : Value} {mode : Mode}

/-- A property of values without capsules that parts have too, whatever the marks, and that
constructors give to what they make of such parts. -/
structure Value.Heritable (P : Value → Prop) : Prop where
  free {v : Value} : P v → v.ty.CapsuleFree
  inside {v w : Value} : P v → w ∈ v.content.parts → P w
  of_content {v w : Value} : P v → w.content = v.content → P w
  null {t : Ty} : t.CapsuleFree → P (.null t)
  told {t : Ty} {v : Value} : t.CapsuleFree → Refining.Told t v → P v
  string (s : String) : P (.string s)
  number (n : Number) : P (.number n)
  bool (b : Bool) : P (.bool b)
  empty {kind : CollectionKind} {wanted source : Ty} : wanted.CapsuleFree → source.CapsuleFree →
    P (emptyCollection kind wanted source)
  list {vs : List Value} {w : Value} : (∀ v ∈ vs, P v) → Value.list vs = .ok w → P w
  set {vs : List Value} {w : Value} : (∀ v ∈ vs, P v) → Value.set vs = .ok w → P w
  map {entries : List (String × Value)} {w : Value} : (∀ v ∈ values entries, P v) →
    Value.map entries = .ok w → P w
  object {attributes : List (String × Value)} : (∀ v ∈ values attributes, P v) →
    P (.object attributes)
  tuple {vs : List Value} : (∀ v ∈ vs, P v) → P (.tuple vs)
  union {t : Ty} {name : String} {v w : Value} : t.CapsuleFree → P v →
    Value.union t name v = .ok w → P w

theorem Value.heritable_sterile : Heritable Sterile where
  free h := h.free.here
  inside h := h.inside
  of_content h hc := ⟨h.wellMade.of_content hc, h.free.of_content hc⟩
  null := sterile_null
  told := sterile_told
  string := sterile_string
  number := sterile_number
  bool := sterile_bool
  empty := sterile_emptyCollection
  list := sterile_list
  set := sterile_set
  map := sterile_map
  object := sterile_object
  tuple := sterile_tuple
  union := sterile_union

/-- The conversions of a unification of types without capsules. -/
theorem Unification.sterile {types : List Ty} {u : Unification} {c : Conversion}
    (ht : ∀ t ∈ types, t.CapsuleFree) (hu : Unification.plan? mode types = some u)
    (hc : some c ∈ u.conversions) : c.Sterile := by
  obtain ⟨s, hs, leads⟩ := Unification.leads_of_conversion hu hc
  exact ⟨mode, s, u.target, leads, ht s hs, .unified ht hu⟩

variable {P : Value → Prop}

theorem ResultOf.inherits {among : Conversion → Prop} (hP : Value.Heritable P) (hrun : run.Keeps P)
    (hv : P v) (hc : ∀ c, among c → c.Sterile) (h : ResultOf run v among w) : P w := by
  obtain ⟨x, c, path, site, hx, ha, hr⟩ := h
  exact hrun (hc c ha) (hP.inside hv hx) hr

theorem ResultOf.sterile {among : Conversion → Prop} (hrun : run.Sterile) (hv : v.Sterile)
    (hc : ∀ c, among c → c.Sterile) (h : ResultOf run v among w) : w.Sterile :=
  h.inherits Value.heritable_sterile hrun hv hc

section

variable (hP : Value.Heritable P) (hrun : run.Keeps P)

include hP hrun

theorem homogenize_keeps {kind : CollectionKind} {vs ws : List Value} (hv : ∀ v ∈ vs, P v)
    (h : homogenize run kind mode path site vs = .ok ws) : ∀ w ∈ ws, P w := by
  unfold homogenize at h
  split at h
  · cases h
    exact hv
  split at h
  · cases h
  rename_i u hu
  obtain ⟨second, hs, h⟩ := bind_eq_ok h
  split at h
  · cases h
    have free : ∀ t ∈ Value.types vs, t.CapsuleFree := fun t ht => by
      obtain ⟨v, hm, rfl⟩ := Value.mem_types.1 ht
      exact hP.free (hv v hm)
    intro w hw
    obtain ⟨⟨v, c?⟩, hm, hr⟩ := exists_left_of_forall₂ (Runner.runSecond_ok hs) hw
    obtain ⟨inside, chosen⟩ := List.of_mem_zip hm
    rcases hr with ⟨-, rfl⟩ | ⟨c, site, rfl, hr⟩
    · exact hv _ inside
    · exact hrun (Unification.sterile free hu chosen) (hv _ inside) hr
  · cases h

/-! ## Collections -/

omit hrun in
/-- A new list or set, as the rules make it. -/
theorem collection_keeps {kind : CollectionKind} {vs : List Value} (hv : ∀ v ∈ vs, P v)
    (h : (if kind = .set then orFailure (Value.set vs) else orFailure (Value.list vs)) = .ok w) :
    P w := by
  split at h
  · exact hP.set hv (orFailure_eq_ok h)
  · exact hP.list hv (orFailure_eq_ok h)

theorem convertItems_keeps {kind : CollectionKind} {wanted : Ty} {c : Conversion} (hc : c.Sterile)
    (ht : wanted.CapsuleFree) (hv : P v)
    (h : convertItems run kind mode c wanted v path site = .ok w) : P w := by
  unfold convertItems at h
  obtain ⟨elements, he, h⟩ := bind_eq_ok h
  obtain ⟨vs, hr, h⟩ := bind_eq_ok h
  have first : ∀ v ∈ vs, P v := fun x hx => by
    refine ResultOf.inherits hP hrun hv (fun d (eq : d = c) => eq ▸ hc)
      (Runner.resultOf_runAll (fun p hp => ?_) hr x hx)
    obtain ⟨y, hy, rfl⟩ := List.mem_map.1 hp
    exact ⟨(Value.elements_eq_ok (orFailure_eq_ok he) hy).1, rfl⟩
  split at h
  · obtain ⟨e, he, h⟩ := bind_eq_ok h
    cases h
    exact hP.empty ht ((hP.free hv).element (orFailure_eq_ok he))
  · obtain ⟨second, hh, h⟩ := bind_eq_ok h
    exact collection_keeps hP (homogenize_keeps hP hrun first hh) h

theorem convertEntries_keeps {wanted : Ty} {c : Conversion} (hc : c.Sterile)
    (ht : wanted.CapsuleFree) (hv : P v)
    (h : convertEntries run mode c wanted v path site = .ok w) : P w := by
  unfold convertEntries at h
  obtain ⟨elements, he, h⟩ := bind_eq_ok h
  obtain ⟨vs, hr, h⟩ := bind_eq_ok h
  have first : ∀ v ∈ vs, P v := fun x hx => by
    refine ResultOf.inherits hP hrun hv (fun d (eq : d = c) => eq ▸ hc)
      (Runner.resultOf_runAll (fun p hp => ?_) hr x hx)
    obtain ⟨y, hy, rfl⟩ := List.mem_map.1 hp
    exact ⟨mem_parts_of_namedElements he y hy, rfl⟩
  split at h
  · obtain ⟨e, he, h⟩ := bind_eq_ok h
    cases h
    exact hP.empty ht ((hP.free hv).element (orFailure_eq_ok he))
  · obtain ⟨second, hh, h⟩ := bind_eq_ok h
    refine hP.map (fun x hx => ?_) (orFailure_eq_ok h)
    obtain ⟨⟨name, y⟩, hm, rfl⟩ := List.mem_map.1 hx
    exact homogenize_keeps hP hrun first hh _ (List.of_mem_zip hm).2

end

/-! ## Rules -/

namespace Rule

variable {s t : Ty}

theorem primitive_keeps (hP : Value.Heritable P) {rule : PrimitiveRule}
    (h : rule.apply v path = .ok w) : P w := by
  cases rule with
  | numberToString | boolToString =>
    obtain ⟨x, -, rfl⟩ := map_eq_ok (orFailure_eq_ok h)
    exact hP.string _
  | stringToNumber =>
    obtain ⟨x, -, h⟩ := bind_eq_ok h
    rw [numberOfText, Value.parseNumber] at h
    cases hn : Number.parse x with
    | error e =>
      rw [hn] at h
      cases e <;> cases h
    | ok n =>
      rw [hn] at h
      cases h
      exact hP.number n
  | stringToBool =>
    obtain ⟨x, -, h⟩ := bind_eq_ok h
    unfold boolOfText at h
    repeat' split at h
    all_goals
      cases h <;> exact hP.bool _

section

variable (hP : Value.Heritable P) (hrun : run.Keeps P)

include hP hrun

theorem convertVariant_keeps {plans : List (String × Conversion)} {name : String} {part : Value}
    {complaint : Complaint} (ht : t.CapsuleFree) (hc : ∀ c ∈ values plans, c.Sterile) (hv : P part)
    (h : convertVariant run plans t name part complaint path site = .ok w) : P w := by
  unfold convertVariant at h
  split at h
  · cases h
  · rename_i c found
    obtain ⟨y, hr, h⟩ := bind_eq_ok h
    exact hP.union ht (hrun (hc c (mem_values (mem_of_lookup found))) hv hr) (orFailure_eq_ok h)

theorem convertSelection_keeps {plans : List (String × Conversion)} (ht : t.CapsuleFree)
    (hc : ∀ c ∈ values plans, c.Sterile) (hv : P v)
    (h : convertSelection run plans t v path site = .ok w) : P w := by
  unfold convertSelection at h
  obtain ⟨elements, he, h⟩ := bind_eq_ok h
  obtain ⟨selection, hs, h⟩ := bind_eq_ok h
  cases selection with
  | undecided =>
    obtain ⟨s, hs, h⟩ := bind_eq_ok (orFailure_eq_ok h)
    exact hP.told ht (Refining.told_of_follows (Refining.follows_notNull hs) h)
  | variant name part =>
    obtain ⟨x, hx, rfl⟩ := (part_of_select hs).resolve_left (by intro h; cases h)
    exact convertVariant_keeps hP hrun ht hc
      (hP.inside hv (Value.elements_eq_ok (orFailure_eq_ok he) hx).1) h

/-- Objects are made of converted attributes and of nulls for those that are missing. -/
theorem object_keeps {absent : List (String × Ty)} {plans : List (String × Conversion)}
    (hc : ∀ c ∈ values plans, c.Sterile) (ha : ∀ a ∈ values absent, a.CapsuleFree) (hv : P v)
    (hw : Rule.apply run (.object plans absent) t v path site = .ok w) : P w := by
  obtain ⟨converted, hr, hw⟩ := bind_eq_ok hw
  cases hw
  refine hP.object fun y hy => ?_
  rw [values_append, List.mem_append, values_mapValues] at hy
  rcases hy with hy | hy
  · exact (resultOf_convertNamed hr y hy).inherits hP hrun hv hc
  · obtain ⟨a, hm, rfl⟩ := List.mem_map.1 hy
    exact hP.null (ha a hm)

theorem pick_keeps {targets : List (String × Ty)} {optional : List String}
    {plans : List (String × Conversion)} (hc : ∀ c ∈ values plans, c.Sterile)
    (ht : ∀ name t, (name, t) ∈ targets → t.CapsuleFree) (hv : P v)
    (hw : Rule.apply run (.pick plans targets optional) t v path site = .ok w) : P w := by
  obtain ⟨converted, hr, hw⟩ := bind_eq_ok hw
  obtain ⟨missing, hm, hw⟩ := bind_eq_ok hw
  cases hw
  refine hP.object fun y hy => ?_
  rw [values_append, List.mem_append] at hy
  rcases hy with hy | hy
  · exact (resultOf_convertNamed hr y hy).inherits hP hrun hv hc
  · rw [missingAttributes_ok hm] at hy
    obtain ⟨name, hy⟩ := exists_of_mem_values hy
    obtain ⟨a, ha, eq⟩ := List.mem_map.1 hy
    cases eq
    exact hP.null (ht a.1 a.2 (List.mem_filter.1 ha).1).withoutOptional

theorem tuple_keeps {plans : List Conversion} (hc : ∀ c ∈ plans, c.Sterile) (hv : P v)
    (hw : Rule.apply run (.tuple plans) t v path site = .ok w) : P w := by
  obtain ⟨results, hr, hw⟩ := bind_eq_ok hw
  cases hw
  exact hP.tuple fun y hy => (resultOf_convertTuple hr y hy).inherits hP hrun hv hc

/-- The elements of a tuple are gathered in a collection of what they have in common. -/
theorem gather_keeps {e : Ty} {kind : CollectionKind} {plans : List Conversion}
    (hc : ∀ c ∈ plans, c.Sterile) (he : e.CapsuleFree) (hv : P v)
    (hw : Rule.apply run (.gather kind mode plans e) t v path site = .ok w) : P w := by
  obtain ⟨results, hr, hw⟩ := bind_eq_ok hw
  split at hw
  · cases hw
    exact hP.empty he he.withoutOptional
  · obtain ⟨second, hh, hw⟩ := bind_eq_ok hw
    refine collection_keeps hP (homogenize_keeps hP hrun (fun y hy => ?_) hh) hw
    exact (resultOf_convertTuple hr y hy).inherits hP hrun hv hc

theorem entries_keeps {plans : List (String × Conversion)} (hc : ∀ c ∈ values plans, c.Sterile)
    (hv : P v) (hw : Rule.apply run (.entries mode plans) t v path site = .ok w) : P w := by
  obtain ⟨converted, hr, hw⟩ := bind_eq_ok hw
  obtain ⟨second, hh, hw⟩ := bind_eq_ok hw
  refine hP.map (fun y hy => ?_) (orFailure_eq_ok hw)
  obtain ⟨⟨name, x⟩, hm, rfl⟩ := List.mem_map.1 hy
  refine homogenize_keeps hP hrun (fun y hy => ?_) hh _ (List.of_mem_zip hm).2
  exact (resultOf_convertNamed hr y hy).inherits hP hrun hv hc

/-- A planned rule keeps what constructors keep, if the runs of parts do. -/
theorem Planned.apply_keeps {rule : Rule Conversion} (h : Planned mode s t rule)
    (hs : s.CapsuleFree) (ht : t.CapsuleFree) (hv : P v)
    (hw : rule.apply run t v path site = .ok w) : P w := by
  have hc := h.sterile_conversions hs ht
  cases h with
  | toDynamic | later | same =>
    cases hw
    exact hv
  | object h =>
    refine object_keeps hP hrun hc (fun a ha => ?_) hv hw
    obtain ⟨name, ha⟩ := exists_of_mem_values ha
    obtain ⟨-, -, t, ht', rfl⟩ := h.missing name a ha
    exact Ty.CapsuleFree.withoutOptional (ht.ofAttribute ht')
  | tuple => exact tuple_keeps hP hrun hc hv hw
  | items hk =>
    obtain ⟨-, -, hw⟩ := bind_eq_ok hw
    rw [if_neg hk] at hw
    exact convertItems_keeps hP hrun (hc _ List.mem_cons_self) (Ty.everywhere_collection.1 ht).2
      hv hw
  | mapItems =>
    obtain ⟨-, -, hw⟩ := bind_eq_ok hw
    exact convertEntries_keeps hP hrun (hc _ List.mem_cons_self) (ht.inside List.mem_cons_self)
      hv hw
  | gather _ he =>
    exact gather_keeps hP hrun hc
      (Ty.CapsuleFree.gathered (fun _ => hs.ofItem) (Ty.everywhere_collection.1 ht).2 he) hv hw
  | @emptyMap _ wanted =>
    cases hw
    have target : wanted.CapsuleFree := ht.inside List.mem_cons_self
    exact @Value.Heritable.empty _ _ hP .map .dynamic _ ((Ty.everywhere_leaf rfl).2 rfl)
      target.withoutOptional
  | entries => exact entries_keeps hP hrun hc hv hw
  | pick => exact pick_keeps hP hrun hc (fun _ _ => ht.ofAttribute) hv hw
  | union =>
    obtain ⟨⟨name, part⟩, found, hw⟩ := bind_eq_ok hw
    exact convertVariant_keeps hP hrun ht hc
      (hP.inside hv (Value.variant_eq_ok (orFailure_eq_ok found))) hw
  | select => exact convertSelection_keeps hP hrun ht hc hv hw
  | primitive => exact primitive_keeps hP hw
  | ofCapsules _ capsule =>
    rcases capsule with capsule | capsule
    · rw [hs.here] at capsule
      cases capsule
    · rw [ht.here] at capsule
      cases capsule

theorem Planned.applyDecided_keeps {rule : Rule Conversion} (h : Planned mode s t rule)
    (hs : s.CapsuleFree) (ht : t.CapsuleFree) (hv : P v)
    (hw : rule.applyDecided run t v path site = .ok w) : P w := by
  rcases applyDecided_ok hw with ⟨-, hw⟩ | ⟨-, later, hr, hw⟩
  · exact h.apply_keeps hP hrun hs ht hv hw
  · exact (planned_of_between? hr).apply_keeps hP hrun (hP.free hv) ht hv hw

end

end Rule

/-! ## Runs -/

namespace Conversion

variable {c : Conversion}

/-- One step of a run. -/
theorem runWith_keeps (hP : Value.Heritable P) (hrun : run.Keeps P) (hc : c.Sterile) (hv : P v)
    (hw : c.runWith run v path site = .ok w) : P w := by
  obtain ⟨mode, s, t, leads, hs, ht⟩ := hc
  cases leads with
  | forget =>
    cases hw
    exact hP.of_content (hP.told ((Ty.everywhere_leaf rfl).2 rfl) .untold) rfl
  | planned hp =>
    obtain ⟨rule, rfl, planned⟩ := planned_of_plan? hp
    by_cases hd : t = .dynamic
    · cases hd
      cases hw
      exact hv
    have converted : (v.ty.converted t).CapsuleFree := (hP.free hv).converted ht
    cases known : v.isKnown with
    | false =>
      rw [runWith_unknown hd known] at hw
      obtain ⟨x, hx, rfl⟩ := map_eq_ok hw
      obtain ⟨r, hr⟩ := Value.unmark_of_unknown known
      rw [hr] at hx
      exact hP.of_content (hP.told converted (Value.told_convertUnknown (orFailure_eq_ok hx))) rfl
    | true =>
      cases null : v.isNull with
      | true =>
        rw [runWith_null hd null] at hw
        cases hw
        exact hP.of_content (hP.null converted) rfl
      | false =>
        rw [runWith_decided hd known null] at hw
        obtain ⟨x, hx, rfl⟩ := map_eq_ok hw
        refine hP.of_content (planned.applyDecided_keeps hP hrun hs ht ?_ hx) rfl
        exact hP.of_content hv rfl

/-- A run of a conversion between types without capsules keeps what constructors keep. -/
theorem run_keeps (hP : Value.Heritable P) (hc : c.Sterile) (hv : P v)
    (hw : c.run v path site = .ok w) : P w := by
  induction hn : v.height using Nat.strong_induction_on generalizing c v w path site with
  | _ n ih =>
    subst hn
    rw [run_eq] at hw
    refine runWith_keeps hP (fun hc hv hw => ?_) hc hv hw
    obtain ⟨lower, hw⟩ := runPart_ok hw
    exact ih _ lower hc hv hw rfl

/-- A run of a conversion between types without capsules makes well-made values without capsules of
such values. -/
theorem run_sterile (hc : c.Sterile) (hv : v.Sterile) (hw : c.run v path site = .ok w) :
    w.Sterile :=
  run_keeps Value.heritable_sterile hc hv hw

end Conversion

theorem Value.convert_sterile {t : Ty} (ht : t.CapsuleFree) (hv : v.Sterile)
    (hw : v.convert t site = .ok w) : w.Sterile := by
  unfold convert at hw
  split at hw
  · cases hw
    exact hv
  split at hw
  · rename_i c hp
    exact Conversion.run_sterile (Conversion.sterile_of_plan? hp hv.free.here ht) hv hw
  · cases hw

end ValueAlgebra
