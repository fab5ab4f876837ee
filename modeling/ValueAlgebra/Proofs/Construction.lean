import ValueAlgebra.Proofs.Scope
import ValueAlgebra.Proofs.SetElements

/-!
# Values that are made of parts within a scope

For each constructor of collections and structures: what it makes, that this is within a scope if
the parts are, and how high it is. A collection takes the type that its elements share. Nulls and
unknowns of unknown type take this type too.

Main statements:

* `Value.list_eq_ok`, `Value.set_eq_ok`, `Value.map_eq_ok`: what the constructors of collections
  make, where they succeed.
* `Value.Conformed`: the elements of a new collection, with `Value.conformed` for where they come
  from.
* `Value.union_eq_ok`, `Value.union_eq_error`: unions.
-/

namespace ValueAlgebra

open Entries Text

namespace Value

variable {S : Scope}

/-! ## The type that elements share -/

theorem commonTypeFrom?_spec {t e : Ty} {us : List Ty} (h : commonTypeFrom? t us = some e) :
    (t = .dynamic ∨ t = e) ∧ (∀ u ∈ us, u = .dynamic ∨ u = e) ∧ (e = t ∨ e ∈ us) := by
  induction us generalizing t with
  | nil =>
    cases h
    exact ⟨.inr rfl, by simp, .inl rfl⟩
  | cons u us ih =>
    rw [commonTypeFrom?] at h
    split at h
    · rename_i ht
      obtain ⟨hu, hus, he⟩ := ih h
      refine ⟨.inl ht, ?_, .inr ?_⟩
      · exact List.forall_mem_cons.2 ⟨hu, hus⟩
      · rcases he with rfl | he
        · exact List.mem_cons_self
        · exact List.mem_cons_of_mem _ he
    · split at h
      · rename_i ht hu
        obtain ⟨ht', hus, he⟩ := ih h
        have eq := ht'.resolve_left ht
        refine ⟨.inr eq, List.forall_mem_cons.2 ⟨?_, hus⟩, ?_⟩
        · rcases hu with hu | hu
          · exact .inl hu
          · exact .inr (hu ▸ eq)
        · exact he.imp_right (List.mem_cons_of_mem _)
      · cases h

theorem commonTypeFrom?_of_all {e : Ty} {us : List Ty} (h : ∀ u ∈ us, u = e) :
    commonTypeFrom? e us = some e := by
  induction us with
  | nil => rfl
  | cons u us ih =>
    have hu := h u List.mem_cons_self
    have rest := ih fun w hw => h w (List.mem_cons_of_mem _ hw)
    rw [commonTypeFrom?, hu, rest]
    simp

variable {vs : List Value} {e : Ty}

theorem ty_of_commonType? {v : Value} (h : commonType? vs = some e) (hv : v ∈ vs) :
    v.ty = .dynamic ∨ v.ty = e :=
  (commonTypeFrom?_spec h).2.1 v.ty (mem_types.2 ⟨v, hv, rfl⟩)

theorem exists_of_commonType? (h : commonType? vs = some e) (hne : vs ≠ []) :
    ∃ v ∈ vs, v.ty = e := by
  obtain ⟨-, all, eq | he⟩ := commonTypeFrom?_spec h
  · obtain ⟨v, hv⟩ := List.exists_mem_of_ne_nil _ hne
    refine ⟨v, hv, ?_⟩
    rcases all v.ty (mem_types.2 ⟨v, hv, rfl⟩) with hd | hd
    · rw [hd, eq]
    · exact hd
  · exact mem_types.1 he

/-- Values of one type share it. -/
theorem commonType?_of_all (hne : vs ≠ []) (h : ∀ v ∈ vs, v.ty = e) :
    commonType? vs = some e := by
  cases vs with
  | nil => cases hne rfl
  | cons v vs =>
    have hv := h v List.mem_cons_self
    rw [commonType?, types, commonTypeFrom?, if_pos rfl, hv]
    refine commonTypeFrom?_of_all fun u hu => ?_
    obtain ⟨w, hw, rfl⟩ := mem_types.1 hu
    exact h w (List.mem_cons_of_mem _ hw)

/-! ## Elements that take the type of the collection -/

theorem ty_conformTo {v : Value} (h : v.ty = .dynamic ∨ v.ty = e) : (conformTo e v).ty = e := by
  unfold conformTo
  split
  · rename_i keep
    rcases h with h | h
    · rcases keep with keep | keep
      · exact absurd h keep
      · rw [h, keep]
    · exact h
  · rw [ty_withMarks]
    split <;> simp only [null, unknown, refined, bare, ty]

theorem within_conformTo (hS : S.Closed) {v : Value} (he : e.Everywhere S.types)
    (h : v.Within S) : (conformTo e v).Within S := by
  unfold conformTo
  split
  · exact h
  · refine Within.withMarks ?_ _
    split
    · exact within_null he
    · exact within_unknown hS he

theorem height_conformTo (e : Ty) (v : Value) : (conformTo e v).height ≤ v.height := by
  unfold conformTo
  split
  · exact Nat.le_refl _
  · rw [height_withMarks]
    refine Nat.le_trans ?_ v.height_pos
    split <;> simp [null, unknown, refined, bare, height, Refinement.unconstrained]

/-- The elements of a collection of some type, within a scope. Heights are known only if the scope
is deep. -/
structure Conformed (S : Scope) (e : Ty) (n : Nat) (vs : List Value) : Prop where
  type : e.Everywhere S.types
  ty : ∀ v ∈ vs, v.ty = e
  within : ∀ v ∈ vs, v.Within S
  height : S.deep → ∀ v ∈ vs, v.height ≤ n

theorem conformed (hS : S.Closed) {n : Nat} (hne : vs ≠ []) (hc : commonType? vs = some e)
    (hv : ∀ v ∈ vs, v.Within S) (hn : S.deep → ∀ v ∈ vs, v.height ≤ n) :
    Conformed S e n (vs.map (conformTo e)) := by
  have he : e.Everywhere S.types := by
    obtain ⟨v, hm, rfl⟩ := exists_of_commonType? hc hne
    exact (hv v hm).ty hS
  refine ⟨he, ?_, ?_, fun hd => ?_⟩ <;> rw [List.forall_mem_map] <;> intro v hm
  · exact ty_conformTo (ty_of_commonType? hc hm)
  · exact within_conformTo hS he (hv v hm)
  · exact Nat.le_trans (height_conformTo e v) (hn hd v hm)

/-! ## Collections -/

theorem elementTypeFor_eq_ok {kind : CollectionKind} {describe : Except Fault String} {t : Ty}
    (h : elementTypeFor kind vs describe = .ok t) : vs ≠ [] ∧ commonType? vs = some t := by
  unfold elementTypeFor at h
  split at h
  · cases h
  · rename_i hne
    refine ⟨fun eq => hne (eq ▸ rfl), ?_⟩
    split at h
    · rename_i hc
      cases h
      exact hc
    · cases describe <;> cases h

theorem elementTypeFor_of_common {kind : CollectionKind} {describe : Except Fault String} {t : Ty}
    (hne : vs ≠ []) (hc : commonType? vs = some t) :
    elementTypeFor kind vs describe = .ok t := by
  have : vs.isEmpty = false := List.isEmpty_eq_false_iff.2 hne
  simp [elementTypeFor, this, hc]

theorem Conformed.list {n : Nat} (h : Conformed S e n vs) (hn : 0 < n) :
    (bare (.list e vs)).Within S ∧ (S.deep → (bare (.list e vs)).height ≤ n + 1) := by
  refine ⟨.list h.type h.ty h.within, fun hd => ?_⟩
  simp only [bare, Value.height]
  exact Nat.succ_le_succ (heightAll_le hn (h.height hd))

theorem Conformed.map {n : Nat} {entries : List (String × Value)}
    (h : Conformed S e n (values entries)) (hp : Names.Proper (names entries)) (hn : 0 < n) :
    (bare (.map e entries)).Within S ∧ (S.deep → (bare (.map e entries)).height ≤ n + 1) := by
  refine ⟨.map h.type hp h.ty h.within, fun hd => ?_⟩
  simp only [bare, Value.height]
  exact Nat.succ_le_succ (heightEntries_le hn (h.height hd))

/-! ## Structures and unions -/

/-- A variant of a union holds what fits it. -/
theorem eq_of_union_ok {t : Ty} {name : String} {v w : Value} (h : union t name v = .ok w) :
    ∃ variants wanted, t = .union variants ∧ variants.lookup (normalize name) = some wanted ∧
      v.Fits wanted ∧ w = bare (.union variants (normalize name) v) := by
  rw [union] at h
  cases t with
  | union variants =>
    simp only [Ty.unionVariants, Except.bind, bind] at h
    split at h
    · cases h
    · rename_i wanted found
      by_cases fits : v.Fits wanted
      · rw [Fits] at fits
        rw [if_pos fits] at h
        cases h
        exact ⟨variants, wanted, rfl, found, fits, rfl⟩
      · rw [Fits] at fits
        rw [if_neg fits] at h
        cases h
  | _ => cases h

theorem union_eq_ok {vs : List (String × Ty)} {name : String} {v w : Value}
    (hn : normalize name = name) (h : union (.union vs) name v = .ok w) :
    ∃ wanted, vs.lookup name = some wanted ∧ v.Fits wanted ∧ w = bare (.union vs name v) := by
  obtain ⟨variants, wanted, typed, found, fits, eq⟩ := eq_of_union_ok h
  cases typed
  rw [hn] at found eq
  exact ⟨wanted, found, fits, eq⟩

theorem union_of_fits {vs : List (String × Ty)} {name : String} {v : Value} {wanted : Ty}
    (hn : normalize name = name) (hw : vs.lookup name = some wanted) (hf : v.Fits wanted) :
    union (.union vs) name v = .ok (bare (.union vs name v)) := by
  unfold Fits at hf
  rw [union]
  simp only [Ty.unionVariants, hn, Except.bind, bind, hw, hf]
  rfl

theorem union_eq_error {vs : List (String × Ty)} {name : String} {v : Value} {wanted : Ty}
    {fault : Fault} (hn : normalize name = name) (hw : vs.lookup name = some wanted)
    (h : union (.union vs) name v = .error fault) :
    ¬ v.Fits wanted ∧ fault = .variantMismatch name wanted v.ty := by
  by_cases hf : v.Fits wanted
  · rw [union_of_fits hn hw hf] at h
    cases h
  · refine ⟨hf, ?_⟩
    unfold Fits at hf
    rw [union] at h
    simp only [Ty.unionVariants, hn, Except.bind, bind, hw, hf] at h
    cases h
    rfl

/-! ## Collections of a host -/

variable [Host]

theorem list_of_common (hne : vs ≠ []) (hc : commonType? vs = some e) :
    list vs = .ok (bare (.list e (vs.map (conformTo e)))) := by
  rw [list, elementTypeFor_of_common hne hc]
  rfl

theorem list_eq_ok {w : Value} (h : list vs = .ok w) :
    ∃ e, vs ≠ [] ∧ commonType? vs = some e ∧ w = bare (.list e (vs.map (conformTo e))) := by
  rw [list] at h
  cases ht : elementTypeFor .list vs ((describeAll vs).map fun ts =>
      "[" ++ Ty.commaSeparated ts ++ "]") with
  | error => rw [ht] at h; cases h
  | ok e =>
    rw [ht] at h
    cases h
    obtain ⟨hne, hc⟩ := elementTypeFor_eq_ok ht
    exact ⟨e, hne, hc, rfl⟩

theorem set_of_common (hne : vs ≠ []) (hc : commonType? vs = some e) :
    set vs = .ok (setOf e vs) := by
  rw [set, elementTypeFor_of_common hne hc]
  rfl

theorem set_eq_ok {w : Value} (h : set vs = .ok w) :
    ∃ e, vs ≠ [] ∧ commonType? vs = some e ∧ w = setOf e vs := by
  rw [set] at h
  cases ht : elementTypeFor .set vs ((describeAll vs).map fun ts =>
      "[" ++ Ty.commaSeparated ts ++ "]") with
  | error => rw [ht] at h; cases h
  | ok e =>
    rw [ht] at h
    cases h
    obtain ⟨hne, hc⟩ := elementTypeFor_eq_ok ht
    exact ⟨e, hne, hc, rfl⟩

/-- Entries with proper names are a map as they are. -/
theorem map_of_common {entries : List (String × Value)} (hp : Names.Proper (names entries))
    (hne : values entries ≠ []) (hc : commonType? (values entries) = some e) :
    map entries = .ok (bare (.map e (mapValues (conformTo e) entries))) := by
  rw [map, namedParts_of_proper hp, elementTypeFor_of_common hne hc]
  rfl

theorem map_eq_ok {entries : List (String × Value)} {w : Value}
    (hp : Names.Proper (names entries)) (h : map entries = .ok w) :
    ∃ e, values entries ≠ [] ∧ commonType? (values entries) = some e ∧
      w = bare (.map e (mapValues (conformTo e) entries)) := by
  rw [map, namedParts_of_proper hp] at h
  cases ht : elementTypeFor .map (values entries) ((describeEntries entries).map Ty.braced) with
  | error => rw [ht] at h; cases h
  | ok e =>
    rw [ht] at h
    cases h
    obtain ⟨hne, hc⟩ := elementTypeFor_eq_ok ht
    exact ⟨e, hne, hc, rfl⟩

theorem content_setOf (e : Ty) (vs : List Value) :
    (setOf e vs).content = .set e (RuleSet.ofList (ValueRules.mk e)
      ((vs.map (conformTo e)).map unmarkDeep)).values := by
  simp only [setOf, withMarks, ofRuleSet, bare, content, RuleSet.rules_ofList]

theorem ty_setOf (e : Ty) (vs : List Value) : (setOf e vs).ty = .set e := by
  rw [ty_of_content (w := bare (.set e _)) (content_setOf e vs), bare, ty]

theorem Conformed.setOf {n : Nat} (h : Conformed S e n (vs.map (conformTo e))) (hn : 0 < n) :
    (setOf e vs).Within S ∧ (S.deep → (setOf e vs).height ≤ n + 1) := by
  have parts : ∀ x ∈ (RuleSet.ofList (ValueRules.mk e)
      ((vs.map (conformTo e)).map unmarkDeep)).values,
      ∃ v ∈ vs.map (conformTo e), v.unmarkDeep = x := fun x hx =>
    List.mem_map.1 (RuleSet.mem_of_mem_ofList hx)
  have content := content_setOf e vs
  generalize (RuleSet.ofList (ValueRules.mk e)
    ((vs.map (conformTo e)).map unmarkDeep)).values = items at parts content
  constructor
  · refine Within.of_content (v := bare (.set e items)) ?_ content
    refine .set h.type (fun x hx => ?_) fun x hx => ?_ <;> obtain ⟨v, hv, rfl⟩ := parts x hx
    · rw [ty_unmarkDeep, h.ty v hv]
    · exact (h.within v hv).unmarkDeep
  · intro hd
    rw [height_of_content (w := bare (.set e items)) content]
    simp only [bare, Value.height]
    refine Nat.succ_le_succ (heightAll_le hn fun x hx => ?_)
    obtain ⟨v, hv, rfl⟩ := parts x hx
    rw [height_unmarkDeep]
    exact h.height hd v hv

end Value

end ValueAlgebra
