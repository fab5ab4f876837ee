import Mathlib
import ValueAlgebra.Path.Apply
import ValueAlgebra.Proofs.MarkFlow
import ValueAlgebra.Value.MarkPaths
import ValueAlgebra.Value.Set

/-!
# Well-made values

A value is well-made if it and all values inside of it keep to what the constructors promise
(`Content.WellMade`): elements have the type of their collection, the elements of sets have no
marks, names are canonical, the variant of a union may hold what it holds, and what is known about
an unknown fits its type and leaves more than one value. Marks apart, this hangs on contents alone.

Main statements:

* `Value.wellMade_list`, `Value.wellMade_set`, `Value.wellMade_map`, `Value.wellMade_object`,
  `Value.wellMade_union`: constructors make well-made values of well-made parts.
* `Value.WellMade.restrict`, `Value.WellMade.markAlong`: refining and marking.
* `Operation.wellMade_answer`, `Range.wellMade_includes`: answers of operations.
* `Step.wellMade_apply`, `Path.wellMade_apply`: parts that paths lead to.
-/

namespace ValueAlgebra

open Entries Text

/-! ## Well-made contents -/

/-- Names in order, each of them once and in canonical form. -/
structure Names.Normal (names : List String) : Prop where
  sorted : names.Pairwise (· < ·)
  canonical : ∀ name ∈ names, ∃ s, normalize s = name

/-- What a content keeps to, apart from what its parts keep to. -/
def Content.WellMade : Content → Prop
  | .unknown t r => r = .unconstrained ∨
      t ≠ .dynamic ∧ r.Apt t ∧ Refining.onlyResult? t r = .ok none
  | .list e items => ∀ v ∈ items, v.ty = e
  | .set e items => ∀ v ∈ items, v.ty = e ∧ v.containsMarked = false
  | .map e entries => Names.Normal (names entries) ∧ ∀ v ∈ values entries, v.ty = e
  | .object attributes => Names.Normal (names attributes)
  | .union variants variant inner =>
    ∃ wanted, variants.lookup variant = some wanted ∧ inner.Fits wanted
  | .capsule c p => p.native.kind = c.native
  | _ => True

/-- A value that keeps, with all values inside of it, to what the constructors promise. -/
def Value.WellMade (v : Value) : Prop :=
  v.Everywhere fun w => w.content.WellMade

theorem normal_namedParts {α : Type} (parts : List (String × α)) :
    Names.Normal (names (Ty.namedParts parts)) where
  sorted := sorted_ofList _
  canonical name hn := by
    rw [Ty.namedParts, mem_names_ofList] at hn
    obtain ⟨a, ha⟩ := exists_of_mem_names hn
    obtain ⟨part, -, eq⟩ := List.mem_map.1 ha
    exact ⟨part.1, congrArg Prod.fst eq⟩

namespace Value

variable {v w : Value} {vs : List Value} {e t : Ty}

theorem WellMade.of_content (h : v.WellMade) (hc : w.content = v.content) : w.WellMade := by
  refine .intro ?_ fun x hx => ?_
  · rw [hc]
    exact h.here
  · rw [hc] at hx
    exact h.inside hx

theorem WellMade.withMarks (h : v.WellMade) (marks : MarkSet) : (v.withMarks marks).WellMade :=
  h.of_content rfl

theorem WellMade.unmark (h : v.WellMade) : v.unmark.WellMade :=
  h.of_content rfl

/-! ## Values without parts -/

theorem wellMade_leaf (h : v.content.WellMade) (hp : v.content.parts = []) : v.WellMade :=
  .intro h fun w hw => by
    rw [hp] at hw
    cases hw

theorem wellMade_null (t : Ty) : (null t).WellMade :=
  wellMade_leaf trivial rfl

theorem wellMade_unknown (t : Ty) : (unknown t).WellMade :=
  wellMade_leaf (.inl rfl) rfl

theorem wellMade_number (n : Number) : (number n).WellMade :=
  wellMade_leaf trivial rfl

theorem wellMade_string (s : String) : (string s).WellMade :=
  wellMade_leaf trivial rfl

theorem wellMade_bool (b : Bool) : (bool b).WellMade :=
  wellMade_leaf trivial rfl

theorem wellMade_undecided : undecided.WellMade := by
  refine wellMade_leaf (.inr ⟨by simp, ?_, rfl⟩) rfl
  exact ⟨⟨fun _ => ⟨rfl, rfl⟩, fun _ => rfl, fun _ => ⟨rfl, rfl⟩⟩, ⟨.zero, rfl, rfl⟩, ⟨"", rfl⟩,
    Nat.zero_le _, Nat.le_refl _⟩

theorem wellMade_emptyList (e : Ty) : (emptyList e).WellMade :=
  wellMade_leaf (List.forall_mem_nil _) rfl

theorem wellMade_emptySet (e : Ty) : (emptySet e).WellMade :=
  wellMade_leaf (List.forall_mem_nil _) rfl

theorem wellMade_emptyMap (e : Ty) : (emptyMap e).WellMade :=
  wellMade_leaf ⟨⟨.nil, List.forall_mem_nil _⟩, List.forall_mem_nil _⟩ rfl

theorem ty_unknown (t : Ty) : (unknown t).ty = t := by
  simp only [unknown, refined, bare, ty]

theorem wellMade_only (h : Refining.Only t v) : v.WellMade := by
  cases h with
  | null => exact wellMade_null t
  | number n => exact wellMade_number n
  | list e n =>
    refine .intro (fun w hw => ?_) fun w hw => ?_
    all_goals rw [List.eq_of_mem_replicate hw]
    · exact ty_unknown e
    · exact wellMade_unknown e
  | emptySet e => exact wellMade_emptySet e
  | set e =>
    refine .intro (fun w hw => ?_) fun w hw => ?_
    all_goals rw [List.mem_singleton.1 hw]
    · exact ⟨ty_unknown e, unmarked_unknown e⟩
    · exact wellMade_unknown e
  | map e => exact wellMade_emptyMap e

theorem wellMade_told (h : Refining.Told t v) : v.WellMade := by
  cases h with
  | untold => exact wellMade_unknown t
  | only h => exact wellMade_only h
  | narrowed ht apt more => exact wellMade_leaf (.inr ⟨ht, apt, more⟩) rfl

theorem IsNumeric.wellMade (h : v.IsNumeric) : v.WellMade := by
  cases h with
  | number n => exact wellMade_number n
  | dynamic => exact wellMade_unknown _
  | told h => exact wellMade_told h

theorem IsVerdict.wellMade (h : v.IsVerdict) : v.WellMade := by
  cases h with
  | bool b => exact wellMade_bool b
  | undecided => exact wellMade_undecided

/-! ## Constructors -/

theorem WellMade.conformTo (h : v.WellMade) (e : Ty) : (conformTo e v).WellMade := by
  unfold Value.conformTo
  split
  · exact h
  · refine WellMade.withMarks ?_ _
    split
    · exact wellMade_null e
    · exact wellMade_unknown e

theorem WellMade.unmarkDeep (h : v.WellMade) : v.unmarkDeep.WellMade := by
  induction h with
  | @intro v here inside ih =>
    obtain ⟨m, c⟩ := v
    cases c with
    | list e items =>
      rw [Value.unmarkDeep, unmarkDeepAll_eq_map]
      refine .intro (List.forall_mem_map.2 fun w hw => ?_) (List.forall_mem_map.2 ih)
      rw [ty_unmarkDeep]
      exact here w hw
    | tuple items =>
      rw [Value.unmarkDeep, unmarkDeepAll_eq_map]
      exact .intro trivial (List.forall_mem_map.2 ih)
    | map e entries =>
      rw [Value.unmarkDeep, unmarkDeepEntries_eq_mapValues]
      refine .intro ⟨?_, ?_⟩ ?_
      · rw [names_mapValues]
        exact here.1
      · rw [values_mapValues]
        refine List.forall_mem_map.2 fun w hw => ?_
        rw [ty_unmarkDeep]
        exact here.2 w hw
      · rw [bare, content, Content.parts, values_mapValues]
        exact List.forall_mem_map.2 ih
    | object entries =>
      rw [Value.unmarkDeep, unmarkDeepEntries_eq_mapValues]
      refine .intro ?_ ?_
      · rw [bare, content, Content.WellMade, names_mapValues]
        exact here
      · rw [bare, content, Content.parts, values_mapValues]
        exact List.forall_mem_map.2 ih
    | union variants name inner =>
      rw [Value.unmarkDeep]
      refine .intro ?_ fun w hw => ?_
      · obtain ⟨wanted, hw, fits⟩ := here
        refine ⟨wanted, hw, ?_⟩
        rw [Fits, ty_unmarkDeep]
        exact fits
      · cases List.mem_singleton.1 hw
        exact ih inner List.mem_cons_self
    | _ => exact WellMade.of_content (.intro here inside) (by simp only [Value.unmarkDeep]; rfl)

/-- A value and all values inside of it have no marks. -/
def Unmarked (v : Value) : Prop :=
  v.Everywhere fun w => w.marks.isEmpty = true

/-- In a well-made value there are no marks where they are not looked for either, in sets. -/
theorem WellMade.unmarked (hv : v.WellMade) (h : v.containsMarked = false) : v.Unmarked := by
  induction hv with
  | @intro v here _ ih =>
    have seen : v.marks.isEmpty = true ∧ ∀ w ∈ v.content.parts, w.containsMarked = false := by
      obtain ⟨m, c⟩ := v
      cases c
      all_goals
        simp only [containsMarked, Bool.or_eq_false_iff, Bool.not_eq_false'] at h
        refine ⟨h.1, ?_⟩
      case list | tuple => exact anyContainsMarked_eq_false.1 h.2
      case map | object => exact anyEntryContainsMarked_eq_false.1 h.2
      case union => simpa [content, Content.parts] using h.2
      case set => exact fun w hw => (here w hw).2
      all_goals exact List.forall_mem_nil _
    exact .intro seen.1 fun w hw => ih w hw (seen.2 w hw)

/-- The elements that a new collection gets. -/
theorem conformed_elements (hc : commonType? vs = some e) (h : ∀ v ∈ vs, v.WellMade) :
    ∀ v ∈ vs.map (conformTo e), v.ty = e ∧ v.WellMade :=
  List.forall_mem_map.2 fun v hv =>
    ⟨ty_conformTo (ty_of_commonType? hc hv), (h v hv).conformTo e⟩

theorem wellMade_object {attributes : List (String × Value)}
    (h : ∀ v ∈ values attributes, v.WellMade) : (object attributes).WellMade :=
  .intro (normal_namedParts attributes) fun v hv => h v (mem_values_namedParts hv)

theorem wellMade_tuple (h : ∀ v ∈ vs, v.WellMade) : (tuple vs).WellMade :=
  .intro trivial h

theorem wellMade_union {name : String} (hv : v.WellMade) (h : union t name v = .ok w) :
    w.WellMade := by
  obtain ⟨variants, wanted, -, found, fits, rfl⟩ := eq_of_union_ok h
  refine .intro ⟨wanted, found, fits⟩ fun x hx => ?_
  cases List.mem_singleton.1 hx
  exact hv

section

variable [Host]

theorem wellMade_list (hv : ∀ v ∈ vs, v.WellMade) (h : list vs = .ok w) : w.WellMade := by
  obtain ⟨e, -, hc, rfl⟩ := list_eq_ok h
  have elements := conformed_elements hc hv
  exact .intro (fun x hx => (elements x hx).1) fun x hx => (elements x hx).2

theorem wellMade_set (hv : ∀ v ∈ vs, v.WellMade) (h : set vs = .ok w) : w.WellMade := by
  obtain ⟨e, -, hc, rfl⟩ := set_eq_ok h
  have elements := conformed_elements hc hv
  have parts : ∀ x ∈ (RuleSet.ofList (ValueRules.mk e)
      ((vs.map (Value.conformTo e)).map Value.unmarkDeep)).values,
      (x.ty = e ∧ x.containsMarked = false) ∧ x.WellMade := fun x hx => by
    obtain ⟨y, hy, rfl⟩ := List.mem_map.1 (RuleSet.mem_of_mem_ofList hx)
    rw [ty_unmarkDeep]
    exact ⟨⟨(elements y hy).1, containsMarked_unmarkDeep y⟩, (elements y hy).2.unmarkDeep⟩
  refine .intro ?_ fun x hx => ?_
  · rw [content_setOf]
    exact fun x hx => (parts x hx).1
  · rw [content_setOf] at hx
    exact (parts x hx).2

theorem wellMade_map {entries : List (String × Value)} (hv : ∀ v ∈ values entries, v.WellMade)
    (h : map entries = .ok w) : w.WellMade := by
  rw [map] at h
  obtain ⟨e, he, h⟩ := bind_eq_ok h
  cases h
  have elements := conformed_elements (elementTypeFor_eq_ok he).2 fun v hm =>
    hv v (mem_values_namedParts hm)
  refine .intro ⟨?_, ?_⟩ ?_
  · rw [names_mapValues]
    exact normal_namedParts entries
  · rw [values_mapValues]
    exact fun x hx => (elements x hx).1
  · rw [bare, content, Content.parts, values_mapValues]
    exact fun x hx => (elements x hx).2

theorem wellMade_capsule {p : Payload} (h : capsule t p = .ok w) : w.WellMade := by
  unfold capsule at h
  split at h
  · split at h <;> cases h
    rename_i kind
    exact wellMade_leaf kind rfl
  · cases h

end

/-! ## Refining -/

/-- What is known about an unknown when it starts to be refined. -/
theorem WellMade.refine_apt (hv : v.WellMade) (unknown : v.isKnown = false) :
    (v.ty = .dynamic → v.refine.refinement = none) ∧
      ∀ r, v.refine.refinement = some r → r.Apt v.ty := by
  obtain ⟨t, r, hc⟩ := isKnown_iff.1 unknown
  have typed : v.ty = t := by rw [ty_of_content (w := bare (.unknown t r)) hc, bare, ty]
  have here := hv.here
  rw [hc] at here
  have start : v.refine.refinement = if t.isDynamic then none else some r := by
    simp only [Value.refine, unknown, typed, hc, Bool.not_false, Bool.true_and]
    rfl
  rw [typed, start]
  refine ⟨fun dynamic => ?_, fun r' hr => ?_⟩
  · rw [dynamic]
    rfl
  · split at hr <;> cases hr
    rcases here with rfl | ⟨-, apt, -⟩
    · exact Refinement.apt_unconstrained t
    · exact apt

theorem WellMade.restrict {xs : List Restriction} (hv : v.WellMade) (h : v.restrict xs = .ok w) :
    w.WellMade := by
  obtain ⟨s, hs, h⟩ := bind_eq_ok h
  have follows := Refining.follows_foldlM hs
  have kept : s.value = v.unmark := follows.value
  obtain ⟨x, rfl, ⟨rfl, -⟩ | ⟨unknown, r, told, only | ⟨rfl, more⟩⟩⟩ := Refining.result_eq_ok h
  · rw [kept]
    exact hv.unmark.withMarks _
  · exact (wellMade_only only).withMarks _
  · rw [kept, isKnown_unmark] at unknown
    obtain ⟨undecided, apt⟩ := hv.refine_apt unknown
    have typed : s.value.ty = v.ty := by rw [kept, ty_unmark]
    rw [typed] at more ⊢
    have kept : (refined v.ty r).WellMade := by
      refine wellMade_leaf (.inr ⟨fun dynamic => ?_, ?_, more⟩) rfl
      · rw [follows.untold (undecided dynamic)] at told
        cases told
      · have still := follows.apt
        rw [show v.refine.value.ty = v.ty from ty_unmark v] at still
        exact still apt r told
    exact kept.withMarks _

/-! ## Marks along paths -/

section

variable {f : Value → Value} {step : Step} {c : Content}

theorem mem_modify {α : Type} {f : α → α} {x : α} {xs : List α} {i : Nat}
    (h : x ∈ xs.modify i f) : x ∈ xs ∨ ∃ y ∈ xs, x = f y := by
  obtain ⟨j, hj⟩ := List.mem_iff_getElem?.1 h
  rw [List.getElem?_modify] at hj
  obtain ⟨y, hy, rfl⟩ := Option.map_eq_some_iff.1 hj
  have hm := List.mem_of_getElem? hy
  split
  · exact .inr ⟨y, hm, rfl⟩
  · exact .inl hm

theorem mem_values_modifyEntry {name : String} {entries : List (String × Value)}
    (h : v ∈ values (modifyPart.modifyEntry f name entries)) :
    v ∈ values entries ∨ ∃ w ∈ values entries, v = f w := by
  obtain ⟨entry, he, rfl⟩ := List.mem_map.1 h
  obtain ⟨old, ho, rfl⟩ := List.mem_map.1 he
  have hm : old.2 ∈ values entries := mem_values ho
  split
  · exact .inr ⟨_, hm, rfl⟩
  · exact .inl hm

/-- A step changes nothing but parts. -/
theorem mem_parts_modifyPart (h : v ∈ (modifyPart f step c).parts) :
    v ∈ c.parts ∨ ∃ w ∈ c.parts, v = f w := by
  have item {key : Value} {items : List Value} (h : v ∈ modifyPart.modifyItem f key items) :
      v ∈ items ∨ ∃ w ∈ items, v = f w := by
    unfold modifyPart.modifyItem at h
    split at h
    · exact mem_modify h
    · exact .inl h
  cases c with
  | list e items | tuple items =>
    cases step with
    | attr => exact .inl h
    | index => exact item h
  | map e entries =>
    cases step with
    | attr => exact .inl h
    | index key =>
      simp only [modifyPart, Content.parts] at h
      split at h
      · exact mem_values_modifyEntry h
      · exact .inl h
  | object attributes =>
    cases step with
    | attr => exact mem_values_modifyEntry h
    | index => exact .inl h
  | union variants name inner =>
    cases step with
    | attr other =>
      have h : v = if other = name then f inner else inner := List.mem_singleton.1 h
      split at h
      · exact .inr ⟨inner, List.mem_cons_self, h⟩
      · exact .inl (h ▸ List.mem_cons_self)
    | index => exact .inl h
  | _ => exact .inl h

theorem map_modify {α β : Type} {g : α → β} {f : α → α} (h : ∀ x, g (f x) = g x) (xs : List α)
    (i : Nat) : (xs.modify i f).map g = xs.map g := by
  refine List.ext_getElem? fun j => ?_
  rw [List.getElem?_map, List.getElem?_modify, List.getElem?_map]
  cases xs[j]? with
  | none => rfl
  | some x =>
    refine congrArg some ?_
    split
    · exact h x
    · rfl

theorem names_modifyEntry (name : String) (entries : List (String × Value)) :
    names (modifyPart.modifyEntry f name entries) = names entries := by
  rw [modifyPart.modifyEntry, names, List.map_map]
  refine List.map_congr_left fun entry _ => ?_
  rw [Function.comp_apply]
  split <;> rfl

theorem entryTypes_modifyEntry (h : ∀ v, (f v).ty = v.ty) (name : String)
    (entries : List (String × Value)) :
    entryTypes (modifyPart.modifyEntry f name entries) = entryTypes entries := by
  rw [entryTypes_eq_mapValues, entryTypes_eq_mapValues, modifyPart.modifyEntry, mapValues,
    mapValues, List.map_map]
  refine List.map_congr_left fun entry _ => ?_
  rw [Function.comp_apply]
  split
  · rw [h]
  · rfl

/-- A change that keeps the types of parts keeps the type. -/
theorem ty_modifyPart (h : ∀ v, (f v).ty = v.ty) (m : MarkSet) :
    (⟨m, modifyPart f step c⟩ : Value).ty = (⟨m, c⟩ : Value).ty := by
  cases c with
  | tuple items =>
    simp only [modifyPart, ty, types_eq_map]
    split
    · unfold modifyPart.modifyItem
      split
      · rw [map_modify h]
      · rfl
    · rfl
  | object attributes =>
    simp only [modifyPart, ty]
    split
    · rw [entryTypes_modifyEntry h]
    · rfl
  | _ => simp only [modifyPart, ty]

theorem wellMade_modifyPart (ht : ∀ v, (f v).ty = v.ty) (h : c.WellMade) :
    (modifyPart f step c).WellMade := by
  have parts (q : Ty → Prop) (hq : ∀ v ∈ c.parts, q v.ty) :
      ∀ v ∈ (modifyPart f step c).parts, q v.ty := fun v hv => by
    rcases mem_parts_modifyPart hv with hv | ⟨w, hw, rfl⟩
    · exact hq v hv
    · rw [ht]
      exact hq w hw
  cases c with
  | list e items => exact parts (· = e) h
  | map e entries =>
    refine ⟨?_, parts (· = e) h.2⟩
    have normal := h.1
    split
    · split
      · rwa [names_modifyEntry]
      · exact normal
    · exact normal
  | object attributes =>
    have normal : Names.Normal (names attributes) := h
    simp only [modifyPart, Content.WellMade]
    split
    · rwa [names_modifyEntry]
    · exact normal
  | union variants name inner =>
    obtain ⟨wanted, found, fits⟩ := h
    exact ⟨wanted, found, parts (fun t => (if wanted.hasDynamic then t.conforms wanted
      else t == wanted.withoutOptional) = true) (fun v hv => List.mem_singleton.1 hv ▸ fits) _
      List.mem_cons_self⟩
  | _ => exact h

theorem ty_markAt (marks : MarkSet) (steps : List Step) (v : Value) :
    (markAt marks steps v).ty = v.ty := by
  induction steps generalizing v with
  | nil => exact ty_withMarks v marks
  | cons step rest ih =>
    obtain ⟨m, c⟩ := v
    exact ty_modifyPart ih m

theorem WellMade.markAt (h : v.WellMade) (marks : MarkSet) (steps : List Step) :
    (markAt marks steps v).WellMade := by
  induction steps generalizing v with
  | nil => exact h.withMarks marks
  | cons step rest ih =>
    refine .intro (wellMade_modifyPart (ty_markAt marks rest) h.here) fun w hw => ?_
    rcases mem_parts_modifyPart hw with hw | ⟨x, hx, rfl⟩
    · exact h.inside hw
    · exact ih (h.inside hx)

theorem WellMade.markAlong (h : v.WellMade) (marked : List MarkedPath) :
    (v.markAlong marked).WellMade := by
  induction marked generalizing v with
  | nil => exact h
  | cons m marked ih => exact ih (h.markAt m.marks m.path.steps)

end

/-! ## Parts -/

theorem reading_eq_ok {α : Type} {operation : String} {read : Content → Option α} {a : α}
    (h : v.reading operation read = .ok a) : read v.content = some a := by
  unfold reading at h
  split at h
  · cases h
  split at h
  · cases h
  split at h
  · cases h
  split at h
  · cases h
    assumption
  · cases h

theorem mem_numbered {start : Nat} {items : List Value} {x : Value × Value}
    (h : x ∈ numbered start items) : x.2 ∈ items ∧ ∃ n, x.1 = number n := by
  induction items generalizing start with
  | nil => cases h
  | cons v vs ih =>
    rcases List.mem_cons.1 h with rfl | h
    · exact ⟨List.mem_cons_self, _, rfl⟩
    · exact (ih h).imp_left (List.mem_cons_of_mem _)

theorem mem_keyed {entries : List (String × Value)} {x : Value × Value}
    (h : x ∈ keyed entries) : x.2 ∈ values entries ∧ ∃ s, x.1 = string s := by
  obtain ⟨entry, he, rfl⟩ := List.mem_map.1 h
  exact ⟨mem_values he, _, rfl⟩

/-- Elements are parts, and their keys are numbers or strings. -/
theorem elements_eq_ok {es : List (Value × Value)} (h : v.elements = .ok es)
    {x : Value × Value} (hx : x ∈ es) :
    x.2 ∈ v.content.parts ∧ ((∃ n, x.1 = number n) ∨ ∃ s, x.1 = string s) := by
  have read := reading_eq_ok h
  obtain ⟨m, c⟩ := v
  cases c with
  | list | set | tuple =>
    cases read
    exact (mem_numbered hx).imp_right .inl
  | map | object =>
    cases read
    exact (mem_keyed hx).imp_right .inr
  | _ => cases read

theorem WellMade.elements {es : List (Value × Value)} (hv : v.WellMade)
    (h : v.elements = .ok es) : ∀ x ∈ es, x.1.WellMade ∧ x.2.WellMade := by
  intro x hx
  obtain ⟨part, key⟩ := elements_eq_ok h hx
  refine ⟨?_, hv.inside part⟩
  rcases key with ⟨n, eq⟩ | ⟨s, eq⟩
  · exact eq ▸ wellMade_number n
  · exact eq ▸ wellMade_string s

/-- What a variant holds is a part. -/
theorem variant_eq_ok {name : String} (h : v.variant = .ok (name, w)) : w ∈ v.content.parts := by
  have read := reading_eq_ok h
  obtain ⟨m, c⟩ := v
  cases c with
  | union =>
    cases read
    exact List.mem_cons_self
  | _ => cases read

theorem WellMade.entries {es : List (String × Value)} (hv : v.WellMade) (h : v.entries = .ok es) :
    ∀ x ∈ values es, x.WellMade := by
  have read := reading_eq_ok h
  have inside := fun w => hv.inside (w := w)
  obtain ⟨m, c⟩ := v
  cases c with
  | map | object =>
    cases read
    exact inside
  | _ => cases read

theorem WellMade.attributeBare {name : String} (hv : v.WellMade)
    (h : v.attributeBare name = .ok w) : w.WellMade := by
  unfold Value.attributeBare at h
  dsimp only at h
  split at h
  · cases h
    exact wellMade_unknown _
  · cases h
  · have inside := fun w => hv.inside (w := w)
    split at h
    · cases h
      exact wellMade_unknown _
    · rename_i hc
      split at h
      · rename_i found
        cases h
        rw [hc] at inside
        exact inside w (mem_values (mem_of_lookup found))
      · cases h
    · rename_i hc
      cases h
      split
      · rw [hc] at inside
        exact inside _ List.mem_cons_self
      · exact wellMade_null _
    · cases h

theorem WellMade.attr {name : String} (hv : v.WellMade) (h : v.attr name = .ok w) :
    w.WellMade := by
  obtain ⟨x, hx, rfl⟩ := ValueAlgebra.map_eq_ok h
  exact (hv.unmark.attributeBare hx).withMarks _

theorem WellMade.itemAt {n : Number} (hv : v.WellMade) (h : itemAt t v.content n = .ok w) :
    w.WellMade := by
  have inside := fun w => hv.inside (w := w)
  obtain ⟨m, c⟩ := v
  cases c with
  | list e items | tuple items =>
    simp only [Value.itemAt, content] at h
    split at h <;> cases h
    rename_i found
    obtain ⟨i, -, found⟩ := Option.bind_eq_some_iff.1 found
    exact inside w (List.mem_of_getElem? found)
  | _ => cases h

/-- The entry of a map at a key. -/
theorem WellMade.entryAt {e : Ty} {es : List (String × Value)} {key : String} (hv : v.WellMade)
    (hc : v.content = .map e es) (found : es.lookup key = some w) : w.WellMade := by
  refine hv.inside ?_
  rw [hc]
  exact mem_values (mem_of_lookup found)

theorem WellMade.indexBare {key : Value} (hv : v.WellMade) (h : v.indexBare key = .ok w) :
    w.WellMade := by
  unfold Value.indexBare at h
  repeat' split at h
  all_goals first
    | exact hv.itemAt h
    | (cases h <;> first | exact wellMade_unknown _ | exact hv.entryAt ‹_› ‹_›)

theorem WellMade.index {key : Value} (hv : v.WellMade) (h : v.index key = .ok w) :
    w.WellMade := by
  obtain ⟨x, hx, rfl⟩ := ValueAlgebra.map_eq_ok h
  exact ((hv.unmark.indexBare hx).withMarks _).withMarks _

/-! ## Answers -/

section

variable {a b : Value} {f : Value → Value → Except Fault Value}

theorem wellMade_marking {f : Value → Except Fault Value} (hf : ∀ x w, f x = .ok w → w.WellMade)
    (h : marking f a = .ok w) : w.WellMade := by
  obtain ⟨x, hx, rfl⟩ := ValueAlgebra.map_eq_ok h
  exact (hf _ x hx).withMarks _

theorem wellMade_markingBoth (hf : ∀ x y w, f x y = .ok w → w.WellMade)
    (h : markingBoth f a b = .ok w) : w.WellMade := by
  obtain ⟨x, hx, rfl⟩ := ValueAlgebra.map_eq_ok h
  exact ((hf _ _ x hx).withMarks _).withMarks _

theorem wellMade_arithmetic {operation : String}
    {between : Refinement → Refinement → Except Fault Value}
    {compute : Number → Number → Option Number}
    (hb : ∀ r s w, between r s = .ok w → Refining.Told .number w)
    (h : markingBoth (arithmetic operation between compute) a b = .ok w) : w.WellMade :=
  wellMade_markingBoth (fun _ _ _ hx => (isNumeric_arithmetic hb hx).wellMade) h

theorem wellMade_arithmeticUnary {operation : String} {between : Refinement → Except Fault Value}
    {compute : Number → Number} (hb : ∀ r w, between r = .ok w → Refining.Told .number w)
    (h : marking (arithmeticUnary operation between compute) a = .ok w) : w.WellMade :=
  wellMade_marking (fun _ _ hx => (isNumeric_arithmeticUnary hb hx).wellMade) h

theorem wellMade_hasIndex (h : a.hasIndex b = .ok w) : w.WellMade := by
  obtain ⟨x, hx, rfl⟩ := ValueAlgebra.map_eq_ok h
  exact ((isVerdict_hasIndexBare hx).wellMade.withMarks _).withMarks _

variable [Host]

theorem wellMade_equals (asked : ∀ (c : CapsuleType) p q, (c.equals p q).WellMade) :
    (a.equals b).WellMade := by
  refine WellMade.withMarks (WellMade.withMarks ?_ _) _
  rcases equalsBare_answer a.unmarkDeep b.unmarkDeep with verdict | ⟨c, p, q, eq⟩
  · exact verdict.wellMade
  · rw [eq]
    exact asked c p q

theorem wellMade_hasElement (h : a.hasElement b = .ok w) : w.WellMade := by
  rw [hasElement] at h
  split at h
  · obtain ⟨x, hx, rfl⟩ := ValueAlgebra.map_eq_ok h
    exact ((isVerdict_hasElementBare hx).wellMade.withMarks _).withMarks _
  · exact (isVerdict_hasElementBare h).wellMade

end

end Value

/-- The operands of an operation. -/
def Operation.operands : Operation → List Value
  | .unary _ a => [a]
  | .binary _ a b => [a, b]

section

variable [Host] {v w : Value}

/-- Operations on well-made values answer with well-made values. What equality says about capsules
is up to their types. -/
theorem Operation.wellMade_answer {op : Operation} (operands : ∀ v ∈ op.operands, v.WellMade)
    (asked : ∀ a b, op = .binary .equals a b → ∀ (c : CapsuleType) p q, (c.equals p q).WellMade)
    (h : op.answer = .ok w) : w.WellMade := by
  cases op with
  | unary op a =>
    have ha : a.WellMade := operands a List.mem_cons_self
    cases op with
    | negate | absolute =>
      exact Value.wellMade_arithmeticUnary (fun _ _ => Value.told_numberBetween) h
    | not =>
      obtain ⟨v, verdict, rfl⟩ := Value.isVerdict_not h
      exact verdict.wellMade.withMarks _
    | length =>
      obtain ⟨v, hv, rfl⟩ := map_eq_ok h
      exact (Value.isNumeric_lengthBare hv).wellMade.withMarks _
    | attr name => exact ha.attr h
  | binary op a b =>
    have ha : a.WellMade := operands a List.mem_cons_self
    cases op with
    | add | subtract | multiply | divide | modulo =>
      exact Value.wellMade_arithmetic (fun _ _ _ => Value.told_numberBetween) h
    | lessThan | lessThanOrEqual | greaterThan | greaterThanOrEqual =>
      exact Value.wellMade_markingBoth
        (fun _ _ _ hx => (Value.isVerdict_comparison hx).wellMade) h
    | and | or =>
      exact Value.wellMade_markingBoth (fun _ _ _ hx => (Value.isVerdict_logic hx).wellMade) h
    | equals =>
      cases h
      exact Value.wellMade_equals (asked a b rfl)
    | notEqual =>
      obtain ⟨v, verdict, rfl⟩ := Value.isVerdict_not h
      exact verdict.wellMade.withMarks _
    | index => exact ha.index h
    | hasIndex => exact Value.wellMade_hasIndex h
    | hasElement => exact Value.wellMade_hasElement h

theorem Range.wellMade_includes (r : Range)
    (asked : ∀ (c : CapsuleType) p q, (c.equals p q).WellMade) : (r.includes v).WellMade := by
  refine Value.WellMade.withMarks ?_ _
  unfold includesBare
  repeat' split
  all_goals
    first
    | exact Value.wellMade_undecided
    | exact Value.wellMade_bool _
    | exact Value.wellMade_equals asked

end

/-! ## Steps and paths -/

section

variable {v w : Value}

theorem Step.wellMade_applyKey {key : Value} (hv : v.WellMade)
    (h : Step.applyKey v key = .ok (.part w)) : w.WellMade := by
  obtain ⟨found, -, h⟩ := bind_eq_ok h
  dsimp only at h
  split at h
  · obtain ⟨x, hx, h⟩ := bind_eq_ok h
    cases h
    exact hv.index hx
  obtain ⟨answer, -, h⟩ := bind_eq_ok h
  split at h
  · obtain ⟨x, hx, h⟩ := bind_eq_ok h
    cases h
    exact hv.index hx
  · cases h

/-- A step leads from a well-made value to a well-made part. -/
theorem Step.wellMade_apply {step : Step} (hv : v.WellMade) (h : step.apply v = .ok (.part w)) :
    w.WellMade := by
  cases step with
  | attr name =>
    simp only [Step.apply, Step.applyAttr] at h
    split at h
    · cases h
    split at h
    · cases h
    split at h
    · obtain ⟨x, hx, eq⟩ := map_eq_ok h
      cases eq
      exact hv.attr hx
    · cases h
  | index key =>
    simp only [Step.apply, Step.applyIndex] at h
    split at h
    · cases h
    split at h
    · split at h
      · exact wellMade_applyKey hv h
      · cases h
    · split at h
      · exact wellMade_applyKey hv h
      · cases h
    · cases h

/-- A path leads from a well-made value to well-made values. -/
theorem Path.wellMade_apply {path : Path} (hv : v.WellMade) (h : path.apply v = .ok w) :
    w.WellMade := by
  obtain ⟨steps⟩ := path
  rw [apply] at h
  generalize ([] : List Step) = before at h
  induction steps generalizing v before with
  | nil =>
    cases h
    exact hv
  | cons step rest ih =>
    rw [applyFrom] at h
    split at h
    · cases h
    · rename_i taken
      exact ih (Step.wellMade_apply hv taken) _ h
    · cases h

end

end ValueAlgebra
