import Mathlib
import ValueAlgebra.Proofs.Construction
import ValueAlgebra.Proofs.EqualityLaws

/-!
# Values that equality is lawful for

The laws of equality ask for capsules that follow them and for sets of distinct elements, and they
are about values without marks. This module has the lemmas that bring values into this form: what
constructors make keeps to what the laws ask for, and marks can be left aside.

Main statements:

* `Value.unmarkDeep_of_unmarked`, `Value.equals_of_unmarked`: values without marks.
* `Value.equalsBare_unmarkDeep`, `Value.content_equals`: marks do not count for equality.
* `Value.sound_setOf`: a new set has distinct elements.
* `Value.Built.sound`: what constructors make keeps to what the laws ask for.
-/

namespace ValueAlgebra

open Entries

/-! ## Values without marks -/

namespace MarkSet

theorem eq_empty {marks : MarkSet} (h : marks.isEmpty = true) : marks = .empty := by
  obtain ⟨names, sorted⟩ := marks
  cases names with
  | nil => rfl
  | cons name names => cases h

@[simp] theorem union_empty (marks : MarkSet) : marks.union .empty = marks :=
  rfl

end MarkSet

namespace Value

mutual

/-- A value without marks at any depth is as it is without its marks, and has none. -/
theorem unmarkDeep_of_unmarked : ∀ {v : Value}, v.containsMarked = false →
    v.unmarkDeep = v ∧ v.deepMarks = .empty
  | ⟨_, .null _⟩, h | ⟨_, .unknown _ _⟩, h | ⟨_, .number _⟩, h | ⟨_, .string _⟩, h
  | ⟨_, .bool _⟩, h | ⟨_, .set _ _⟩, h | ⟨_, .capsule _ _⟩, h => by
    simp only [containsMarked, Bool.or_false, Bool.not_eq_false'] at h
    cases MarkSet.eq_empty h
    simp only [unmarkDeep, deepMarks, bare, and_self]
  | ⟨_, .list _ items⟩, h | ⟨_, .tuple items⟩, h => by
    simp only [containsMarked, Bool.or_eq_false_iff, Bool.not_eq_false'] at h
    cases MarkSet.eq_empty h.1
    have rest := unmarkDeepAll_of_unmarked h.2
    simp only [unmarkDeep, deepMarks, bare, rest, MarkSet.union_empty, and_self]
  | ⟨_, .map _ entries⟩, h | ⟨_, .object entries⟩, h => by
    simp only [containsMarked, Bool.or_eq_false_iff, Bool.not_eq_false'] at h
    cases MarkSet.eq_empty h.1
    have rest := unmarkDeepEntries_of_unmarked h.2
    simp only [unmarkDeep, deepMarks, bare, rest, MarkSet.union_empty, and_self]
  | ⟨_, .union _ _ inner⟩, h => by
    simp only [containsMarked, Bool.or_eq_false_iff, Bool.not_eq_false'] at h
    cases MarkSet.eq_empty h.1
    have rest := unmarkDeep_of_unmarked h.2
    simp only [unmarkDeep, deepMarks, bare, rest, MarkSet.union_empty, and_self]

theorem unmarkDeepAll_of_unmarked : ∀ {vs : List Value}, anyContainsMarked vs = false →
    unmarkDeepAll vs = vs ∧ deepMarksAll vs = .empty
  | [], _ => ⟨rfl, rfl⟩
  | v :: vs, h => by
    rw [anyContainsMarked, Bool.or_eq_false_iff] at h
    have first := unmarkDeep_of_unmarked h.1
    have rest := unmarkDeepAll_of_unmarked h.2
    simp only [unmarkDeepAll, deepMarksAll, first, rest, MarkSet.union_empty, and_self]

theorem unmarkDeepEntries_of_unmarked : ∀ {entries : List (String × Value)},
    anyEntryContainsMarked entries = false →
    unmarkDeepEntries entries = entries ∧ deepMarksEntries entries = .empty
  | [], _ => ⟨rfl, rfl⟩
  | (name, v) :: entries, h => by
    rw [anyEntryContainsMarked, Bool.or_eq_false_iff] at h
    have first := unmarkDeep_of_unmarked h.1
    have rest := unmarkDeepEntries_of_unmarked h.2
    simp only [unmarkDeepEntries, deepMarksEntries, first, rest, MarkSet.union_empty, and_self]

end

mutual

theorem containsMarked_unmarkDeep : ∀ v : Value, v.unmarkDeep.containsMarked = false
  | ⟨_, .null _⟩ | ⟨_, .unknown _ _⟩ | ⟨_, .number _⟩ | ⟨_, .string _⟩ | ⟨_, .bool _⟩
  | ⟨_, .set _ _⟩ | ⟨_, .capsule _ _⟩ => by simp only [unmarkDeep, bare, containsMarked]; rfl
  | ⟨_, .list _ items⟩ | ⟨_, .tuple items⟩ => by
    simp only [unmarkDeep, bare, containsMarked, anyContainsMarked_unmarkDeepAll items]
    rfl
  | ⟨_, .map _ entries⟩ | ⟨_, .object entries⟩ => by
    simp only [unmarkDeep, bare, containsMarked, anyEntryContainsMarked_unmarkDeepEntries entries]
    rfl
  | ⟨_, .union _ _ inner⟩ => by
    simp only [unmarkDeep, bare, containsMarked, containsMarked_unmarkDeep inner]
    rfl

theorem anyContainsMarked_unmarkDeepAll : ∀ vs : List Value,
    anyContainsMarked (unmarkDeepAll vs) = false
  | [] => rfl
  | v :: vs => by
    simp only [unmarkDeepAll, anyContainsMarked, containsMarked_unmarkDeep v,
      anyContainsMarked_unmarkDeepAll vs, Bool.or_self]

theorem anyEntryContainsMarked_unmarkDeepEntries : ∀ entries : List (String × Value),
    anyEntryContainsMarked (unmarkDeepEntries entries) = false
  | [] => rfl
  | (name, v) :: entries => by
    simp only [unmarkDeepEntries, anyEntryContainsMarked, containsMarked_unmarkDeep v,
      anyEntryContainsMarked_unmarkDeepEntries entries, Bool.or_self]

end

mutual

/-- Marks do not count for what is known. -/
theorem isWhollyKnown_unmarkDeep : ∀ v : Value,
    v.unmarkDeep.isWhollyKnown = v.isWhollyKnown ∧
      v.unmarkDeep.hasWhollyKnownType = v.hasWhollyKnownType
  | ⟨_, .null _⟩ | ⟨_, .unknown _ _⟩ | ⟨_, .number _⟩ | ⟨_, .string _⟩ | ⟨_, .bool _⟩
  | ⟨_, .set _ _⟩ | ⟨_, .capsule _ _⟩ => by
    simp only [unmarkDeep, bare, isWhollyKnown, hasWhollyKnownType, and_self]
  | ⟨_, .list _ items⟩ | ⟨_, .tuple items⟩ => by
    simp only [unmarkDeep, bare, isWhollyKnown, hasWhollyKnownType,
      allWhollyKnown_unmarkDeepAll items, and_self]
  | ⟨_, .map _ entries⟩ | ⟨_, .object entries⟩ => by
    simp only [unmarkDeep, bare, isWhollyKnown, hasWhollyKnownType,
      allEntriesWhollyKnown_unmarkDeepEntries entries, and_self]
  | ⟨_, .union _ _ inner⟩ => by
    simp only [unmarkDeep, bare, isWhollyKnown, hasWhollyKnownType,
      isWhollyKnown_unmarkDeep inner, and_self]

theorem allWhollyKnown_unmarkDeepAll : ∀ vs : List Value,
    allWhollyKnown (unmarkDeepAll vs) = allWhollyKnown vs ∧
      allHaveWhollyKnownType (unmarkDeepAll vs) = allHaveWhollyKnownType vs
  | [] => ⟨rfl, rfl⟩
  | v :: vs => by
    simp only [unmarkDeepAll, allWhollyKnown, allHaveWhollyKnownType, isWhollyKnown_unmarkDeep v,
      allWhollyKnown_unmarkDeepAll vs, and_self]

theorem allEntriesWhollyKnown_unmarkDeepEntries : ∀ entries : List (String × Value),
    allEntriesWhollyKnown (unmarkDeepEntries entries) = allEntriesWhollyKnown entries ∧
      allEntriesHaveWhollyKnownType (unmarkDeepEntries entries) =
        allEntriesHaveWhollyKnownType entries
  | [] => ⟨rfl, rfl⟩
  | (name, v) :: entries => by
    simp only [unmarkDeepEntries, allEntriesWhollyKnown, allEntriesHaveWhollyKnownType,
      isWhollyKnown_unmarkDeep v, allEntriesWhollyKnown_unmarkDeepEntries entries, and_self]

end

theorem mem_values_namedParts {v : Value} {entries : List (String × Value)}
    (h : v ∈ values (Ty.namedParts entries)) : v ∈ values entries := by
  obtain ⟨name, hv⟩ := exists_of_mem_values h
  obtain ⟨entry, he, eq⟩ := List.mem_map.1 (mem_ofList hv)
  rw [← (Prod.mk.inj eq).2]
  exact mem_values he

theorem content_union {v : Value} {t : Ty} {name : String} {w : Value} (h : union t name v = .ok w) :
    ∃ variants variant, w.content = .union variants variant v := by
  rw [union] at h
  cases hv : t.unionVariants with
  | error => simp [hv, bind, Except.bind] at h
  | ok variants =>
    simp only [hv, bind, Except.bind] at h
    split at h
    · cases h
    · rename_i wanted hw
      by_cases hf : v.Fits wanted
      · unfold Fits at hf
        rw [if_pos hf] at h
        cases h
        exact ⟨variants, _, rfl⟩
      · unfold Fits at hf
        rw [if_neg hf] at h
        cases h

/-! ## Equality without regard to marks -/

variable {a b c v : Value}

theorem isKnown_unmarkDeep (v : Value) : v.unmarkDeep.isKnown = v.isKnown := by
  obtain ⟨m, c⟩ := v
  cases c <;> simp only [unmarkDeep] <;> rfl

theorem isNull_unmarkDeep (v : Value) : v.unmarkDeep.isNull = v.isNull := by
  obtain ⟨m, c⟩ := v
  cases c <;> simp only [unmarkDeep] <;> rfl

theorem admits_unmarkDeep (r : Refinement) (v : Value) :
    r.admits v.unmarkDeep.content = r.admits v.content := by
  obtain ⟨m, c⟩ := v
  cases c with
  | list e items =>
    simp only [unmarkDeep, bare, content, Refinement.admits, unmarkDeepAll_eq_map, List.length_map]
  | map e entries =>
    simp only [unmarkDeep, bare, content, Refinement.admits, unmarkDeepEntries_eq_mapValues,
      mapValues, List.length_map]
  | _ => simp only [unmarkDeep, bare, content, Refinement.admits]

theorem equalsUnknown_unmarkDeep (v : Value) (t : Ty) (r : Refinement) :
    equalsUnknown v.unmarkDeep t r = equalsUnknown v t r := by
  simp only [equalsUnknown, isNull_unmarkDeep, ty_unmarkDeep, admits_unmarkDeep]

theorem content_unmarkDeep_of_parts (h : a.content.parts = []) :
    a.unmarkDeep.content = a.content := by
  obtain ⟨m, c⟩ := a
  cases c with
  | list e items | tuple items =>
    cases h
    simp only [unmarkDeep, unmarkDeepAll]
    rfl
  | map e entries | object entries =>
    cases List.map_eq_nil_iff.1 h
    simp only [unmarkDeep, unmarkDeepEntries]
    rfl
  | union => cases h
  | _ =>
    simp only [unmarkDeep]
    rfl

theorem present_unmarkDeep (h : a.Present) : a.unmarkDeep.Present :=
  ⟨(isKnown_unmarkDeep a).trans h.1, (isNull_unmarkDeep a).trans h.2⟩

theorem equalsEarly?_unmarkDeep (a b : Value) :
    equalsEarly? a.unmarkDeep b.unmarkDeep = equalsEarly? a b := by
  have unknown {v : Value} {t : Ty} {r : Refinement} (h : v.content = .unknown t r) :
      v.unmarkDeep.content = .unknown t r := by
    rw [content_unmarkDeep_of_parts (by rw [h]; rfl), h]
  have null {v : Value} {t : Ty} (h : v.content = .null t) : v.unmarkDeep.content = .null t := by
    rw [content_unmarkDeep_of_parts (by rw [h]; rfl), h]
  rcases cases_present a with ⟨t, r, ha⟩ | ⟨t, ha⟩ | ha <;>
    rcases cases_present b with ⟨u, s, hb⟩ | ⟨u, hb⟩ | hb
  · rw [equalsEarly?_unknowns (unknown ha) (unknown hb), equalsEarly?_unknowns ha hb]
  · rw [equalsEarly?_unknown_known (unknown ha) (isKnown_of_null (null hb)),
      equalsEarly?_unknown_known ha (isKnown_of_null hb), equalsUnknown_unmarkDeep]
  · rw [equalsEarly?_unknown_known (unknown ha) (present_unmarkDeep hb).1,
      equalsEarly?_unknown_known ha hb.1, equalsUnknown_unmarkDeep]
  · rw [equalsEarly?_known_unknown (isKnown_of_null (null ha)) (unknown hb),
      equalsEarly?_known_unknown (isKnown_of_null ha) hb, equalsUnknown_unmarkDeep]
  · rw [equalsEarly?_nulls (null ha) (null hb), equalsEarly?_nulls ha hb]
  · rw [equalsEarly?_null_present (null ha) (present_unmarkDeep hb),
      equalsEarly?_null_present ha hb]
  · rw [equalsEarly?_known_unknown (present_unmarkDeep ha).1 (unknown hb),
      equalsEarly?_known_unknown ha.1 hb, equalsUnknown_unmarkDeep]
  · rw [equalsEarly?_present_null (present_unmarkDeep ha) (null hb),
      equalsEarly?_present_null ha hb]
  · rw [equalsEarly?_present (present_unmarkDeep ha) (present_unmarkDeep hb),
      equalsEarly?_present ha hb, (isWhollyKnown_unmarkDeep a).2, (isWhollyKnown_unmarkDeep b).2,
      ty_unmarkDeep, ty_unmarkDeep]

variable [Host] {heap : Heap} {e : Ty} {vs : List Value}

/-- Marks left aside, equality is `equalsBare`. -/
theorem equals_of_unmarked (ha : a.containsMarked = false) (hb : b.containsMarked = false) :
    a.equals b = equalsBare a b := by
  have left := unmarkDeep_of_unmarked ha
  have right := unmarkDeep_of_unmarked hb
  rw [equals, left.1, left.2, right.1, right.2]
  obtain ⟨m, c⟩ := equalsBare a b
  rfl

theorem zipWith_unmarkDeep {xs ys : List Value}
    (h : ∀ x ∈ xs, ∀ y, equalsBare x.unmarkDeep y.unmarkDeep = equalsBare x y) :
    List.zipWith equalsBare (xs.map unmarkDeep) (ys.map unmarkDeep) =
      List.zipWith equalsBare xs ys := by
  induction xs generalizing ys with
  | nil => rfl
  | cons x xs ih =>
    cases ys with
    | nil => rfl
    | cons y ys =>
      rw [List.forall_mem_cons] at h
      simp only [List.map_cons, List.zipWith_cons_cons, h.1, ih h.2]

/-- Marks do not count for equality. -/
theorem equalsBare_unmarkDeep (a b : Value) :
    equalsBare a.unmarkDeep b.unmarkDeep = equalsBare a b := by
  induction a using Value.induction generalizing b with
  | step a ih =>
    rw [equalsBare_eq, equalsBare_eq a, equalsEarly?_unmarkDeep]
    cases early : equalsEarly? a b with
    | some v => rfl
    | none =>
      rw [Option.getD_none, Option.getD_none]
      obtain ⟨da, db, same⟩ := equalsEarly?_eq_none.1 early
      have alike := alike_of_present da.1 db.1 same
      obtain ⟨m, c⟩ := a
      obtain ⟨n, d⟩ := b
      simp only [content] at alike ih
      cases alike with
      | number | string | bool | set | capsule => simp only [unmarkDeep, bare, content]
      | list | tuple =>
        simp only [Content.parts] at ih
        simp only [unmarkDeep, bare, content, compareContents, unmarkDeepAll_eq_map,
          List.length_map, zipWith_unmarkDeep ih]
      | map | object =>
        simp only [Content.parts] at ih
        simp only [unmarkDeep, bare, content, compareContents, unmarkDeepEntries_eq_mapValues,
          names_mapValues, values_mapValues, zipWith_unmarkDeep ih]
      | union =>
        simp only [unmarkDeep, bare, content, compareContents, ih _ List.mem_cons_self]

/-- Marks at any depth do not count for what is known to be equal. -/
theorem equal_unmarkDeep : Equal a.unmarkDeep b.unmarkDeep ↔ Equal a b := by
  rw [Equal, equalsBare_unmarkDeep, Equal]

/-- Adding marks to an answer does not change what it says. -/
theorem content_equals (a b : Value) : (a.equals b).content = (equalsBare a b).content := by
  rw [equals, equalsBare_unmarkDeep]
  rfl

/-! ## Values that keep to what the laws ask for -/

/-- A value whose capsules follow the laws of equality. The elements of its sets are distinct. -/
def Sound (heap : Heap) (v : Value) : Prop :=
  v.Everywhere fun w => w.content.Lawful heap

theorem Sound.of_content (h : a.Sound heap) (hc : b.content = a.content) : b.Sound heap := by
  refine .intro ?_ fun w hw => ?_
  · rw [hc]
    exact h.here
  · rw [hc] at hw
    exact h.inside hw

theorem Sound.unmarkDeep (h : v.Sound heap) : v.unmarkDeep.Sound heap := by
  induction h with
  | @intro v here inside ih =>
    obtain ⟨m, c⟩ := v
    cases c with
    | list e items | tuple items =>
      rw [Value.unmarkDeep, unmarkDeepAll_eq_map]
      exact .intro trivial (List.forall_mem_map.2 ih)
    | map e entries | object entries =>
      rw [Value.unmarkDeep, unmarkDeepEntries_eq_mapValues]
      refine .intro trivial ?_
      rw [bare, content, Content.parts, values_mapValues]
      exact List.forall_mem_map.2 ih
    | union variants name inner =>
      rw [Value.unmarkDeep]
      refine .intro trivial fun w hw => ?_
      cases List.mem_singleton.1 hw
      exact ih inner List.mem_cons_self
    | _ => exact Sound.of_content (.intro here inside) (by simp only [Value.unmarkDeep]; rfl)

theorem Sound.conformTo (h : v.Sound heap) (e : Ty) : (conformTo e v).Sound heap := by
  unfold Value.conformTo
  split
  · exact h
  · split
    · exact .intro trivial (List.forall_mem_nil _)
    · exact .intro trivial (List.forall_mem_nil _)

/-- The elements of a new set are distinct. -/
theorem sound_setOf (h : ∀ v ∈ vs, v.Sound heap) : (setOf e vs).Sound heap := by
  obtain ⟨ps, sublist, perm, distinct, -⟩ :=
    RuleSet.exists_kept (ValueRules.mk e) Value.unmarkDeep (vs.map (Value.conformTo e))
  refine Sound.of_content (a := bare (.set e _)) (.intro ?_ fun w hw => ?_) (content_setOf e vs)
  · have symm {x y : Value} (apart : ¬ (Merged x y ∧ Merged y x)) : ¬ (Merged y x ∧ Merged x y) :=
      fun merged => apart merged.symm
    refine (perm.pairwise_iff symm).2 (List.pairwise_map.2 (distinct.imp ?_))
    intro x y apart merged
    refine apart ⟨merged.1.1, ?_⟩
    have equal := merged.1.2
    unfold Equal at equal
    rwa [← equals_of_unmarked (containsMarked_unmarkDeep x) (containsMarked_unmarkDeep y)] at equal
  · obtain ⟨p, hp, rfl⟩ := List.mem_map.1 (perm.mem_iff.1 hw)
    obtain ⟨v, hv, rfl⟩ := List.mem_map.1 (sublist.subset hp)
    exact ((h v hv).conformTo e).unmarkDeep

theorem sound_conformed (h : ∀ v ∈ vs, v.Sound heap) (e : Ty) :
    ∀ v ∈ vs.map (Value.conformTo e), v.Sound heap :=
  List.forall_mem_map.2 fun v hv => (h v hv).conformTo e

theorem sound_list (hv : ∀ v ∈ vs, v.Sound heap) (h : list vs = .ok b) : b.Sound heap := by
  obtain ⟨e, -, -, rfl⟩ := list_eq_ok h
  exact .intro trivial (sound_conformed hv e)

theorem sound_set (hv : ∀ v ∈ vs, v.Sound heap) (h : set vs = .ok b) : b.Sound heap := by
  obtain ⟨e, -, -, rfl⟩ := set_eq_ok h
  exact sound_setOf hv

theorem content_map {entries : List (String × Value)} (h : map entries = .ok b) :
    ∃ e, b.content = .map e (mapValues (Value.conformTo e) (Ty.namedParts entries)) := by
  unfold Value.map at h
  cases ht : elementTypeFor .map (values (Ty.namedParts entries))
      ((describeEntries (Ty.namedParts entries)).map Ty.braced) with
  | error =>
    simp only [ht] at h
    cases h
  | ok e =>
    simp only [ht] at h
    cases h
    exact ⟨e, rfl⟩

theorem sound_map {entries : List (String × Value)} (hv : ∀ v ∈ values entries, v.Sound heap)
    (h : map entries = .ok b) : b.Sound heap := by
  obtain ⟨e, hc⟩ := content_map h
  refine Sound.of_content (a := bare (.map e _)) (.intro trivial ?_) hc
  rw [bare, content, Content.parts, values_mapValues]
  exact sound_conformed (fun v hm => hv v (mem_values_namedParts hm)) e

theorem sound_object {attributes : List (String × Value)}
    (hv : ∀ v ∈ values attributes, v.Sound heap) : (object attributes).Sound heap :=
  .intro trivial fun v hm => hv v (mem_values_namedParts hm)

theorem sound_union {t : Ty} {name : String} (hv : v.Sound heap) (h : union t name v = .ok b) :
    b.Sound heap := by
  obtain ⟨variants, variant, hc⟩ := content_union h
  refine Sound.of_content (a := bare (.union variants variant v)) (.intro trivial ?_) hc
  intro w hw
  cases List.mem_singleton.1 hw
  exact hv

/-- The values that constructors make, with capsules that follow the laws. -/
inductive Built (heap : Heap) : Value → Prop
  | number (n : Number) : Built heap (number n)
  | string (s : String) : Built heap (string s)
  | bool (b : Bool) : Built heap (bool b)
  | null (t : Ty) : Built heap (null t)
  | refined (t : Ty) (r : Refinement) : Built heap (refined t r)
  | emptyList (e : Ty) : Built heap (emptyList e)
  | emptySet (e : Ty) : Built heap (emptySet e)
  | emptyMap (e : Ty) : Built heap (emptyMap e)
  | list {vs : List Value} {w : Value} (hv : ∀ v ∈ vs, Built heap v)
      (h : Value.list vs = .ok w) : Built heap w
  | set {vs : List Value} {w : Value} (hv : ∀ v ∈ vs, Built heap v)
      (h : Value.set vs = .ok w) : Built heap w
  | map {entries : List (String × Value)} {w : Value} (hv : ∀ v ∈ values entries, Built heap v)
      (h : Value.map entries = .ok w) : Built heap w
  | object {attributes : List (String × Value)} (hv : ∀ v ∈ values attributes, Built heap v) :
    Built heap (object attributes)
  | tuple {vs : List Value} (hv : ∀ v ∈ vs, Built heap v) : Built heap (tuple vs)
  | union {t : Ty} {name : String} {v w : Value} (hv : Built heap v)
      (h : Value.union t name v = .ok w) : Built heap w
  | capsule {c : CapsuleType} {p : Payload} {w : Value} (hc : c.Consistent) (live : heap.live p)
      (h : Value.capsule (.capsule c) p = .ok w) : Built heap w
  | withMarks {v : Value} (hv : Built heap v) (marks : MarkSet) : Built heap (v.withMarks marks)

/-- What constructors make keeps to what the laws of equality ask for. -/
theorem Built.sound (h : v.Built heap) : v.Sound heap := by
  induction h with
  | number | string | bool | null | refined | emptyList | emptyMap =>
    exact .intro trivial (List.forall_mem_nil _)
  | emptySet => exact .intro List.Pairwise.nil (List.forall_mem_nil _)
  | list _ h ih => exact sound_list ih h
  | set _ h ih => exact sound_set ih h
  | map _ h ih => exact sound_map ih h
  | object _ ih => exact sound_object ih
  | tuple _ ih => exact .intro trivial ih
  | union _ h ih => exact sound_union ih h
  | capsule hc live h =>
    rw [Value.capsule] at h
    split at h
    · cases h
      exact .intro ⟨hc, live, ‹_›⟩ (List.forall_mem_nil _)
    · cases h
  | withMarks _ marks ih => exact ih.of_content rfl

end Value

end ValueAlgebra
