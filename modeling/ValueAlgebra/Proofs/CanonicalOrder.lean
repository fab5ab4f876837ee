import Mathlib
import ValueAlgebra.Proofs.MarkFlow
import ValueAlgebra.Proofs.Representation
import ValueAlgebra.Proofs.RunParts
import ValueAlgebra.Proofs.SetOrder

/-!
# The canonical order of set elements

The order of set elements is a total preorder on the values of each type. On numbers, strings and
bools it leaves no two elements in one place, so a set of them lists its elements in the one order
that there is, whatever the hashes are and in whichever order the elements were added. Two such sets
have the same representation exactly if they were made of the same elements.

Main statements:

* `Value.setOrder_swap`, `Value.setOrder_trans`: the laws of the order.
* `Value.precedes_of_setOrder`: different primitive values are never in one place of the order.
* `Value.eq_of_precedes`: strictly ascending lists of the same elements are the same.
* `Value.setOrder_canonical`: the order of any set elements, and what it makes of sets of primitive
  values.
-/

namespace ValueAlgebra

open Entries

theorem Number.order_swap (a b : Number) : b.order a = (a.order b).swap := by
  unfold order
  by_cases lt : a < b
  · have back : ¬ b < a := fun h => h (le_of_lt lt)
    rw [if_pos lt, if_neg back, if_pos lt]
    rfl
  · rw [if_neg lt, if_neg lt]
    split <;> rfl

namespace Value

variable [Host] {a b c v x y : Value} {e t : Ty} {rules : ValueRules}

/-! ## The order of set elements -/

theorem presentOrder_swap (h : a.content.Alike b.content) :
    presentOrder b a = (presentOrder a b).swap := by
  unfold presentOrder
  generalize a.content = c at h
  generalize b.content = d at h
  cases h with
  | number x y => exact Number.order_swap x y
  | _ =>
    dsimp only
    exact Std.OrientedCmp.eq_swap

/-- Two elements of one type compare the one way round as they do the other way round. -/
theorem setOrder_swap (h : a.ty = b.ty) : setOrder b a = (setOrder a b).swap := by
  unfold setOrder
  by_cases rank : a.setRank = b.setRank
  · rw [if_neg (not_not.2 rank.symm), if_neg (not_not.2 rank), rank]
    split
    · rfl
    · rename_i zero
      rw [not_not] at zero
      exact presentOrder_swap
        (alike_of_present (present_of_setRank (rank.trans zero)) (present_of_setRank zero) h)
  · rw [if_pos (Ne.symm rank), if_pos rank]
    exact Std.OrientedCmp.eq_swap

theorem setOrder_self (a : Value) : setOrder a a = .eq := by
  have swap := setOrder_swap (a := a) rfl
  cases h : setOrder a a with
  | eq => rfl
  | lt | gt =>
    rw [h] at swap
    cases swap

/-- The order is transitive among values of one type. -/
theorem setOrder_trans (hab : a.ty = b.ty) (hbc : b.ty = c.ty)
    (h : (setOrder a b).isLE = true) (h' : (setOrder b c).isLE = true) :
    (setOrder a c).isLE = true :=
  (orderOn_setOrder a.ty).trans rfl hab.symm (hab.trans hbc).symm h h'

/-! ## Primitive values -/

section

omit [Host]

/-- A primitive value of a type, or its null. -/
inductive Atom : Ty → Value → Prop
  | null (t : Ty) : Atom t (bare (.null t))
  | number (n : Number) : Atom .number (bare (.number n))
  | string (s : String) : Atom .string (bare (.string s))
  | bool (b : Bool) : Atom .bool (bare (.bool b))

theorem atom_unmark (ht : v.ty ∈ [Ty.number, .string, .bool]) (known : v.isWhollyKnown = true) :
    Atom v.ty v.unmark := by
  obtain ⟨m, c⟩ := v
  cases c with
  | null t => exact .null t
  | unknown => simp [isWhollyKnown] at known
  | number n => exact .number n
  | string s => exact .string s
  | bool b => exact .bool b
  | _ => simp [ty] at ht

theorem Atom.containsMarked (h : Atom t v) : v.containsMarked = false := by
  cases h <;> rfl

theorem Atom.ty (h : Atom t v) : v.ty = t := by
  cases h <;> rfl

theorem Atom.elementOf (h : Atom t v) : ElementOf t v :=
  ⟨h.ty, h.containsMarked⟩

end

/-- A set keeps one of two primitive values exactly if they are the same. -/
theorem Atom.merge_iff (hx : Atom t x) (hy : Atom t y) : RuleSet.Merge rules x y ↔ x = y := by
  have equal : (x.equals y).isKnownTrue = true ↔ x = y := by
    rw [equals_of_unmarked hx.containsMarked hy.containsMarked, equalsBare_eq]
    cases hx <;> cases hy <;>
      simp [equalsEarly?, compareContents, hasWhollyKnownType, bare, content, Value.ty]
  refine ⟨fun h => equal.1 h.2, fun h => ⟨?_, equal.2 h⟩⟩
  rw [h]

/-- Only the same primitive values have the same representation. -/
theorem Atom.same_iff (hx : Atom t x) (hy : Atom t y) : SameBy false x y ↔ x = y := by
  rw [SameBy, same.eq_def]
  cases hx <;> cases hy <;> simp [bare, content, Value.ty]

/-! ## Strictly ascending elements -/

/-- One set element stands strictly before another one: in the natural order of numbers, strings or
bools, or as one that is not null before the null. -/
inductive Precedes : Value → Value → Prop
  | number {m n : Number} (h : m < n) : Precedes (bare (.number m)) (bare (.number n))
  | string {s t : String} (h : s < t) : Precedes (bare (.string s)) (bare (.string t))
  | bool : Precedes (bare (.bool false)) (bare (.bool true))
  | null {v : Value} {t : Ty} (h : v.isNull = false) : Precedes v (bare (.null t))

section

omit [Host]

theorem Precedes.asymm (h : Precedes x y) (h' : Precedes y x) : False := by
  cases h with
  | number lt =>
    cases h' with
    | number lt' => exact lt' (Number.le_of_lt lt)
  | string lt =>
    cases h' with
    | string lt' => exact lt_asymm lt lt'
  | bool => cases h'
  | null present =>
    cases h' with
    | null null => cases null

theorem Precedes.ne (h : Precedes x y) : x ≠ y := by
  rintro rfl
  exact h.asymm h

/-- There is one way to list elements in strictly ascending order. -/
theorem eq_of_precedes {xs ys : List Value} (hx : xs.Pairwise Precedes) (hy : ys.Pairwise Precedes)
    (h : ∀ v, v ∈ xs ↔ v ∈ ys) : xs = ys := by
  have perm : xs.Perm ys := (List.perm_ext_iff_of_nodup (hx.imp Precedes.ne) (hy.imp Precedes.ne)).2 h
  exact perm.eq_of_pairwise (fun _ _ _ _ lt lt' => (lt.asymm lt').elim) hx hy

end

/-- Of two different primitive values, one stands strictly before the other. -/
theorem precedes_of_setOrder (hx : Atom t x) (hy : Atom t y) (le : (setOrder x y).isLE = true)
    (ne : x ≠ y) : Precedes x y := by
  cases hx with
  | null =>
    cases hy with
    | null => exact absurd rfl ne
    | number | string | bool => cases le
  | number m =>
    cases hy with
    | null => exact .null rfl
    | number n =>
      have le : m ≤ n := Number.order_isLE.1 le
      exact .number fun ge => ne (congrArg (bare <| .number ·) (Number.le_antisymm le ge))
  | string s =>
    cases hy with
    | null => exact .null rfl
    | string s' =>
      have le : (compareOfLessAndEq s s').isLE = true := le
      unfold compareOfLessAndEq at le
      split at le
      · rename_i lt
        exact .string lt
      · rw [if_neg fun eq => ne (congrArg (bare <| .string ·) eq)] at le
        cases le
  | bool b =>
    cases hy with
    | null => exact .null rfl
    | bool b' =>
      cases b <;> cases b' <;> first | exact .bool | exact absurd rfl ne | cases le

/-! ## Sets of primitive values -/

/-- A set of primitive values lists each of them once, in strictly ascending order. -/
theorem values_of_atoms (rules : ValueRules) {xs : List Value} (h : ∀ x ∈ xs, Atom e x) :
    (RuleSet.ofList rules xs).values.Pairwise Precedes ∧
      ∀ v, v ∈ (RuleSet.ofList rules xs).values ↔ v ∈ xs := by
  have atoms : ∀ x ∈ (RuleSet.ofList rules xs).values, Atom e x :=
    fun x hx => h x (RuleSet.mem_of_mem_ofList hx)
  have sorted : (RuleSet.ofList rules xs).values.Pairwise fun x y => (setOrder x y).isLE = true :=
    (orderOn_setOrder e).pairwise_mergeSort fun x hx =>
      (atoms x (RuleSet.mem_values.2 hx)).ty
  have apart : (RuleSet.ofList rules xs).values.Pairwise fun x y => ¬ RuleSet.Merge rules x y :=
    RuleSet.apart_values (ordered_setOrder e) rules fun x hx => (h x hx).elementOf
  refine ⟨(sorted.and apart).imp_of_mem fun {x y} hx hy both => ?_, fun v => ?_⟩
  · have ne : x ≠ y := fun eq => both.2 (((atoms x hx).merge_iff (atoms y hy)).2 eq)
    exact precedes_of_setOrder (atoms x hx) (atoms y hy) both.1 ne
  refine ⟨RuleSet.mem_of_mem_ofList, fun hv => ?_⟩
  obtain ⟨kept, sublist, perm, -, covered⟩ := RuleSet.exists_kept rules id xs
  rw [List.map_id, List.map_id] at perm
  rw [perm.mem_iff]
  rcases covered v hv with hv | ⟨w, hw, merge⟩
  · exact hv
  · rwa [← ((h w (sublist.subset hw)).merge_iff (h v hv)).1 merge]

/-- Two sets of primitive values have the same representation if they were made of the same ones. -/
theorem rawEquals_of_atoms {xs ys : List Value} {s t : Value} (hx : ∀ x ∈ xs, Atom e x)
    (hy : ∀ y ∈ ys, Atom e y) (hs : s.content = .set e (RuleSet.ofList rules xs).values)
    (ht : t.content = .set e (RuleSet.ofList rules ys).values) :
    s.rawEquals t = true ↔ ∀ v, v ∈ xs ↔ v ∈ ys := by
  obtain ⟨ascending, members⟩ := values_of_atoms rules hx
  obtain ⟨ascending', members'⟩ := values_of_atoms rules hy
  have typed : s.ty = t.ty :=
    (ty_of_content (w := bare (.set e _)) hs).trans (ty_of_content (w := bare (.set e _)) ht).symm
  have listed : s.rawEquals t = true ↔ List.Forall₂ (SameBy false)
      (RuleSet.ofList rules xs).values (RuleSet.ofList rules ys).values := by
    refine sameBy_iff.trans ?_
    rw [hs, ht]
    refine ⟨fun h => h.2.2.parts, fun h => ⟨nofun, typed, .set h⟩⟩
  rw [listed]
  constructor
  · intro same
    have each : List.Forall₂ (· = ·) (RuleSet.ofList rules xs).values
        (RuleSet.ofList rules ys).values := forall₂_of_mem same fun x hx' y hy' =>
      ((hx x (RuleSet.mem_of_mem_ofList hx')).same_iff (hy y (RuleSet.mem_of_mem_ofList hy'))).1
    rw [List.forall₂_eq_eq_eq] at each
    intro v
    rw [← members, ← members', each]
  · intro h
    have same := eq_of_precedes ascending ascending' fun v => by rw [members, members', h]
    rw [← same]
    refine List.forall₂_same.2 fun x hx' => ?_
    have atom := hx x (RuleSet.mem_of_mem_ofList hx')
    exact (atom.same_iff atom).2 rfl

/-- The order of set elements is a total preorder on the values of each type. Sets of known numbers,
strings or bools, or nulls of these types, list each of their elements once and in strictly
ascending order, and they have the same representation exactly if they have the same members. -/
theorem setOrder_canonical :
    (∀ a : Value, setOrder a a = .eq) ∧
    (∀ a b : Value, a.ty = b.ty → setOrder b a = (setOrder a b).swap) ∧
    (∀ a b c : Value, a.ty = b.ty → b.ty = c.ty → (setOrder a b).isLE = true →
      (setOrder b c).isLE = true → (setOrder a c).isLE = true) ∧
    ∀ (e : Ty) (xs ys : List Value), e ∈ [Ty.number, .string, .bool] → xs ≠ [] → ys ≠ [] →
      (∀ v ∈ xs ++ ys, v.ty = e ∧ v.isWhollyKnown = true) →
      ∃ s t items, set xs = .ok s ∧ set ys = .ok t ∧ s.unmark.toList = .ok items ∧
        items.Pairwise Precedes ∧ (∀ v, v ∈ items ↔ v ∈ xs.map unmark) ∧
        (s.rawEquals t = true ↔ ∀ v, v ∈ xs.map unmark ↔ v ∈ ys.map unmark) := by
  refine ⟨setOrder_self, fun a b => setOrder_swap, fun a b c => setOrder_trans, ?_⟩
  intro e xs ys he hx hy h
  have atoms {vs : List Value} (hv : ∀ v ∈ vs, v ∈ xs ++ ys) : ∀ v ∈ vs.map unmark, Atom e v := by
    intro v hmem
    obtain ⟨w, hw, rfl⟩ := List.mem_map.1 hmem
    obtain ⟨typed, known⟩ := h w (hv w hw)
    rw [← typed] at he ⊢
    exact atom_unmark he known
  have made {vs : List Value} (hne : vs ≠ []) (hv : ∀ v ∈ vs, v ∈ xs ++ ys) :
      ∃ s, set vs = .ok s ∧
        s.content = .set e (RuleSet.ofList (ValueRules.mk e) (vs.map unmark)).values := by
    have typed : ∀ v ∈ vs, v.ty = e := fun v hmem => (h v (hv v hmem)).1
    have unmarked : vs.map unmarkDeep = vs.map unmark := List.map_congr_left fun v hmem => by
      have atom := atoms hv v.unmark (List.mem_map_of_mem hmem)
      have same : v.unmarkDeep = v.unmark.unmarkDeep := unmarkDeep_of_content rfl
      rw [same, (unmarkDeep_of_unmarked atom.containsMarked).1]
    refine ⟨setOf e vs, set_of_common hne (commonType?_of_all hne typed), ?_⟩
    rw [content_setOf, map_conformTo_of_ty typed, unmarked]
  have left : ∀ v ∈ xs, v ∈ xs ++ ys := fun v => List.mem_append_left _
  have right : ∀ v ∈ ys, v ∈ xs ++ ys := fun v => List.mem_append_right _
  obtain ⟨s, hs, content⟩ := made hx left
  obtain ⟨t, ht, content'⟩ := made hy right
  obtain ⟨ascending, members⟩ := values_of_atoms ⟨e⟩ (atoms left)
  refine ⟨s, t, _, hs, ht, ?_, ascending, members,
    rawEquals_of_atoms (atoms left) (atoms right) content content'⟩
  rw [unmark, content]
  exact congrArg Except.ok (map_snd_numbered 0 _)

omit [Host] in
/-- Two and null and one, and one twice and two and null make the same set, even where all elements
have one hash. -/
theorem setOrder_canonical_numbers :
    letI := Host.plain
    (∀ v ∈ [ofNat 2, null .number, ofNat 1] ++ [ofNat 1, ofNat 1, ofNat 2, null .number],
      v.ty = .number ∧ v.isWhollyKnown = true) ∧
    ∃ s t, set [ofNat 2, null .number, ofNat 1] = .ok s ∧
      set [ofNat 1, ofNat 1, ofNat 2, null .number] = .ok t ∧ s.rawEquals t = true := by
  let := Host.plain
  have known : ∀ v ∈ [ofNat 2, null .number, ofNat 1] ++
      [ofNat 1, ofNat 1, ofNat 2, null .number], v.ty = .number ∧ v.isWhollyKnown = true := by
    decide
  refine ⟨known, ?_⟩
  obtain ⟨-, -, -, sets⟩ := setOrder_canonical
  obtain ⟨s, t, items, hs, ht, -, -, -, same⟩ := sets .number _ _ List.mem_cons_self
    (List.cons_ne_nil _ _) (List.cons_ne_nil _ _) known
  exact ⟨s, t, hs, ht, same.2 (by simp; tauto)⟩

end Value

end ValueAlgebra
