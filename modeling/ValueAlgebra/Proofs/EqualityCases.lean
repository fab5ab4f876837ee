import Mathlib
import ValueAlgebra.Proofs.CapsuleLaws
import ValueAlgebra.Proofs.Scope
import ValueAlgebra.Proofs.ValueParts

/-!
# The cases of equality

Two values are compared early if one of them is unknown or null, if a part of their types is open,
or if their types differ. What is left are two definite values of one type, and the answer follows
from the answers on their parts (`Value.compareContents`).

Main statements:

* `Value.equalsEarly?_comm`, `Value.equalsEarly?_eq_none`: when two values are compared early.
* `Value.equalsBare_eq`: the answer out of the answers on parts.
* `Value.equal_iff`: what it takes for two values to be known to be equal.
-/

namespace ValueAlgebra

open Entries

namespace Value

variable {a b c : Value} {t : Ty} {r : Refinement} {xs ys : List Value}

/-! ## Early answers -/

/-- A known value other than null. -/
def Present (v : Value) : Prop :=
  v.isKnown = true ∧ v.isNull = false

/-- A known value other than null with no part of its type open. -/
def Definite (v : Value) : Prop :=
  v.Present ∧ v.hasWhollyKnownType = true

theorem cases_present (v : Value) :
    (∃ t r, v.content = .unknown t r) ∨ (∃ t, v.content = .null t) ∨ v.Present := by
  obtain ⟨m, content⟩ := v
  cases content with
  | unknown t r => exact .inl ⟨t, r, rfl⟩
  | null t => exact .inr (.inl ⟨t, rfl⟩)
  | _ => exact .inr (.inr ⟨rfl, rfl⟩)

theorem isKnown_of_null (h : a.content = .null t) : a.isKnown = true := by
  obtain ⟨m, content⟩ := a
  cases h
  rfl

theorem isNull_iff : a.isNull = true ↔ ∃ t, a.content = .null t := by
  obtain ⟨m, content⟩ := a
  cases content <;> simp [isNull, content]

theorem isKnown_iff : a.isKnown = false ↔ ∃ t r, a.content = .unknown t r := by
  obtain ⟨m, content⟩ := a
  cases content <;> simp [isKnown, content]

theorem Present.not_unknown (h : a.Present) : a.content ≠ .unknown t r := by
  intro eq
  have unknown := isKnown_iff.2 ⟨t, r, eq⟩
  rw [h.1] at unknown
  cases unknown

theorem Present.not_null (h : a.Present) : a.content ≠ .null t := by
  intro eq
  have null := isNull_iff.2 ⟨t, eq⟩
  rw [h.2] at null
  cases null

theorem equalsEarly?_unknowns {u : Ty} {s : Refinement} (ha : a.content = .unknown t r)
    (hb : b.content = .unknown u s) : equalsEarly? a b = some undecided := by
  simp only [equalsEarly?, ha, hb]

theorem equalsEarly?_known_unknown (ha : a.isKnown = true) (hb : b.content = .unknown t r) :
    equalsEarly? a b = some (equalsUnknown a t r) := by
  obtain ⟨m, c⟩ := a
  obtain ⟨n, d⟩ := b
  cases hb
  cases c with
  | unknown => cases ha
  | _ => rfl

theorem equalsEarly?_unknown_known (ha : a.content = .unknown t r) (hb : b.isKnown = true) :
    equalsEarly? a b = some (equalsUnknown b t r) := by
  obtain ⟨m, c⟩ := a
  obtain ⟨n, d⟩ := b
  cases ha
  cases d with
  | unknown => cases hb
  | _ => rfl

theorem equalsEarly?_nulls {u : Ty} (ha : a.content = .null t) (hb : b.content = .null u) :
    equalsEarly? a b = some (bool true) := by
  simp only [equalsEarly?, ha, hb]

theorem equalsEarly?_null_present (ha : a.content = .null t) (hb : b.Present) :
    equalsEarly? a b = some (bool false) := by
  obtain ⟨m, c⟩ := a
  obtain ⟨n, d⟩ := b
  cases ha
  cases d with
  | unknown => cases hb.1
  | null => cases hb.2
  | _ => rfl

theorem equalsEarly?_present_null (ha : a.Present) (hb : b.content = .null t) :
    equalsEarly? a b = some (bool false) := by
  obtain ⟨m, c⟩ := a
  obtain ⟨n, d⟩ := b
  cases hb
  cases c with
  | unknown => cases ha.1
  | null => cases ha.2
  | _ => rfl

theorem equalsEarly?_present (ha : a.Present) (hb : b.Present) :
    equalsEarly? a b =
      if !a.hasWhollyKnownType || !b.hasWhollyKnownType then
        some (if a.ty.conforms b.ty || b.ty.conforms a.ty then undecided else bool false)
      else if a.ty ≠ b.ty then some (bool false)
      else none := by
  unfold equalsEarly?
  split
  · exact absurd ‹_› ha.not_unknown
  · exact absurd ‹_› hb.not_unknown
  · exact absurd ‹_› ha.not_unknown
  · exact absurd ‹_› ha.not_null
  · exact absurd ‹_› ha.not_null
  · exact absurd ‹_› hb.not_null
  · rfl

theorem equalsEarly?_comm (a b : Value) : equalsEarly? a b = equalsEarly? b a := by
  rcases cases_present a with ⟨t, r, ha⟩ | ⟨t, ha⟩ | ha <;>
    rcases cases_present b with ⟨u, s, hb⟩ | ⟨u, hb⟩ | hb
  · rw [equalsEarly?_unknowns ha hb, equalsEarly?_unknowns hb ha]
  · rw [equalsEarly?_unknown_known ha (isKnown_of_null hb),
      equalsEarly?_known_unknown (isKnown_of_null hb) ha]
  · rw [equalsEarly?_unknown_known ha hb.1, equalsEarly?_known_unknown hb.1 ha]
  · rw [equalsEarly?_known_unknown (isKnown_of_null ha) hb,
      equalsEarly?_unknown_known hb (isKnown_of_null ha)]
  · rw [equalsEarly?_nulls ha hb, equalsEarly?_nulls hb ha]
  · rw [equalsEarly?_null_present ha hb, equalsEarly?_present_null hb ha]
  · rw [equalsEarly?_known_unknown ha.1 hb, equalsEarly?_unknown_known hb ha.1]
  · rw [equalsEarly?_present_null ha hb, equalsEarly?_null_present hb ha]
  · rw [equalsEarly?_present ha hb, equalsEarly?_present hb ha]
    simp only [Bool.or_comm, ne_comm]

/-- Two values are compared by what they hold if they are definite and of one type. -/
theorem equalsEarly?_eq_none :
    equalsEarly? a b = none ↔ a.Definite ∧ b.Definite ∧ a.ty = b.ty := by
  rcases cases_present a with ⟨t, r, ha⟩ | ⟨t, ha⟩ | ha
  · refine iff_of_false ?_ fun h => h.1.1.not_unknown ha
    rcases cases_present b with ⟨u, s, hb⟩ | ⟨u, hb⟩ | hb
    · simp [equalsEarly?_unknowns ha hb]
    · simp [equalsEarly?_unknown_known ha (isKnown_of_null hb)]
    · simp [equalsEarly?_unknown_known ha hb.1]
  · refine iff_of_false ?_ fun h => h.1.1.not_null ha
    rcases cases_present b with ⟨u, s, hb⟩ | ⟨u, hb⟩ | hb
    · simp [equalsEarly?_known_unknown (isKnown_of_null ha) hb]
    · simp [equalsEarly?_nulls ha hb]
    · simp [equalsEarly?_null_present ha hb]
  · rcases cases_present b with ⟨u, s, hb⟩ | ⟨u, hb⟩ | hb
    · simp [equalsEarly?_known_unknown ha.1 hb, Definite, Present, isKnown_iff.2 ⟨u, s, hb⟩]
    · simp [equalsEarly?_present_null ha hb, Definite, Present, isNull_iff.2 ⟨u, hb⟩]
    · rw [equalsEarly?_present ha hb]
      simp only [Definite, ha, hb, true_and]
      cases a.hasWhollyKnownType <;> cases b.hasWhollyKnownType <;> simp

theorem equalsUnknown_eq (a : Value) (t : Ty) (r : Refinement) :
    equalsUnknown a t r = undecided ∨ equalsUnknown a t r = bool false := by
  unfold equalsUnknown
  repeat' split
  all_goals first | exact .inl rfl | exact .inr rfl

/-- An early answer is true for two nulls only. -/
theorem equalsEarly?_eq_some {v : Value} (h : equalsEarly? a b = some v) :
    (v = bool true ∧ a.isNull = true ∧ b.isNull = true) ∨
    ((v = undecided ∨ v = bool false) ∧ ¬ (a.isNull = true ∧ b.isNull = true)) := by
  rcases cases_present a with ⟨t, r, ha⟩ | ⟨t, ha⟩ | ha
  · refine .inr ⟨?_, fun null => ?_⟩
    · rcases cases_present b with ⟨u, s, hb⟩ | ⟨u, hb⟩ | hb
      · rw [equalsEarly?_unknowns ha hb] at h
        exact .inl (Option.some.inj h).symm
      · rw [equalsEarly?_unknown_known ha (isKnown_of_null hb)] at h
        exact Option.some.inj h ▸ equalsUnknown_eq ..
      · rw [equalsEarly?_unknown_known ha hb.1] at h
        exact Option.some.inj h ▸ equalsUnknown_eq ..
    · obtain ⟨u, hu⟩ := isNull_iff.1 null.1
      rw [ha] at hu
      cases hu
  · rcases cases_present b with ⟨u, s, hb⟩ | ⟨u, hb⟩ | hb
    · refine .inr ⟨?_, fun null => ?_⟩
      · rw [equalsEarly?_known_unknown (isKnown_of_null ha) hb] at h
        exact Option.some.inj h ▸ equalsUnknown_eq ..
      · obtain ⟨w, hw⟩ := isNull_iff.1 null.2
        rw [hb] at hw
        cases hw
    · rw [equalsEarly?_nulls ha hb] at h
      exact .inl ⟨(Option.some.inj h).symm, isNull_iff.2 ⟨t, ha⟩, isNull_iff.2 ⟨u, hb⟩⟩
    · rw [equalsEarly?_null_present ha hb] at h
      exact .inr ⟨.inr (Option.some.inj h).symm, fun null => by simp [hb.2] at null⟩
  · refine .inr ⟨?_, fun null => by simp [ha.2] at null⟩
    rcases cases_present b with ⟨u, s, hb⟩ | ⟨u, hb⟩ | hb
    · rw [equalsEarly?_known_unknown ha.1 hb] at h
      exact Option.some.inj h ▸ equalsUnknown_eq ..
    · rw [equalsEarly?_present_null ha hb] at h
      exact .inr (Option.some.inj h).symm
    · rw [equalsEarly?_present ha hb] at h
      repeat' split at h
      all_goals cases h
      all_goals first | exact .inl rfl | exact .inr rfl

theorem isAnswer_equalsEarly? {v : Value} (h : equalsEarly? a b = some v) : v.IsAnswer := by
  rcases equalsEarly?_eq_some h with ⟨rfl, -⟩ | ⟨rfl | rfl, -⟩
  · exact isAnswer_bool true
  · exact isAnswer_undecided
  · exact isAnswer_bool false

/-- Only nulls are known to be equal early. -/
theorem isKnownTrue_equalsEarly? {v : Value} (h : equalsEarly? a b = some v) :
    v.isKnownTrue = true ↔ a.isNull = true ∧ b.isNull = true := by
  rcases equalsEarly?_eq_some h with ⟨rfl, null⟩ | ⟨rfl | rfl, present⟩
  · exact iff_of_true (isKnownTrue_bool true) null
  · exact iff_of_false (by simp) present
  · exact iff_of_false (by simp) present

/-! ## Answers out of answers on parts -/

variable [Host]

/-- Two values are known to be equal. -/
def Equal (a b : Value) : Prop :=
  (equalsBare a b).isKnownTrue = true

/-- Two elements of which a set keeps the first one only. -/
def Merged (x y : Value) : Prop :=
  x.hash = y.hash ∧ Equal x y

instance (a b : Value) : Decidable (Equal a b) :=
  inferInstanceAs (Decidable (_ = true))

instance (x y : Value) : Decidable (Merged x y) :=
  inferInstanceAs (Decidable (_ ∧ _))

/-- The answer for definite values of one type, out of the answers on their parts. -/
def compareContents : Content → Content → Value
  | .number x, .number y => bool (x == y)
  | .string x, .string y => bool (x == y)
  | .bool x, .bool y => bool (x == y)
  | .list _ xs, .list _ ys | .tuple xs, .tuple ys =>
    if xs.length = ys.length then allEqual (List.zipWith equalsBare xs ys) else bool false
  | .map _ xs, .map _ ys | .object xs, .object ys =>
    if names xs = names ys then
      allEqual (List.zipWith equalsBare (values xs) (values ys))
    else bool false
  | .set _ xs, .set _ ys =>
    if allWhollyKnown xs && allWhollyKnown ys then
      bool (xs.length = ys.length ∧ ∀ x ∈ xs, ∃ y ∈ ys, Merged x y)
    else undecided
  | .union _ v x, .union _ w y => if v = w then equalsBare x y else bool false
  | .capsule c p, .capsule _ q => c.equals p q
  | _, _ => bool false

theorem equalsEach_eq (xs ys : List Value) : equalsEach xs ys = List.zipWith equalsBare xs ys := by
  induction xs generalizing ys with
  | nil => rw [equalsEach] <;> simp
  | cons x xs ih =>
    cases ys with
    | nil => rw [equalsEach] <;> simp
    | cons y ys => rw [equalsEach, ih, List.zipWith_cons_cons]

theorem equalsEachEntry_eq (xs : List (String × Value)) (ys : List Value) :
    equalsEachEntry xs ys = List.zipWith equalsBare (values xs) ys := by
  induction xs generalizing ys with
  | nil => rw [equalsEachEntry] <;> simp [values]
  | cons x xs ih =>
    obtain ⟨name, x⟩ := x
    cases ys with
    | nil => rw [equalsEachEntry] <;> simp
    | cons y ys => rw [equalsEachEntry, ih, values_cons, List.zipWith_cons_cons]

theorem allFound_iff : allFound xs ys = true ↔ ∀ x ∈ xs, ∃ y ∈ ys, Merged x y := by
  induction xs with
  | nil => simp [allFound]
  | cons x xs ih =>
    rw [allFound, Bool.and_eq_true, ih, List.any_eq_true, List.forall_mem_cons]
    simp only [Merged, Equal, Bool.and_eq_true, beq_iff_eq]

/-- The answer is an early one, or it follows from the answers on parts. -/
theorem equalsBare_eq (a b : Value) :
    equalsBare a b = (equalsEarly? a b).getD (compareContents a.content b.content) := by
  obtain ⟨m, c⟩ := a
  unfold equalsBare
  cases equalsEarly? ⟨m, c⟩ b with
  | some answer => rfl
  | none =>
    simp only [Option.getD_none, content]
    unfold compareContents
    split
    all_goals try simp only [*, equalsEach_eq, equalsEachEntry_eq]
    -- the elements of two sets
    congr 2
    rw [Bool.eq_iff_iff, Bool.and_eq_true, beq_iff_eq, allFound_iff, decide_eq_true_iff]

/-! ## Values that are known to be equal -/

end Value

namespace Content

/-- Contents of one kind and one type. -/
inductive Alike : Content → Content → Prop
  | number (x y : Number) : Alike (.number x) (.number y)
  | string (x y : String) : Alike (.string x) (.string y)
  | bool (x y : Bool) : Alike (.bool x) (.bool y)
  | list (e : Ty) (xs ys : List Value) : Alike (.list e xs) (.list e ys)
  | set (e : Ty) (xs ys : List Value) : Alike (.set e xs) (.set e ys)
  | map (e : Ty) (xs ys : List (String × Value)) : Alike (.map e xs) (.map e ys)
  | object {xs ys : List (String × Value)} (hn : names xs = names ys) :
    Alike (.object xs) (.object ys)
  | tuple {xs ys : List Value} (hl : xs.length = ys.length) : Alike (.tuple xs) (.tuple ys)
  | union (variants : List (String × Ty)) (v w : String) (x y : Value) :
    Alike (.union variants v x) (.union variants w y)
  | capsule (c : CapsuleType) (p q : Payload) : Alike (.capsule c p) (.capsule c q)

/-- Contents that are known to be equal. -/
inductive Agree [Host] : Content → Content → Prop
  | matched {c d : Content} (h : Matched Value.Equal c d) : Agree c d
  | set {e : Ty} {xs ys : List Value} (hx : Value.allWhollyKnown xs = true)
      (hy : Value.allWhollyKnown ys = true) (length : xs.length = ys.length)
      (found : ∀ x ∈ xs, ∃ y ∈ ys, Value.Merged x y) : Agree (.set e xs) (.set e ys)
  | capsule {c : CapsuleType} {p q : Payload} (h : (c.equals p q).isKnownTrue = true) :
    Agree (.capsule c p) (.capsule c q)

end Content

namespace Value

theorem alike_of_present {a b : Value} (ha : a.Present) (hb : b.Present) (ht : a.ty = b.ty) :
    Content.Alike a.content b.content := by
  obtain ⟨m, c⟩ := a
  obtain ⟨n, d⟩ := b
  cases c with
  | unknown => cases ha.1
  | null => cases ha.2
  | object xs =>
    cases d with
    | unknown => cases hb.1
    | null => cases hb.2
    | object ys =>
      simp only [ty, Ty.object.injEq] at ht
      exact .object (by rw [← names_entryTypes, ht.1, names_entryTypes])
    | _ =>
      simp only [ty] at ht
      cases ht
  | tuple xs =>
    cases d with
    | unknown => cases hb.1
    | null => cases hb.2
    | tuple ys =>
      simp only [ty, Ty.tuple.injEq] at ht
      exact .tuple (by rw [← length_types, ht, length_types])
    | _ =>
      simp only [ty] at ht
      cases ht
  | _ =>
    cases d with
    | unknown => cases hb.1
    | null => cases hb.2
    | _ =>
      simp only [ty] at ht
      cases ht
      try constructor

end Value

/-! ### Inversion -/

namespace Content

variable [Host] {e : Ty} {xs ys : List Value}

theorem agree_number {x y : Number} : Agree (.number x) (.number y) ↔ x = y := by
  constructor
  · rintro (⟨⟨⟩⟩)
    rfl
  · rintro rfl
    exact .matched (.number x)

theorem agree_string {x y : String} : Agree (.string x) (.string y) ↔ x = y := by
  constructor
  · rintro (⟨⟨⟩⟩)
    rfl
  · rintro rfl
    exact .matched (.string x)

theorem agree_bool {x y : Bool} : Agree (.bool x) (.bool y) ↔ x = y := by
  constructor
  · rintro (⟨⟨⟩⟩)
    rfl
  · rintro rfl
    exact .matched (.bool x)

theorem agree_list : Agree (.list e xs) (.list e ys) ↔ List.Forall₂ Value.Equal xs ys := by
  constructor
  · rintro (⟨⟨⟩⟩)
    assumption
  · exact fun h => .matched (.list h)

theorem agree_tuple : Agree (.tuple xs) (.tuple ys) ↔ List.Forall₂ Value.Equal xs ys := by
  constructor
  · rintro (⟨⟨⟩⟩)
    assumption
  · exact fun h => .matched (.tuple h)

theorem agree_map {xs ys : List (String × Value)} : Agree (.map e xs) (.map e ys) ↔
    names xs = names ys ∧ List.Forall₂ Value.Equal (values xs) (values ys) := by
  constructor
  · rintro (⟨⟨⟩⟩)
    exact ⟨‹_›, ‹_›⟩
  · exact fun h => .matched (.map h.1 h.2)

theorem agree_object {xs ys : List (String × Value)} : Agree (.object xs) (.object ys) ↔
    names xs = names ys ∧ List.Forall₂ Value.Equal (values xs) (values ys) := by
  constructor
  · rintro (⟨⟨⟩⟩)
    exact ⟨‹_›, ‹_›⟩
  · exact fun h => .matched (.object h.1 h.2)

theorem agree_set : Agree (.set e xs) (.set e ys) ↔
    (Value.allWhollyKnown xs = true ∧ Value.allWhollyKnown ys = true) ∧
      xs.length = ys.length ∧ ∀ x ∈ xs, ∃ y ∈ ys, Value.Merged x y := by
  constructor
  · rintro (⟨⟨⟩⟩ | ⟨hx, hy, length, found⟩)
    exact ⟨⟨hx, hy⟩, length, found⟩
  · exact fun h => .set h.1.1 h.1.2 h.2.1 h.2.2

theorem agree_union {variants : List (String × Ty)} {v w : String} {x y : Value} :
    Agree (.union variants v x) (.union variants w y) ↔ v = w ∧ Value.Equal x y := by
  constructor
  · rintro (⟨⟨⟩⟩)
    exact ⟨rfl, ‹_›⟩
  · rintro ⟨rfl, h⟩
    exact .matched (.union h)

theorem agree_capsule {c : CapsuleType} {p q : Payload} :
    Agree (.capsule c p) (.capsule c q) ↔ (c.equals p q).isKnownTrue = true := by
  constructor
  · rintro (⟨⟨⟩⟩ | _ | h)
    exact h
  · exact .capsule

end Content

namespace Value

theorem forall_zipWith_iff {p : Value → Prop} {f : Value → Value → Value} {xs ys : List Value}
    (hl : xs.length = ys.length) :
    (∀ v ∈ List.zipWith f xs ys, p v) ↔ List.Forall₂ (fun x y => p (f x y)) xs ys := by
  induction xs generalizing ys with
  | nil =>
    cases ys with
    | nil => simp
    | cons y ys => cases hl
  | cons x xs ih =>
    cases ys with
    | nil => cases hl
    | cons y ys =>
      rw [List.zipWith_cons_cons, List.forall_mem_cons, List.forall₂_cons, ih (Nat.succ.inj hl)]

theorem forall_zipWith {p : Value → Prop} {f : Value → Value → Value} {xs ys : List Value}
    (h : ∀ x ∈ xs, ∀ y ∈ ys, p (f x y)) : ∀ v ∈ List.zipWith f xs ys, p v := by
  intro v hv
  obtain ⟨i, hi, rfl⟩ := List.mem_iff_getElem.1 hv
  rw [List.getElem_zipWith]
  exact h _ (List.getElem_mem _) _ (List.getElem_mem _)

variable [Host] {a b : Value} {xs ys : List Value}

/-- Values are known to be equal together if they are known to be equal one by one. -/
theorem allEqual_zipWith (h : ∀ x ∈ xs, ∀ y ∈ ys, (equalsBare x y).IsAnswer)
    (hl : xs.length = ys.length) :
    (allEqual (List.zipWith equalsBare xs ys)).isKnownTrue = true ↔ List.Forall₂ Equal xs ys := by
  rw [allEqual_isKnownTrue (forall_zipWith h), forall_zipWith_iff hl]
  rfl

theorem compareContents_iff {c d : Content} (alike : c.Alike d)
    (h : ∀ x ∈ c.parts, ∀ y ∈ d.parts, (equalsBare x y).IsAnswer) :
    (compareContents c d).isKnownTrue = true ↔ c.Agree d := by
  cases alike with
  | number x y => rw [Content.agree_number, compareContents, isKnownTrue_bool, beq_iff_eq]
  | string x y => rw [Content.agree_string, compareContents, isKnownTrue_bool, beq_iff_eq]
  | bool x y => rw [Content.agree_bool, compareContents, isKnownTrue_bool, beq_iff_eq]
  | list e xs ys =>
    rw [Content.agree_list, compareContents]
    split
    · exact allEqual_zipWith h ‹_›
    · rename_i hl
      exact iff_of_false (by simp) fun same => hl same.length_eq
  | tuple hl =>
    rw [Content.agree_tuple, compareContents, if_pos hl]
    exact allEqual_zipWith h hl
  | map e xs ys =>
    rw [Content.agree_map, compareContents]
    split
    · rename_i hn
      exact (allEqual_zipWith h (length_values_of_names hn)).trans (and_iff_right hn).symm
    · rename_i hn
      exact iff_of_false (by simp) fun same => hn same.1
  | object hn =>
    rw [Content.agree_object, compareContents, if_pos hn]
    exact (allEqual_zipWith h (length_values_of_names hn)).trans (and_iff_right hn).symm
  | set e xs ys =>
    rw [Content.agree_set, compareContents, ← Bool.and_eq_true]
    split
    · rename_i known
      rw [isKnownTrue_bool, decide_eq_true_iff]
      exact (and_iff_right known).symm
    · rename_i known
      exact iff_of_false (by simp) fun same => known same.1
  | union variants v w x y =>
    rw [Content.agree_union, compareContents]
    split
    · exact (and_iff_right ‹_›).symm
    · rename_i hv
      exact iff_of_false (by simp) fun same => hv same.1
  | capsule c p q => rw [Content.agree_capsule, compareContents]

/-- Two values are known to be equal if both are null, or if they are definite values of one type
with contents that are known to be equal. -/
theorem equal_iff
    (h : ∀ x ∈ a.content.parts, ∀ y ∈ b.content.parts, (equalsBare x y).IsAnswer) :
    Equal a b ↔ (a.isNull = true ∧ b.isNull = true) ∨
      ((a.Definite ∧ b.Definite ∧ a.ty = b.ty) ∧ a.content.Agree b.content) := by
  unfold Equal
  rw [equalsBare_eq]
  cases early : equalsEarly? a b with
  | some v =>
    rw [Option.getD_some, isKnownTrue_equalsEarly? early, ← equalsEarly?_eq_none, early]
    simp
  | none =>
    have definite := equalsEarly?_eq_none.1 early
    rw [Option.getD_none,
      compareContents_iff (alike_of_present definite.1.1 definite.2.1.1 definite.2.2) h]
    simp only [definite, true_and, definite.1.1.2, Bool.false_eq_true, false_and, false_or]

end Value

end ValueAlgebra
