import Mathlib
import ValueAlgebra.Proofs.SetEngine
import ValueAlgebra.Value.Equality

/-!
# Answers, and capsules that keep to the laws of equality

An answer to a question of equality is a bool or undecided. Capsules answer by operations that are
given for their type, and by identity where no operation is given. The operations have to follow the
laws of equality themselves (`CapsuleType.Consistent`). What makes identity sound is that one
identity belongs to one native value, among the payloads that are around (`Heap`).

Main statements:

* `CapsuleType.equals_symm`, `CapsuleType.equals_trans`, `CapsuleType.hashTokens_of_equals`: the
  laws of equality for payloads.
* `CapsuleType.rawEquals_laws`, `CapsuleType.hashTokens_of_rawEquals`: the same for `rawEquals`.
-/

namespace ValueAlgebra

/-! ## Answers -/

namespace Value

/-- A bool without marks, or an unknown. -/
def IsAnswer (v : Value) : Prop :=
  (∃ b, v = bool b) ∨ v.isKnown = false

/-- Two answers are both true, both false or both undecided. -/
structure SameAnswer (u v : Value) : Prop where
  known : u.isKnown = v.isKnown
  yes : u.isKnownTrue = v.isKnownTrue
  no : u.isKnownFalse = v.isKnownFalse

variable {u v : Value} {us vs : List Value}

theorem sameAnswer_of_eq (h : u = v) : SameAnswer u v := by
  rw [h]
  exact ⟨rfl, rfl, rfl⟩

theorem isAnswer_bool (b : Bool) : (bool b).IsAnswer :=
  .inl ⟨b, rfl⟩

theorem isAnswer_undecided : undecided.IsAnswer :=
  .inr rfl

@[simp] theorem isKnown_bool (b : Bool) : (bool b).isKnown = true :=
  rfl

@[simp] theorem isKnownTrue_bool (b : Bool) : (bool b).isKnownTrue = b := by
  cases b <;> rfl

@[simp] theorem isKnownFalse_bool (b : Bool) : (bool b).isKnownFalse = !b := by
  cases b <;> rfl

@[simp] theorem isKnownTrue_undecided : undecided.isKnownTrue = false :=
  rfl

@[simp] theorem isKnownFalse_undecided : undecided.isKnownFalse = false :=
  rfl

/-- A known answer is true or false. -/
theorem IsAnswer.isKnown (h : v.IsAnswer) (known : v.isKnown = true) :
    v.isKnownTrue = true ∨ v.isKnownFalse = true := by
  rcases h with ⟨b, rfl⟩ | unknown
  · cases b <;> simp
  · rw [known] at unknown
    cases unknown

theorem isKnown_of_isKnownTrue (h : v.isKnownTrue = true) : v.isKnown = true := by
  obtain ⟨m, c⟩ := v
  cases c <;> simp [isKnownTrue, isKnownBool, Value.isKnown] at h ⊢

theorem not_isKnownFalse_of_isKnownTrue (h : v.isKnownTrue = true) : v.isKnownFalse = false := by
  obtain ⟨m, c⟩ := v
  cases c <;> simp_all [isKnownTrue, isKnownFalse, isKnownBool]

/-! ### All answers together -/

theorem isAnswer_allEqual (vs : List Value) : (allEqual vs).IsAnswer := by
  unfold allEqual
  split
  · exact isAnswer_bool false
  split
  · exact isAnswer_bool true
  · exact isAnswer_undecided

theorem allEqual_congr (h : List.Forall₂ SameAnswer us vs) : allEqual us = allEqual vs := by
  have counts : us.any isKnownFalse = vs.any isKnownFalse ∧
      us.all Value.isKnown = vs.all Value.isKnown := by
    induction h with
    | nil => exact ⟨rfl, rfl⟩
    | cons same _ ih =>
      rw [List.any_cons, List.any_cons, List.all_cons, List.all_cons, same.no, same.known]
      rw [ih.1, ih.2]
      exact ⟨rfl, rfl⟩
  rw [allEqual, allEqual, counts.1, counts.2]

/-- All answers are true together if each of them is. -/
theorem allEqual_isKnownTrue (h : ∀ v ∈ vs, v.IsAnswer) :
    (allEqual vs).isKnownTrue = true ↔ ∀ v ∈ vs, v.isKnownTrue = true := by
  unfold allEqual
  split
  · rename_i no
    obtain ⟨v, hv, no⟩ := List.any_eq_true.1 no
    refine iff_of_false (by simp) fun all => ?_
    rw [not_isKnownFalse_of_isKnownTrue (all v hv)] at no
    cases no
  rename_i no
  rw [List.any_eq_true, not_exists] at no
  split
  · rename_i known
    rw [List.all_eq_true] at known
    refine iff_of_true (by simp) fun v hv => ?_
    exact ((h v hv).isKnown (known v hv)).resolve_right fun hn => no v ⟨hv, hn⟩
  · rename_i known
    refine iff_of_false (by simp) fun all => known ?_
    exact List.all_eq_true.2 fun v hv => isKnown_of_isKnownTrue (all v hv)

/-- Answers are false together if one of them is. -/
theorem allEqual_isKnownFalse :
    (allEqual vs).isKnownFalse = true ↔ ∃ v ∈ vs, v.isKnownFalse = true := by
  unfold allEqual
  split
  · rename_i no
    exact iff_of_true rfl (List.any_eq_true.1 no)
  · rename_i no
    rw [List.any_eq_true] at no
    refine iff_of_false ?_ no
    split <;> simp

end Value

/-! ## Capsules -/

/-- The payloads that are around. One identity belongs to one native value. -/
structure Heap where
  live : Payload → Prop
  faithful : ∀ {p q : Payload}, live p → live q → p.identity = q.identity → p.native = q.native

namespace CapsuleType

variable [Host]

/-- A native value of the kind that a capsule type holds. -/
def Takes (c : CapsuleType) (x : Native) : Prop :=
  x.kind = c.native

/-- What the operations of a capsule type have to keep to: they pass the check of new capsule types,
each equality is symmetric and transitive, `equals` gives answers, and natives that are equal by
either of them share their hash key. -/
structure Consistent (c : CapsuleType) : Prop where
  checked : c.operations.check c.name = .ok ()
  rawEquals : ∀ {same : Native → Native → Bool}, c.operations.rawEquals = some same →
    PartialEquivalence c.Takes fun x y => same x y = true
  answer : ∀ {equal : Native → Native → Value}, c.operations.equals = some equal →
    ∀ {x y : Native}, c.Takes x → c.Takes y → (equal x y).IsAnswer
  symm : ∀ {equal : Native → Native → Value}, c.operations.equals = some equal →
    ∀ {x y : Native}, c.Takes x → c.Takes y → (equal x y).SameAnswer (equal y x)
  trans : ∀ {equal : Native → Native → Value}, c.operations.equals = some equal →
    ∀ {x y z : Native}, c.Takes x → c.Takes y → c.Takes z → (equal x y).isKnownTrue = true →
      (equal y z).isKnownTrue = true → (equal x z).isKnownTrue = true
  keyOfSame : ∀ {key : Native → String}, c.operations.hashKey = some key →
    ∀ {same : Native → Native → Bool}, c.operations.rawEquals = some same →
      ∀ {x y : Native}, c.Takes x → c.Takes y → same x y = true → key x = key y
  keyOfEqual : ∀ {key : Native → String}, c.operations.hashKey = some key →
    ∀ {equal : Native → Native → Value}, c.operations.equals = some equal →
      ∀ {x y : Native}, c.Takes x → c.Takes y → (equal x y).isKnownTrue = true → key x = key y

/-- A payload that is around and that a capsule type holds. -/
def Holds (c : CapsuleType) (heap : Heap) (p : Payload) : Prop :=
  heap.live p ∧ c.Takes p.native

variable {c : CapsuleType} {heap : Heap} {p q r : Payload}

/-- The laws of a given operation are those of raw equality, and so are the laws of identity. -/
theorem rawEquals_laws_of (law : ∀ {same : Native → Native → Bool},
      c.operations.rawEquals = some same →
        PartialEquivalence c.Takes fun x y => same x y = true) :
    PartialEquivalence (fun p : Payload => c.Takes p.native) fun p q => c.rawEquals p q = true := by
  unfold rawEquals
  cases given : c.operations.rawEquals with
  | some same => exact ⟨(law given).symm, (law given).trans⟩
  | none =>
    constructor
    · intro p q _ _ same
      rw [beq_iff_eq] at same ⊢
      exact same.symm
    · intro p q r _ _ _ same same'
      rw [beq_iff_eq] at same same' ⊢
      exact same.trans same'

variable (h : c.Consistent)
include h

theorem rawEquals_laws :
    PartialEquivalence (c.Holds heap) fun p q => c.rawEquals p q = true where
  symm hp hq := (rawEquals_laws_of h.rawEquals).symm hp.2 hq.2
  trans hp hq hr := (rawEquals_laws_of h.rawEquals).trans hp.2 hq.2 hr.2

theorem hashTokens_of_rawEquals (hp : c.Holds heap p) (hq : c.Holds heap q)
    (same : c.rawEquals p q = true) : c.hashTokens p = c.hashTokens q := by
  unfold rawEquals at same
  unfold hashTokens
  cases key : c.operations.hashKey with
  | some key =>
    cases given : c.operations.rawEquals with
    | some _ =>
      rw [given] at same
      simp only [h.keyOfSame key given hp.2 hq.2 same]
    | none =>
      -- one identity belongs to one native value
      rw [given] at same
      simp only [heap.faithful hp.1 hq.1 (beq_iff_eq.1 same)]
  | none =>
    cases given : c.operations.rawEquals with
    | some _ => rfl
    | none =>
      rw [given] at same
      simp only [beq_iff_eq.1 same]

theorem equals_isAnswer (hp : c.Holds heap p) (hq : c.Holds heap q) :
    (c.equals p q).IsAnswer := by
  unfold equals
  cases given : c.operations.equals with
  | some _ => exact h.answer given hp.2 hq.2
  | none => exact Value.isAnswer_bool _

theorem equals_symm (hp : c.Holds heap p) (hq : c.Holds heap q) :
    (c.equals p q).SameAnswer (c.equals q p) := by
  unfold equals
  cases given : c.operations.equals with
  | some _ => exact h.symm given hp.2 hq.2
  | none =>
    have laws := @rawEquals_laws _ c heap h
    have same : c.rawEquals p q = c.rawEquals q p :=
      Bool.eq_iff_iff.2 ⟨laws.symm hp hq, laws.symm hq hp⟩
    exact Value.sameAnswer_of_eq (congrArg Value.bool same)

theorem equals_trans (hp : c.Holds heap p) (hq : c.Holds heap q) (hr : c.Holds heap r)
    (hpq : (c.equals p q).isKnownTrue = true) (hqr : (c.equals q r).isKnownTrue = true) :
    (c.equals p r).isKnownTrue = true := by
  unfold equals at *
  cases given : c.operations.equals with
  | some _ =>
    rw [given] at hpq hqr
    exact h.trans given hp.2 hq.2 hr.2 hpq hqr
  | none =>
    rw [given] at hpq hqr
    simp only [Value.isKnownTrue_bool] at hpq hqr ⊢
    exact (rawEquals_laws h).trans hp hq hr hpq hqr

theorem hashTokens_of_equals (hp : c.Holds heap p) (hq : c.Holds heap q)
    (equal : (c.equals p q).isKnownTrue = true) : c.hashTokens p = c.hashTokens q := by
  unfold equals at equal
  cases given : c.operations.equals with
  | none =>
    rw [given, Value.isKnownTrue_bool] at equal
    exact hashTokens_of_rawEquals h hp hq equal
  | some _ =>
    rw [given] at equal
    unfold hashTokens
    cases key : c.operations.hashKey with
    | some key => simp only [h.keyOfEqual key given hp.2 hq.2 equal]
    | none =>
      -- without a key, `rawEquals` has to be given, so that all of the type hash alike
      cases raw : c.operations.rawEquals with
      | some _ => rfl
      | none =>
        have checked := h.checked
        simp [CapsuleOperations.check, given, raw] at checked

end CapsuleType

end ValueAlgebra
