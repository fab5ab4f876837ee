import Mathlib
import ValueAlgebra.Proofs.CompletedEquality
import ValueAlgebra.Proofs.Narrowing
import ValueAlgebra.Proofs.WellMade

/-!
# Values in a range

The range of an unknown rules a known value out if the value is null where null is impossible, if its
type is another one, or if what is known about the unknown does not admit it. So a value that meets
what is known is ruled out by its type alone. Types are compared as they stand here. The dynamic
parts of the type of an unknown leave other types possible, but nothing is made of that unless the
whole type is dynamic.

Main statements:

* `Refinement.admits_iff`: what is admitted meets what is known, for one of the lengths that a set
  may turn out to have.
* `Range.includes_unknown_eq_false_iff`: what the range of an unknown rules out.
* `Range.includes_eq_false_iff_of_mayMeet`: what it rules out although it meets what is known.
-/

namespace ValueAlgebra

namespace Refinement

/-- A known content meets a refinement, or may turn out to. Elements of a set that are not wholly
known may turn out to be equal to others, so the set may have any length in its own range. -/
def MayMeet (r : Refinement) : Content → Prop
  | .set e items => r.nullness ≠ .null ∧
    ∃ n, (ofContent (.set e items)).minLength ≤ n ∧ n ≤ items.length ∧ Meets.MeetsLength r n
  | c => r.Meets c

variable {r : Refinement} {c : Content}

theorem mayMeet_of_meets (h : r.Meets c) : r.MayMeet c := by
  cases c with
  | set e items =>
    exact ⟨h.1, items.length, minLength_set_le e, Nat.le_refl _, h.2⟩
  | _ => exact h

/-- What may meet a refinement is admitted. -/
theorem admits_of_mayMeet (h : r.MayMeet c) : r.admits c = true := by
  cases c with
  | number n =>
    rw [admits, Bool.and_eq_true]
    exact h.2
  | string s =>
    rw [admits, List.isPrefixOf_iff_prefix]
    exact h.2
  | list e items => exact Value.admitsLength_iff.2 h.2
  | map e entries => exact Value.admitsLength_iff.2 h.2
  | set e items =>
    obtain ⟨-, n, least, greatest, meets⟩ := h
    rw [admits]
    split
    · rename_i single
      rw [minLength_set_eq e single] at least
      exact Value.admitsLength_iff.2 (Nat.le_antisymm greatest least ▸ meets)
    · rfl
  | _ => rfl

/-- What is admitted meets what is known, if there is nothing in it that is unknown. -/
theorem meets_of_admits (known : ∀ v ∈ c.parts, v.isWhollyKnown = true)
    (present : ∀ t, c ≠ .null t) (some : r.nullness ≠ .null) (h : r.admits c = true) :
    r.Meets c := by
  cases c with
  | null t => exact absurd rfl (present t)
  | number n =>
    rw [admits, Bool.and_eq_true] at h
    exact ⟨some, h⟩
  | string s =>
    rw [admits, List.isPrefixOf_iff_prefix] at h
    exact ⟨some, h⟩
  | list e items => exact ⟨some, Value.admitsLength_iff.1 h⟩
  | map e entries => exact ⟨some, Value.admitsLength_iff.1 h⟩
  | set e items =>
    have whole : (Value.allWhollyKnown items || items.length == 1) = true := by
      rw [Bool.or_eq_true]
      exact .inl (Value.allWhollyKnown_iff.2 known)
    rw [admits, if_pos whole] at h
    exact ⟨some, Value.admitsLength_iff.1 h⟩
  | _ => exact some

end Refinement

namespace Range

open Value

section

variable [Host] {R : Range} {u v : Value} {t s : Ty} {r : Refinement}

/-! ## Answers about values without marks -/

theorem includesBare_unknown_null (hr : R.raw.content = .unknown t r) (hv : v.content = .null s) :
    R.includesBare v = if R.couldBeNull then undecided else bool false := by
  simp only [includesBare, hr, hv]

theorem includesBare_unknown_present (hr : R.raw.content = .unknown t r) (hv : v.Present) :
    R.includesBare v =
      if t = .dynamic ∨ v.ty = .dynamic then undecided
      else if v.ty ≠ t then bool false
      else if r.admits v.content then undecided
      else bool false := by
  obtain ⟨⟨m, c⟩, refinement⟩ := R
  obtain ⟨n, d⟩ := v
  cases hr
  cases d with
  | unknown => cases hv.1
  | null => cases hv.2
  | _ => rfl

theorem includesBare_null (hr : R.raw.content = .null t) (hv : v.isKnown = true) :
    R.includesBare v = bool v.isNull := by
  obtain ⟨⟨m, c⟩, refinement⟩ := R
  obtain ⟨n, d⟩ := v
  cases hr
  cases d with
  | unknown => cases hv
  | _ => rfl

theorem includesBare_present (hr : R.raw.Present) : R.includesBare v = R.raw.equals v := by
  obtain ⟨⟨m, c⟩, refinement⟩ := R
  cases c with
  | unknown => cases hr.1
  | null => cases hr.2
  | _ => rfl

/-! ## Answers about any value -/

/-- The range of an unknown rules out null where null is impossible, values of other types, and what
does not meet what is known. -/
theorem includes_unknown_eq_false_iff (hu : u.content = .unknown t r) (hv : v.isKnown = true) :
    (u.range.includes v).content = .bool false ↔
      v.isNull = true ∧ r.nullness = .notNull ∨
        v.isNull = false ∧ t ≠ .dynamic ∧ (v.ty = t → r.admits v.content = false) := by
  have raw : u.range.raw.content = .unknown t r := hu
  have couldBeNull : u.range.couldBeNull = (r.nullness != .notNull) := by
    rw [couldBeNull, show u.range.refinement = .ofContent u.content from rfl, hu]
    rfl
  have unmarked : (u.range.includes v).content = (u.range.includesBare v.unmarkDeep).content :=
    rfl
  have unsettled : undecided.content ≠ .bool false := fun same => by cases same
  have refused : (Value.bool false).content = .bool false := rfl
  rw [unmarked]
  cases null : v.isNull with
  | true =>
    obtain ⟨s, hc⟩ := isNull_iff.1 ((isNull_unmarkDeep v).trans null)
    rw [includesBare_unknown_null raw hc, couldBeNull]
    cases r.nullness <;> simp [unsettled, refused]
  | false =>
    have present : v.Present := ⟨hv, null⟩
    have typed : v.ty ≠ .dynamic := fun dynamic => by
      rw [isNull_of_ty_dynamic hv dynamic] at null
      cases null
    rw [includesBare_unknown_present raw (present_unmarkDeep present), ty_unmarkDeep,
      admits_unmarkDeep]
    by_cases ht : t = .dynamic
    · simp [ht, unsettled]
    by_cases same : v.ty = t
    · cases r.admits v.content <;> simp [ht, same, unsettled, refused]
    · simp [ht, typed, same, refused]

/-- Of the values that meet what is known, the range of an unknown rules out those of which the type
is not the type of the unknown. -/
theorem includes_eq_false_iff_of_mayMeet (hu : u.content = .unknown t r) (hv : v.isKnown = true)
    (meets : r.MayMeet v.content) :
    (u.range.includes v).content = .bool false ↔ v.isNull = false ∧ t ≠ .dynamic ∧ v.ty ≠ t := by
  rw [includes_unknown_eq_false_iff hu hv]
  constructor
  · rintro (⟨null, notNull⟩ | ⟨present, closed, other⟩)
    · obtain ⟨s, hc⟩ := isNull_iff.1 null
      rw [hc] at meets
      exact absurd notNull meets
    · refine ⟨present, closed, fun same => ?_⟩
      have refused := other same
      rw [Refinement.admits_of_mayMeet meets] at refused
      cases refused
  · rintro ⟨present, closed, other⟩
    exact .inr ⟨present, closed, fun same => absurd same other⟩

end

/-- Two elements that may turn out equal are among one to three numbers. -/
theorem includes_two_numbers :
    letI := Host.plain
    let u : Value := .refined (.set .number)
      { nullness := .notNull, minLength := 1, maxLength := some 3 }
    let v : Value := .bare (.set .number [.unknown .number, .number .zero])
    (u.range.includes v).content ≠ .bool false := by
  let := Host.plain
  intro u v ruledOut
  have meets : Refinement.MayMeet { nullness := .notNull, minLength := 1, maxLength := some 3 }
      v.content := by
    refine ⟨by simp, 2, by decide, by decide, by decide, fun max same => ?_⟩
    cases same
    decide
  have other := (includes_eq_false_iff_of_mayMeet (u := u) rfl rfl meets).1 ruledOut
  exact other.2.2 rfl

/-- An empty list of strings is ruled out by an unknown list of any elements. -/
theorem includes_rules_out_strings :
    ¬ ∀ (_ : Host) (u v : Value) (t : Ty) (r : Refinement), u.WellMade → v.WellMade →
      u.content = .unknown t r → v.isKnown = true → v.ty.conforms t = true →
      r.MayMeet v.content → (u.range.includes v).content ≠ .bool false := by
  intro claim
  let := Host.plain
  have meets : Refinement.unconstrained.MayMeet (emptyList .string).content :=
    ⟨by decide, Nat.zero_le _, fun max same => by cases same⟩
  refine claim Host.plain (unknown (.list .dynamic)) (emptyList .string) (.list .dynamic) .unconstrained
    (wellMade_unknown _) (wellMade_emptyList _) rfl rfl rfl meets ?_
  exact (includes_eq_false_iff_of_mayMeet rfl rfl meets).2 ⟨rfl, by decide, by decide⟩

end Range

end ValueAlgebra
