import ValueAlgebra.Proofs.SameType

/-!
# What becomes of unknowns

A converted unknown is told what is known of the unknown that it is made of. Mostly it stays an
unknown, about which nothing more is known than what a conversion keeps. A known value comes of it
where one result alone is left: elements of a list whose number is known, the one element of a set,
or an empty collection, which only the type of an empty tuple or object leads to.

Main statements:

* `Value.outcome_convertUnknown`: the outcomes of converting a well-made unknown.
-/

namespace ValueAlgebra

open Refining

namespace Value

variable {s t u : Ty} {r : Refinement} {n : Nullness} {v w : Value}

/-- What an unknown of a type becomes on the way to a type `u`. -/
inductive Outcome (s u : Ty) : Value → Prop where
  | told {r : Refinement} (kept : r.kept u = r) : Outcome s u (.refined u r)
  | list {e : Ty} {n : Nat} (hu : u = .list e) (hn : n ≠ 0) :
      Outcome s u (.bare (.list e (List.replicate n (.unknown e))))
  | set {e : Ty} (hu : u = .set e) : Outcome s u (.bare (.set e [.unknown e]))
  | empty {kind : CollectionKind} {e : Ty} (hu : u = kind.type e)
      (none : s = .tuple [] ∨ ∃ os, s = .object [] os) :
      Outcome s u (emptyCollection kind .dynamic e)

/-! ## What an unknown is told of its length -/

theorem lengthAtLeast_telling_ok {min : Nat} {told : Refining} (ht : t.isCollection = true)
    (h : (telling t { nullness := n }).lengthAtLeast min = .ok told) :
    told = telling t { nullness := n, minLength := min } := by
  by_cases fits : min ≤ lengthLimit
  · rw [lengthAtLeast_telling ht fits] at h
    exact (Except.ok.inj h).symm
  · have more : ¬ min ≤ 0 := fun none => fits (Nat.le_trans none (Nat.zero_le _))
    simp only [Refining.lengthAtLeast, telling, narrow, ty_unknown, ht, Bool.not_true,
      Bool.false_eq_true, if_false, Option.getD_none, more, Nat.lt_of_not_le fits, if_true] at h
    cases h

theorem lengthAtMost_telling_ok {min max : Nat} {told : Refining} (ht : t.isCollection = true)
    (h : (telling t { nullness := n, minLength := min }).lengthAtMost max = .ok told) :
    told = telling t { nullness := n, minLength := min,
                       maxLength := (some max).filter (· < lengthLimit) } := by
  by_cases fits : min ≤ max
  · rw [lengthAtMost_telling ht fits] at h
    exact (Except.ok.inj h).symm
  · simp only [Refining.lengthAtMost, telling, narrow, ty_unknown, ht, Bool.not_true,
      Bool.false_eq_true, if_false, Option.getD_none, Nat.lt_of_not_le fits, if_true] at h
    split at h
    · rename_i large
      cases h
      rw [Option.filter_some, if_neg (by simpa using large)]
      rfl
    · cases h

/-- Nothing is told that a conversion forgets. An upper bound of zero is one of the value. -/
theorem tellLength_telling_ok {told : Refining}
    (h : tellLength v u (telling u { nullness := n }) = .ok told) :
    ∃ r, told = telling u r ∧ r.nullness = n ∧ r.kept u = r ∧
      (r.maxLength = some 0 → ∃ lower, v.lengthBounds? = some (lower, some 0)) := by
  unfold tellLength at h
  split at h
  · rename_i lower upper? collection bounds
    have least : (if u.isSet then min (if u.isSet then min lower 1 else lower) 1
        else if u.isSet then min lower 1 else lower) = if u.isSet then min lower 1 else lower := by
      split
      · rw [Nat.min_assoc, Nat.min_self]
      · rfl
    obtain ⟨s', hs, h⟩ := bind_eq_ok h
    cases lengthAtLeast_telling_ok collection hs
    cases upper? with
    | none =>
      cases h
      exact ⟨_, rfl, rfl, by rw [Refinement.kept, least]; rfl, fun none => by cases none⟩
    | some upper =>
      cases lengthAtMost_telling_ok collection h
      refine ⟨_, rfl, rfl, ?_, fun none => ⟨lower, ?_⟩⟩
      · rw [Refinement.kept, least, Option.filter_filter]
        simp only [Bool.and_self]
      · have none : (some upper).filter (· < lengthLimit) = some 0 := none
        rw [bounds, (Option.filter_eq_some_iff.1 none).1]
  · cases h
    refine ⟨_, rfl, rfl, ?_, fun none => by cases none⟩
    simp [Refinement.kept]

/-! ## What is left -/

/-- A well-made unknown that has no elements is of the type of an empty structure. -/
theorem WellMade.empty_of_bounds (made : (bare (.unknown s r)).WellMade)
    (notNull : r.nullness = .notNull) {lower : Nat} (bounds : (bare (.unknown s r)).lengthBounds? = some (lower, some 0)) :
    s = .tuple [] ∨ ∃ os, s = .object [] os := by
  obtain ⟨apt, more⟩ := made.apt
  have fits := apt.length.1
  have known : (bare (.unknown s r)).range.refinement = r := rfl
  simp only [lengthBounds?, bare, ty] at bounds known
  cases s with
  | list | set | map =>
    -- an unknown collection without elements would be known to be empty
    simp only [known, Option.some.injEq, Prod.mk.injEq] at bounds
    rw [bounds.2, Option.getD_some, Nat.le_zero] at fits
    simp [onlyResult?, notNull, bounds.2, fits, listCapacity] at more
  | tuple ts =>
    simp only [Option.some.injEq, Prod.mk.injEq, List.length_eq_zero_iff] at bounds
    exact .inl (congrArg _ bounds.2)
  | object as os =>
    simp only [Option.some.injEq, Prod.mk.injEq, List.length_eq_zero_iff] at bounds
    exact .inr ⟨os, by rw [bounds.2]⟩
  | _ => cases bounds

theorem outcome_of_result (made : (bare (.unknown s r)).WellMade) {told : Refinement}
    (nullness : told.nullness = r.nullness) (kept : told.kept u = told)
    (empty : told.maxLength = some 0 →
      ∃ lower, (bare (.unknown s r)).lengthBounds? = some (lower, some 0))
    (h : (telling u told).result = .ok w) : Outcome s u w := by
  have known : (unknown u).isKnown = false := rfl
  simp only [Refining.result, telling, known, ty_unknown] at h
  obtain ⟨only, ho, h⟩ := bind_eq_ok h
  cases only with
  | none =>
    cases h
    exact .told kept
  | some v =>
    cases h
    rw [withMarks_empty]
    have none (notNull : told.nullness = .notNull) (h : told.maxLength = some 0) :
        s = .tuple [] ∨ ∃ os, s = .object [] os := by
      obtain ⟨lower, bounds⟩ := empty h
      exact made.empty_of_bounds (nullness ▸ notNull) bounds
    unfold onlyResult? at ho
    split at ho
    · rename_i null
      rw [nullness] at null
      obtain ⟨-, more⟩ := made.apt
      simp [onlyResult?, null] at more
    · cases ho
    · have ho := Except.ok.inj ho
      split at ho
      · rename_i bounds
        rw [← kept] at bounds
        cases bounds
      · cases ho
    · rename_i e notNull
      split at ho
      · cases ho
      rename_i fixed
      rw [Decidable.not_not] at fixed
      split at ho <;> cases ho
      by_cases zero : told.minLength = 0
      · rw [zero] at fixed ⊢
        refine @Outcome.empty _ _ .list _ rfl (none notNull ?_)
        cases max : told.maxLength with
        | none =>
          rw [max] at fixed
          cases fixed
        | some upper =>
          rw [max] at fixed
          exact congrArg _ fixed
      · exact .list rfl zero
    · rename_i e notNull
      have ho := Except.ok.inj ho
      split at ho
      · cases ho
        exact @Outcome.empty _ _ .set _ rfl (none notNull ‹_›)
      · cases ho
        exact .set rfl
      · cases ho
    · rename_i e notNull
      have ho := Except.ok.inj ho
      split at ho <;> cases ho
      rename_i empty
      exact @Outcome.empty _ _ .map _ rfl (none notNull empty.1)
    · cases ho

variable [Host]

/-- The outcomes of converting an unknown. -/
theorem outcome_convertUnknown (made : (bare (.unknown s r)).WellMade)
    (h : (bare (.unknown s r)).convertUnknown t = .ok w) : Outcome s (s.converted t) w := by
  by_cases open_ : (s.isDynamic || (s.converted t).isDynamic) = true
  · rw [convertUnknown_of_dynamic open_] at h
    cases h
    exact .told (Refinement.kept_unconstrained _)
  · have closed : s.converted t ≠ .dynamic := fun eq => by simp [eq, Ty.isDynamic] at open_
    have notNull : r.nullness ≠ .null := fun null => by
      obtain ⟨-, more⟩ := made.apt
      simp [onlyResult?, null] at more
    rw [convertUnknown_of_not_dynamic open_, refine_unknown closed, tellNull_telling notNull,
      Except.bind] at h
    obtain ⟨told, ht, h⟩ := bind_eq_ok h
    obtain ⟨r', rfl, nullness, kept, empty⟩ := tellLength_telling_ok ht
    exact outcome_of_result made nullness kept empty h

end Value

end ValueAlgebra
