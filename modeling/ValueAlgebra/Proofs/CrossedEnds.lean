import ValueAlgebra.Proofs.Comparisons

/-!
# Sums of ranges whose ends cross

The ends of a sum of two ranges are the sums of their ends, and an end belongs to the sum if both
ends that it is made of belong to their ranges. The ends of a sum cross in one case alone. One range
is an infinity alone, and absorbs both ends of the other one, which leaves one of them out
(`Refinement.Absorbs`). Then both ends of the sum are that infinity, but it does not belong to the
sum, which is refused as a range. All other arithmetic on unknown numbers has an answer.

Main statements:

* `Refinement.crosses_sum_iff`: the ends of a sum cross where one range absorbs the other one.
* `Value.sumBetween_outcome`: the fault of such a sum.
* `Value.arithmetic_outcome`: what each operation on unknown numbers comes to.
-/

namespace ValueAlgebra

namespace Number

variable {n : Number}

theorem add?_of_infinite (h : n.isFinite = false) (m : Number) :
    n.add? m = if m = n.negate then none else some n := by
  cases n with
  | finite q => cases h
  | negInf | posInf => cases m <;> rfl

theorem add?_comm (a b : Number) : a.add? b = b.add? a := by
  cases a <;> cases b <;> simp [add?, Rat.add_comm]

end Number

theorem Bound.eq_posInf {b : Bound} (h : b.admitsBelow .posInf = true ∨
    b.admitsAbove .posInf = true ∧ b.value = .posInf) : b = ⟨.posInf, true⟩ := by
  obtain ⟨n, inclusive⟩ := b
  cases n <;> cases inclusive <;> simp_all [Bound.admitsAbove, Bound.admitsBelow, Number.lt_iff]

theorem Bound.eq_of_crosses_highest {l : Bound} (h : l.crosses .highest = true) :
    l = ⟨.posInf, false⟩ := by
  obtain ⟨n, inclusive⟩ := l
  cases n <;> cases inclusive <;> first | rfl | cases h

/-- A lower end that leaves out all numbers crosses all upper ends. -/
theorem Bound.crosses_above (u : Bound) : (⟨.posInf, false⟩ : Bound).crosses u = true := by
  obtain ⟨n, inclusive⟩ := u
  cases n <;> simp [Bound.crosses, Number.lt_iff]

/-- Two ends at one number cross unless both belong to the range. -/
theorem Bound.crosses_same (n : Number) (left right : Bool) :
    (⟨n, left⟩ : Bound).crosses ⟨n, right⟩ = !(left && right) := by
  have le : n ≤ n := Number.le_rfl
  simp [Bound.crosses, Number.lt_iff, le]

namespace Refinement

variable {r s : Refinement} {n x y : Number}

/-! ## Ranges of one number -/

/-- A range that has one number alone. -/
structure IsOnly (r : Refinement) (n : Number) : Prop where
  lower : r.lower = ⟨n, true⟩
  upper : r.upper = ⟨n, true⟩

theorem Spans.lower_le_upper (h : r.Spans x) : r.lower.value ≤ r.upper.value := by
  have above := (Bound.admitsAbove_iff.1 h.1).1
  have below := (Bound.admitsAbove_iff.1 (Bound.admitsBelow_iff.1 h.2)).1
  exact Number.le_trans above (Number.negate_le_negate.1 below)

theorem opposite_opposite (r : Refinement) : r.opposite.opposite = r := by
  simp only [opposite, Bound.opposite, Number.negate_negate]

theorem spans_opposite : r.opposite.Spans x ↔ r.Spans x.negate := by
  refine ⟨fun h => ?_, fun h => ?_⟩
  · rw [← opposite_opposite r]
    exact h.opposite
  · rw [← Number.negate_negate x]
    exact h.opposite

/-- A range that has the positive infinity and no fraction has nothing else: a lower end below the
infinity would have a fraction above it. -/
theorem Spans.isOnly_posInf (h : r.Spans .posInf)
    (infinite : ∀ x, r.Spans x → x.isFinite = false) : r.IsOnly .posInf := by
  refine ⟨Bound.eq_posInf (.inr ⟨h.1, ?_⟩), Bound.eq_posInf (.inl h.2)⟩
  by_contra below
  obtain ⟨n, above, under⟩ :=
    Number.exists_between (fun le => below (Number.posInf_le.1 le) : r.lower.value < .posInf)
  have spans : r.Spans n :=
    ⟨Bound.admitsAbove_iff.2 ⟨Number.le_of_lt above, fun _ => above⟩,
      Bound.admitsBelow_of_le h.2 (Number.le_of_lt under)⟩
  cases n with
  | finite q => cases infinite _ spans
  | negInf => exact above (Number.negInf_le _)
  | posInf => exact under Number.le_rfl

/-- A range that has no fraction has one infinity alone. -/
theorem Spans.exists_isOnly (h : r.Spans x) (infinite : ∀ x, r.Spans x → x.isFinite = false) :
    ∃ n, n.isFinite = false ∧ r.IsOnly n := by
  cases x with
  | finite q => cases infinite _ h
  | posInf => exact ⟨.posInf, rfl, h.isOnly_posInf infinite⟩
  | negInf =>
    have only : r.opposite.IsOnly .posInf := by
      refine Spans.isOnly_posInf (spans_opposite.2 h) fun x hx => ?_
      rw [← Number.isFinite_negate]
      exact infinite _ (spans_opposite.1 hx)
    refine ⟨.negInf, rfl, ?_⟩
    rw [← opposite_opposite r]
    exact ⟨congrArg Bound.opposite only.upper, congrArg Bound.opposite only.lower⟩

/-! ## The ends of a sum -/

/-- The lower end of the sum of two ranges. -/
def lowerSum (r s : Refinement) : Bound :=
  (Value.endOf (r.lower.value.add? s.lower.value) r.lower s.lower).getD .lowest

/-- The upper end of the sum of two ranges. -/
def upperSum (r s : Refinement) : Bound :=
  (Value.endOf (r.upper.value.add? s.upper.value) r.upper s.upper).getD .highest

/-- One range is an infinity alone that absorbs both ends of the other range, one of which is left
out. -/
structure Absorbs (r s : Refinement) (n : Number) : Prop where
  infinite : n.isFinite = false
  only : r.IsOnly n
  leavesOut : ¬ s.Closed
  lower : s.lower.value ≠ n.negate
  upper : s.upper.value ≠ n.negate

/-- One of two ranges absorbs the other one. -/
def Clash (r s : Refinement) (n : Number) : Prop :=
  r.Absorbs s n ∨ s.Absorbs r n

theorem lowerSum_comm (r s : Refinement) : r.lowerSum s = s.lowerSum r := by
  rw [lowerSum, lowerSum, Number.add?_comm, Value.endOf, Value.endOf, Bool.and_comm]

theorem upperSum_comm (r s : Refinement) : r.upperSum s = s.upperSum r := by
  rw [upperSum, upperSum, Number.add?_comm, Value.endOf, Value.endOf, Bool.and_comm]

theorem IsOnly.lowerSum (only : r.IsOnly n) (infinite : n.isFinite = false) : r.lowerSum s =
    if s.lower.value = n.negate then .lowest else ⟨n, s.lower.inclusive⟩ := by
  rw [Refinement.lowerSum, only.lower, Number.add?_of_infinite infinite, Value.endOf]
  split <;> rfl

theorem IsOnly.upperSum (only : r.IsOnly n) (infinite : n.isFinite = false) : r.upperSum s =
    if s.upper.value = n.negate then .highest else ⟨n, s.upper.inclusive⟩ := by
  rw [Refinement.upperSum, only.upper, Number.add?_of_infinite infinite, Value.endOf]
  split <;> rfl

/-- The ends of the sum with an infinity. -/
theorem Absorbs.sum (h : r.Absorbs s n) :
    r.lowerSum s = ⟨n, s.lower.inclusive⟩ ∧ r.upperSum s = ⟨n, s.upper.inclusive⟩ := by
  rw [h.only.lowerSum h.infinite, if_neg h.lower, h.only.upperSum h.infinite, if_neg h.upper]
  exact ⟨rfl, rfl⟩

theorem closed_iff : r.Closed ↔ (r.lower.inclusive && r.upper.inclusive) = true := by
  rw [Closed, Bool.and_eq_true]

/-- Both ends of the sum with an infinity that absorbs a range are that infinity, and they cross. -/
theorem Clash.sum (h : r.Clash s n) :
    (r.lowerSum s).value = n ∧ (r.upperSum s).value = n ∧
      (r.lowerSum s).crosses (r.upperSum s) = true := by
  have absorbed {r s : Refinement} (h : r.Absorbs s n) :
      (r.lowerSum s).value = n ∧ (r.upperSum s).value = n ∧
        (r.lowerSum s).crosses (r.upperSum s) = true := by
    rw [h.sum.1, h.sum.2, Bound.crosses_same, Bool.not_eq_true', ← Bool.not_eq_true, ← closed_iff]
    exact ⟨rfl, rfl, h.leavesOut⟩
  rcases h with h | h
  · exact absorbed h
  · rw [lowerSum_comm, upperSum_comm]
    exact absorbed h

/-- Where the ends of a sum with an infinity cross, the infinity absorbs the other range. Where only
one end of that range is the opposite infinity, the sum has an end there that crosses no other. -/
theorem IsOnly.absorbs (only : r.IsOnly n) (infinite : n.isFinite = false)
    (hs : s.Spans y) (crosses : (r.lowerSum s).crosses (r.upperSum s) = true) : r.Absorbs s n := by
  have ends := hs.lower_le_upper
  rw [only.lowerSum infinite, only.upperSum infinite] at crosses
  split at crosses
  · rename_i lower
    rw [lower] at ends
    split at crosses
    · cases crosses
    · rename_i upper
      cases n with
      | finite q => cases infinite
      | posInf => cases crosses
      | negInf => exact absurd (Number.posInf_le.1 ends) upper
  · rename_i lower
    split at crosses
    · rename_i upper
      rw [upper] at ends
      cases n with
      | finite q => cases infinite
      | negInf => cases crosses
      | posInf => exact absurd (Number.le_negInf.1 ends) lower
    · rename_i upper
      rw [Bound.crosses_same, Bool.not_eq_true', ← Bool.not_eq_true, ← closed_iff] at crosses
      exact ⟨infinite, only, crosses, lower, upper⟩

/-- The ends of a sum cross where one of the ranges absorbs the other one. If both had a fraction,
their sum would be a fraction between the ends. -/
theorem crosses_sum_iff (hr : r.Spans x) (hs : s.Spans y) :
    (r.lowerSum s).crosses (r.upperSum s) = true ↔ ∃ n, r.Clash s n := by
  refine ⟨fun crosses => ?_, fun ⟨n, clash⟩ => clash.sum.2.2⟩
  by_cases infinite : ∀ x, r.Spans x → x.isFinite = false
  · obtain ⟨n, inf, only⟩ := hr.exists_isOnly infinite
    exact ⟨n, .inl (only.absorbs inf hs crosses)⟩
  by_cases infinite' : ∀ y, s.Spans y → y.isFinite = false
  · obtain ⟨n, inf, only⟩ := hs.exists_isOnly infinite'
    rw [lowerSum_comm, upperSum_comm] at crosses
    exact ⟨n, .inr (only.absorbs inf hr crosses)⟩
  simp only [not_forall, Bool.not_eq_false] at infinite infinite'
  obtain ⟨p, hp, finiteP⟩ := infinite
  obtain ⟨q, hq, finiteQ⟩ := infinite'
  cases p with
  | negInf | posInf => cases finiteP
  | finite p =>
    cases q with
    | negInf | posInf => cases finiteQ
    | finite q =>
      have sum : (Number.finite p).add? (.finite q) = some (.finite (p + q)) := rfl
      have above := (Value.lower_sumBetween hp hq sum).resolve_right fun h => by cases h.1
      have below := (Value.upper_sumBetween hp hq sum).resolve_right fun h => by cases h.1
      exact absurd crosses (by rw [lowerSum, upperSum, Bound.not_crosses above below]; simp)

end Refinement

namespace Value

variable {a b : Value} {r s : Refinement} {x y : Number}

open Refinement

/-- A sum of two ranges has an answer, or one of the ranges absorbs the other one and the ends of the
sum are refused. -/
def Summed (answer : Except Fault Value) (r s : Refinement) : Prop :=
  (∃ v, answer = .ok v) ∧ (∀ n, ¬ r.Clash s n) ∨
    ∃ n side, r.Clash s n ∧ answer = .error (.crossedBounds ⟨false, .number⟩ side n n)

theorem sumBetween_outcome (hr : r.Spans x) (hs : s.Spans y) : Summed (sumBetween r s) r s := by
  have ends := crosses_sum_iff hr hs
  have eq : sumBetween r s = _ := numberBetween_eq _ _
  rw [← lowerSum, ← upperSum] at eq
  cases crosses : (r.lowerSum s).crosses (r.upperSum s) with
  | true =>
    obtain ⟨n, clash⟩ := ends.1 crosses
    obtain ⟨lower, upper, -⟩ := clash.sum
    refine .inr ⟨n, ?_⟩
    rw [eq, if_pos crosses, lower, upper]
    split
    · rename_i top
      have infinite : .posInf = n := (Bound.eq_of_crosses_highest top ▸ lower :)
      exact ⟨.lower, clash, by rw [infinite]⟩
    · exact ⟨.upper, clash, rfl⟩
  | false =>
    have apart : ¬ (r.lowerSum s).crosses .highest = true := fun top => by
      rw [Bound.eq_of_crosses_highest top, Bound.crosses_above] at crosses
      cases crosses
    obtain ⟨v, hv, -⟩ := result_refiningNumber
      (endOf (r.lower.value.add? s.lower.value) r.lower s.lower)
      (endOf (r.upper.value.add? s.upper.value) r.upper s.upper)
    refine .inl ⟨⟨v, ?_⟩, fun n clash => ?_⟩
    · rw [eq, if_neg apart, if_neg (by simp [crosses])]
      exact hv
    · rw [ends.2 ⟨n, clash⟩] at crosses
      cases crosses

/-! ## All operations -/

/-- An unknown operand leaves the answer to the ranges. -/
theorem arithmetic_of_unknown (operation : String)
    (between : Refinement → Refinement → Except Fault Value)
    (compute : Number → Number → Option Number) (ha : a.ty = .number) (hb : b.ty = .number)
    (unknown : a.isKnown = false ∨ b.isKnown = false) :
    markingBoth (arithmetic operation between compute) a b =
      (between a.range.refinement b.range.refinement).map fun answer =>
        (answer.withMarks a.marks).withMarks b.marks := by
  have known : (!a.unmark.isKnown || !b.unmark.isKnown) = true := by
    rw [isKnown_unmark, isKnown_unmark]
    rcases unknown with h | h <;> simp [h]
  rw [markingBoth, arithmetic, checkOperands_unmark ha hb]
  simp only [bind, Except.bind, if_neg (not_dynamic_unmark ha hb), known, if_true]
  rfl

theorem Summed.map {answer : Except Fault Value} (h : Summed answer r s) (f : Value → Value) :
    Summed (answer.map f) r s := by
  rcases h with ⟨⟨v, rfl⟩, apart⟩ | ⟨n, side, clash, rfl⟩
  · exact .inl ⟨⟨f v, rfl⟩, apart⟩
  · exact .inr ⟨n, side, clash, rfl⟩

/-- Where an operand is unknown, a sum or a difference has an answer unless a range absorbs the
other one, and all else has an answer. -/
theorem arithmetic_outcome (ha : a.MayBeNumber) (hb : b.MayBeNumber)
    (unknown : a.isKnown = false ∨ b.isKnown = false) :
    Summed (a.add b) a.range.refinement b.range.refinement ∧
      Summed (a.subtract b) a.range.refinement b.range.refinement.opposite ∧
      (∃ v, a.multiply b = .ok v) ∧ (∃ v, a.divide b = .ok v) ∧ (∃ v, a.modulo b = .ok v) ∧
      (∃ v, a.negate = .ok v) ∧ ∃ v, a.absolute = .ok v := by
  obtain ⟨x, hx⟩ := ha.exists_spans
  obtain ⟨y, hy⟩ := hb.exists_spans
  have bounded (operation : String) (between : Refinement → Refinement → Except Fault Value)
      (compute : Number → Number → Option Number) :=
    arithmetic_of_unknown operation between compute ha.ty hb.ty unknown
  have free (operation : String) (compute : Number → Number → Option Number) :
      ∃ v, markingBoth (arithmetic operation anyNumber compute) a b = .ok v := by
    obtain ⟨v, hv, -⟩ := anyNumber_answers a.range.refinement b.range.refinement x
    rw [bounded, hv]
    exact ⟨_, rfl⟩
  refine ⟨?_, ?_, free _ _, free _ _, free _ _, ?_, ?_⟩
  · rw [add, bounded]
    exact (sumBetween_outcome hx hy).map _
  · rw [subtract, bounded]
    exact (sumBetween_outcome hx hy.opposite).map _
  · obtain ⟨v, hv, -⟩ := answers_negate (ha.admits_iff.2 hx)
    exact ⟨v, hv⟩
  · obtain ⟨v, hv, -⟩ := answers_absolute (ha.admits_iff.2 hx)
    exact ⟨v, hv⟩

/-- A number above zero and two have a sum: neither of them is an infinity alone. -/
theorem arithmetic_outcome_positive :
    positive.MayBeNumber ∧ (number (.ofInt 2)).MayBeNumber ∧ positive.isKnown = false ∧
      (∃ v, positive.add (number (.ofInt 2)) = .ok v) ∧
      ∃ v, positive.modulo (number (.ofInt 2)) = .ok v := by
  have told : (unknown .number).restrict [.atLeast (number .zero) false] = .ok positive := rfl
  have first : positive.MayBeNumber := mayBeNumber_unknown.restrict told rfl
  have second := mayBeNumber_number (.ofInt 2)
  obtain ⟨sum, -, -, -, remainder, -⟩ := arithmetic_outcome first second (.inl rfl)
  refine ⟨first, second, rfl, ?_, remainder⟩
  rcases sum with ⟨sum, -⟩ | ⟨n, -, clash | clash, -⟩
  · exact sum
  · cases clash.only.lower
  · cases clash.only.lower
    cases clash.infinite

/-- The positive infinity and a number above zero have no sum. -/
theorem add_crossed_posInf :
    (unknown .number).restrict [.atLeast (number .zero) false] = .ok positive ∧
      (number .posInf).MayBeNumber ∧ positive.MayBeNumber ∧ positive.isKnown = false ∧
      (number .posInf).add positive =
        .error (.crossedBounds ⟨false, .number⟩ .lower .posInf .posInf) := by
  have told : (unknown .number).restrict [.atLeast (number .zero) false] = .ok positive := rfl
  exact ⟨told, mayBeNumber_number _, mayBeNumber_unknown.restrict told rfl, rfl, rfl⟩

end Value

end ValueAlgebra
