import ValueAlgebra.Proofs.WellMade

/-!
# Comparisons of unknown numbers

The range of a well-made value has a number in it, and the numbers in the range are the ones that
the value may turn out to be. A comparison goes by the ends of two ranges. It answers with a bool
if and only if all the numbers that the operands may be compare alike: between two ends that do not
rule it out there is a number, which each range reaches from its own side.

Main statements:

* `Refinement.crosses_iff_forall_lt`, `Refinement.upper_le_lower_iff`: what ends say about all
  numbers of two ranges.
* `Value.decideLess?_eq_some_iff`: the answer that two ranges allow.
* `Value.comparisons_exact`: all four comparisons.
-/

namespace ValueAlgebra

namespace Number

variable {a b : Number}

/-- A number is below another one, or not above it. -/
def IsBelow (orEqual : Bool) (a b : Number) : Prop :=
  if orEqual then a ≤ b else a < b

instance (orEqual : Bool) : Decidable (a.IsBelow orEqual b) :=
  inferInstanceAs (Decidable (if orEqual then _ else _))

theorem isBelow_not (orEqual : Bool) : b.IsBelow (!orEqual) a ↔ ¬ a.IsBelow orEqual b := by
  cases orEqual with
  | true => exact Iff.rfl
  | false => exact not_not.symm

end Number

/-! ## Numbers in a range -/

theorem Bound.admitsAbove_of_le {l : Bound} {x y : Number} (h : l.admitsAbove x = true)
    (le : x ≤ y) : l.admitsAbove y = true := by
  rw [admitsAbove_iff] at h ⊢
  refine ⟨Number.le_trans h.1 le, fun exclusive back => ?_⟩
  exact h.2 exclusive (Number.le_trans le back)

theorem Bound.admitsBelow_of_le {u : Bound} {x y : Number} (h : u.admitsBelow x = true)
    (le : y ≤ x) : u.admitsBelow y = true := by
  rw [admitsBelow_iff] at h ⊢
  exact admitsAbove_of_le h (Number.negate_le_negate.2 le)

namespace Refinement

variable {r s : Refinement} {n x y : Number}

/-- A range that has a number reaches up to every number that its upper end admits. -/
theorem Spans.exists_ge (h : r.Spans x) (hn : r.upper.admitsBelow n = true) :
    ∃ y, r.Spans y ∧ n ≤ y := by
  rcases Number.le_total n x with le | le
  · exact ⟨x, h, le⟩
  · exact ⟨n, ⟨Bound.admitsAbove_of_le h.1 le, hn⟩, Number.le_rfl⟩

/-- A range that has a number reaches down to every number that its lower end admits. -/
theorem Spans.exists_le (h : r.Spans x) (hn : r.lower.admitsAbove n = true) :
    ∃ y, r.Spans y ∧ y ≤ n := by
  rcases Number.le_total x n with le | le
  · exact ⟨x, h, le⟩
  · exact ⟨n, ⟨hn, Bound.admitsBelow_of_le h.2 le⟩, Number.le_rfl⟩

/-- An upper end crosses the lower end of another range where all numbers are below all others. -/
theorem crosses_iff_forall_lt (hr : r.Spans x) (hs : s.Spans y) :
    s.lower.crosses r.upper = true ↔ ∀ x y, r.Spans x → s.Spans y → x < y := by
  constructor
  · intro crosses x y hx hy le
    have apart := Bound.not_crosses (Bound.admitsAbove_of_le hy.1 le) hx.2
    rw [crosses] at apart
    cases apart
  · intro below
    by_contra apart
    obtain ⟨n, above, under⟩ := Bound.exists_admitted (eq_false_of_ne_true apart)
    obtain ⟨x, hx, ge⟩ := hr.exists_ge under
    obtain ⟨y, hy, le⟩ := hs.exists_le above
    exact below x y hx hy (Number.le_trans le ge)

/-- An upper end is at most the lower end of another range where no number is above any other. Ends
that overlap have two numbers between them. -/
theorem upper_le_lower_iff (hr : r.Spans x) (hs : s.Spans y) :
    r.upper.value ≤ s.lower.value ↔ ∀ x y, r.Spans x → s.Spans y → x ≤ y := by
  constructor
  · intro le x y hx hy
    have under : x ≤ r.upper.value :=
      Number.negate_le_negate.1 (Bound.admitsAbove_iff.1 (Bound.admitsBelow_iff.1 hx.2)).1
    exact Number.le_trans under (Number.le_trans le (Bound.admitsAbove_iff.1 hy.1).1)
  · intro below
    by_contra overlap
    obtain ⟨m, lm, mu⟩ := Number.exists_between overlap
    obtain ⟨n, mn, nu⟩ := Number.exists_between mu
    have under : r.upper.admitsBelow n = true :=
      Bound.admitsBelow_iff.2 <| Bound.admitsAbove_iff.2
        ⟨Number.negate_le_negate.2 (Number.le_of_lt nu),
          fun _ back => nu (Number.negate_le_negate.1 back)⟩
    obtain ⟨x, hx, ge⟩ := hr.exists_ge under
    obtain ⟨y, hy, le⟩ := hs.exists_le
      (Bound.admitsAbove_iff.2 ⟨Number.le_of_lt lm, fun _ => lm⟩)
    exact mn (Number.le_trans ge (Number.le_trans (below x y hx hy) le))

/-- Whether the ends of two ranges have all numbers of one below those of the other. -/
def isBelow (orEqual : Bool) (r s : Refinement) : Bool :=
  if orEqual then r.upper.value ≤ s.lower.value else s.lower.crosses r.upper

theorem isBelow_iff (orEqual : Bool) (hr : r.Spans x) (hs : s.Spans y) :
    r.isBelow orEqual s = true ↔ ∀ x y, r.Spans x → s.Spans y → x.IsBelow orEqual y := by
  cases orEqual with
  | true => exact decide_eq_true_iff.trans (upper_le_lower_iff hr hs)
  | false => exact crosses_iff_forall_lt hr hs

end Refinement

namespace Value

variable {a b v w : Value} {r s : Refinement} {x y : Number}

/-! ## Values that numbers may be -/

/-- Refining keeps the type. -/
theorem ty_restrict {xs : List Restriction} (h : v.restrict xs = .ok w) : w.ty = v.ty := by
  obtain ⟨s, hs, h⟩ := bind_eq_ok h
  have typed : s.value.ty = v.ty := by
    rw [(Refining.follows_foldlM hs).value]
    exact ty_unmark v
  obtain ⟨x, rfl, ⟨rfl, -⟩ | ⟨-, r, -, only | ⟨rfl, -⟩⟩⟩ := Refining.result_eq_ok h
  · rw [ty_withMarks, typed]
  · rw [ty_withMarks, only.ty, typed]
  · rw [ty_withMarks, ← typed]
    simp only [refined, bare, ty]

/-- A well-made value of type number, known or not, that is not null. -/
structure MayBeNumber (v : Value) : Prop where
  wellMade : v.WellMade
  ty : v.ty = .number
  notNull : v.isNull = false

theorem mayBeNumber_number (n : Number) : (number n).MayBeNumber :=
  ⟨wellMade_number n, rfl, rfl⟩

theorem mayBeNumber_unknown : (unknown .number).MayBeNumber :=
  ⟨wellMade_unknown _, ty_unknown _, rfl⟩

/-- Refining leaves a number that may be null only if it says so. -/
theorem MayBeNumber.restrict {xs : List Restriction} (hv : v.MayBeNumber)
    (h : v.restrict xs = .ok w) (notNull : w.isNull = false) : w.MayBeNumber :=
  ⟨hv.wellMade.restrict h, (ty_restrict h).trans hv.ty, notNull⟩

theorem MayBeNumber.cases (h : v.MayBeNumber) : (∃ n, v.content = .number n) ∨
    ∃ r, v.content = .unknown .number r ∧ r.nullness ≠ .null ∧ ∃ x, r.Spans x := by
  obtain ⟨m, c⟩ := v
  have here : c.WellMade := h.wellMade.here
  have ty := h.ty
  have notNull := h.notNull
  cases c with
  | number n => exact .inl ⟨n, rfl⟩
  | null t => cases notNull
  | unknown t r =>
    obtain rfl : t = .number := ty
    refine .inr ⟨r, rfl, ?_⟩
    rcases here with rfl | ⟨-, apt, more⟩
    · exact ⟨by simp [Refinement.unconstrained], .zero, rfl, rfl⟩
    · refine ⟨fun null => ?_, apt.number⟩
      simp only [Refining.onlyResult?, null, Except.ok.injEq, reduceCtorEq] at more
  | _ => simp only [Value.ty, reduceCtorEq] at ty

theorem spans_number {n : Number} {m : MarkSet} :
    (range ⟨m, .number n⟩).refinement.Spans x ↔ n = x := by
  refine ⟨fun ⟨above, below⟩ => ?_, ?_⟩
  · exact Number.le_antisymm (of_decide_eq_true above) (of_decide_eq_true below)
  · rintro rfl
    exact Admits.range rfl

/-- The range of a value has the numbers that the value may be, and no others. -/
theorem MayBeNumber.admits_iff (h : v.MayBeNumber) : v.Admits x ↔ v.range.refinement.Spans x := by
  refine ⟨Admits.range, fun spans => ?_⟩
  obtain ⟨m, c⟩ := v
  rcases h.cases with ⟨n, hc⟩ | ⟨r, hc, notNull, -⟩
  · cases hc
    exact spans_number.1 spans
  · cases hc
    exact admits_of_unknown rfl notNull spans.1 spans.2

theorem MayBeNumber.exists_spans (h : v.MayBeNumber) : ∃ x, v.range.refinement.Spans x := by
  rcases h.cases with ⟨n, hc⟩ | ⟨r, hc, -, x, spans⟩
  · refine ⟨n, Admits.range ?_⟩
    rw [Admits, hc]
  · rw [range, hc]
    exact ⟨x, spans⟩

/-! ## What two ranges decide -/

theorem decideLess?_eq (orEqual : Bool) (r s : Refinement) : decideLess? orEqual r s =
    if r.isBelow orEqual s then some true
    else if s.isBelow (!orEqual) r then some false else none := by
  cases orEqual with
  | true => rfl
  | false =>
    have crosses : s.lower.crosses r.upper = (decide (r.upper.value < s.lower.value) ||
        r.upper.value == s.lower.value && !(r.upper.inclusive && s.lower.inclusive)) := by
      rw [Bound.crosses, BEq.comm, Bool.and_comm s.lower.inclusive]
    rw [Refinement.isBelow, if_neg Bool.false_ne_true, crosses]
    rfl

/-- Ranges decide how two numbers compare if all of their numbers compare in this way. -/
theorem decideLess?_eq_some_iff (hr : r.Spans x) (hs : s.Spans y) (orEqual answer : Bool) :
    decideLess? orEqual r s = some answer ↔
      ∀ x y, r.Spans x → s.Spans y → (x.IsBelow orEqual y ↔ answer = true) := by
  have always := Refinement.isBelow_iff orEqual hr hs
  have never : s.isBelow (!orEqual) r = true ↔
      ∀ x y, r.Spans x → s.Spans y → ¬ x.IsBelow orEqual y := by
    simp only [Refinement.isBelow_iff _ hs hr, Number.isBelow_not]
    exact ⟨fun h x y hx hy => h y x hy hx, fun h x y hx hy => h y x hy hx⟩
  -- both ranges have a number, so not all pairs compare both ways
  have apart : r.isBelow orEqual s = true → ¬ s.isBelow (!orEqual) r = true :=
    fun all none => never.1 none x y hr hs (always.1 all x y hr hs)
  rw [decideLess?_eq]
  cases answer with
  | true =>
    simp only [iff_true, ← always]
    grind
  | false =>
    simp only [Bool.false_eq_true, iff_false, ← never]
    grind

/-! ## Answers of comparisons -/

section

variable (ha : a.ty = .number) (hb : b.ty = .number)
include ha hb

theorem checkOperands_unmark (operation : String) :
    checkOperands operation .number [a.unmark, b.unmark] = .ok () := by
  apply checkOperands_number
  simpa using ⟨ha, hb⟩

theorem not_dynamic_unmark : ¬ (a.unmark.ty = .dynamic ∨ b.unmark.ty = .dynamic) := by
  rw [ty_unmark, ty_unmark, ha, hb]
  simp

end

/-- A comparison answers whether a relation holds of all numbers that two values may be, or of none.
It leaves the answer open where numbers differ. The answer has the marks of both values. -/
structure Decides (compare : Value → Value → Except Fault Value) (R : Number → Number → Prop)
    (a b : Value) : Prop where
  settled (answer : Bool) :
    compare a b = .ok (((bool answer).withMarks a.marks).withMarks b.marks) ↔
      ∀ x y, a.Admits x → b.Admits y → (R x y ↔ answer = true)
  unsettled : (∀ answer : Bool, ¬ ∀ x y, a.Admits x → b.Admits y → (R x y ↔ answer = true)) →
    compare a b = .ok ((undecided.withMarks a.marks).withMarks b.marks)

theorem decides_of_verdict {compare : Value → Value → Except Fault Value}
    {R : Number → Number → Prop} {verdict : Option Bool}
    (eq : compare a b = .ok (((verdict.elim undecided bool).withMarks a.marks).withMarks b.marks))
    (exact : ∀ answer, verdict = some answer ↔
      ∀ x y, a.Admits x → b.Admits y → (R x y ↔ answer = true)) : Decides compare R a b where
  settled answer := by
    rw [← exact, eq]
    refine ⟨fun same => ?_, fun settled => by rw [settled, Option.elim_some]⟩
    have content : (verdict.elim undecided bool).content = .bool answer :=
      congrArg Value.content (Except.ok.inj same)
    cases verdict with
    | none => cases content
    | some other => exact congrArg some (Content.bool.inj content)
  unsettled mixed := by
    rw [eq]
    cases verdict with
    | none => rfl
    | some answer => exact absurd ((exact answer).1 rfl) (mixed answer)

/-- The ranges of two values decide how they compare, whether the values are known or not. -/
theorem comparison_eq (operation : String) (orEqual : Bool) (ha : a.MayBeNumber)
    (hb : b.MayBeNumber) : comparison operation orEqual a.unmark b.unmark =
      .ok ((decideLess? orEqual a.range.refinement b.range.refinement).elim undecided bool) := by
  have check := checkOperands_unmark ha.ty hb.ty operation
  have typed := not_dynamic_unmark ha.ty hb.ty
  have ofUnknown (h : (!a.unmark.isKnown || !b.unmark.isKnown) = true) :
      comparison operation orEqual a.unmark b.unmark =
      .ok ((decideLess? orEqual a.range.refinement b.range.refinement).elim undecided bool) := by
    have left : a.unmark.range = a.range := rfl
    have right : b.unmark.range = b.range := rfl
    simp only [comparison, check, bind, Except.bind, if_neg typed, h, if_true, left, right]
    cases decideLess? orEqual a.range.refinement b.range.refinement <;> rfl
  obtain ⟨x, hx⟩ := ha.exists_spans
  obtain ⟨y, hy⟩ := hb.exists_spans
  obtain ⟨m, c⟩ := a
  obtain ⟨n, d⟩ := b
  rcases ha.cases with ⟨p, hc⟩ | ⟨r, hc, -⟩
  · rcases hb.cases with ⟨q, hd⟩ | ⟨s, hd, -⟩
    · cases hc
      cases hd
      have decided : decideLess? orEqual (range ⟨m, .number p⟩).refinement
          (range ⟨n, .number q⟩).refinement = some (decide (p.IsBelow orEqual q)) := by
        rw [decideLess?_eq_some_iff hx hy]
        intro x y hx hy
        rw [← spans_number.1 hx, ← spans_number.1 hy]
        rw [decide_eq_true_iff]
      have known (m : MarkSet) (z : Number) : (unmark ⟨m, .number z⟩).isKnown = true := rfl
      rw [decided]
      simp only [comparison, check, bind, Except.bind, if_neg typed, known, Bool.not_true,
        Bool.or_false, Bool.false_eq_true, if_false]
      cases orEqual <;> rfl
    · cases hd
      exact ofUnknown (by simp [unmark, bare, isKnown, content])
  · cases hc
    exact ofUnknown (by simp [unmark, bare, isKnown, content])

/-- The answers of all four comparisons say what is known about the numbers that two values may be,
no less and no more. -/
theorem comparisons_exact (ha : a.MayBeNumber) (hb : b.MayBeNumber) :
    Decides lessThan (· < ·) a b ∧ Decides lessThanOrEqual (· ≤ ·) a b ∧
      Decides greaterThan (· > ·) a b ∧ Decides greaterThanOrEqual (· ≥ ·) a b := by
  obtain ⟨x, hx⟩ := ha.exists_spans
  obtain ⟨y, hy⟩ := hb.exists_spans
  have forward := decideLess?_eq_some_iff hx hy
  have backward := decideLess?_eq_some_iff hy hx
  simp only [← ha.admits_iff, ← hb.admits_iff] at forward backward
  have swap (orEqual answer : Bool) := (backward orEqual answer).trans
    ⟨fun h x y hx hy => h y x hy hx, fun h y x hy hx => h x y hx hy⟩
  refine ⟨decides_of_verdict ?_ fun answer => forward false answer,
    decides_of_verdict ?_ fun answer => forward true answer,
    decides_of_verdict ?_ fun answer => swap false answer,
    decides_of_verdict ?_ fun answer => swap true answer⟩
  · rw [lessThan, markingBoth, comparison_eq _ _ ha hb, Except.map]
  · rw [lessThanOrEqual, markingBoth, comparison_eq _ _ ha hb, Except.map]
  · rw [greaterThan, markingBoth, comparison_eq _ _ hb ha, Except.map]
  · rw [greaterThanOrEqual, markingBoth, comparison_eq _ _ hb ha, Except.map]

/-- A number above zero is above zero and not below it, and may or may not be above one. -/
theorem comparisons_exact_positive :
    positive.MayBeNumber ∧ (number .zero).MayBeNumber ∧
      positive.greaterThan (number .zero) = .ok (bool true) ∧
      positive.lessThanOrEqual (number .zero) = .ok (bool false) ∧
      Decides greaterThan (· > ·) positive (number (.ofInt 1)) ∧
      positive.greaterThan (number (.ofInt 1)) = .ok undecided := by
  have told : (unknown .number).restrict [.atLeast (number .zero) false] = .ok positive := rfl
  have first : positive.MayBeNumber := mayBeNumber_unknown.restrict told rfl
  have admitted {x : Number} (h : positive.Admits x) : .zero < x := by
    rcases admits_cases h with hc | ⟨r, hc, -, above, -⟩ <;> cases hc
    exact (Bound.admitsAbove_iff.1 above).2 rfl
  obtain ⟨-, atMost, above, -⟩ := comparisons_exact first (mayBeNumber_number .zero)
  obtain ⟨-, -, aboveOne, -⟩ := comparisons_exact first (mayBeNumber_number (.ofInt 1))
  refine ⟨first, mayBeNumber_number _, (above.settled true).2 ?_, (atMost.settled false).2 ?_,
    aboveOne, aboveOne.unsettled ?_⟩
  · rintro x y hx rfl
    exact iff_of_true (admitted hx) rfl
  · rintro x y hx rfl
    exact iff_of_false (admitted hx) Bool.false_ne_true
  · intro answer alike
    have two := alike (.ofInt 2) (.ofInt 1) ⟨by decide, by decide⟩ rfl
    have one := alike (.ofInt 1) (.ofInt 1) ⟨by decide, by decide⟩ rfl
    exact absurd (one.2 (two.1 (by decide))) (by decide)

end Value

end ValueAlgebra
