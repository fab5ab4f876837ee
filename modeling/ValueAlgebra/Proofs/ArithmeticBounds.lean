import Mathlib
import ValueAlgebra.Proofs.Scope
import ValueAlgebra.Value.Arithmetic

/-!
# Bounds of arithmetic on unknown numbers

What an operation gives for numbers that two values may be is a number that the answer of the
operation on the values may be. Sums and differences make one exception. The ends of their ranges
are made of the ends of the operands, and an infinite end is left out as soon as one of the ends it
is made of is, whatever the other one. So an infinite result may be missed. Finite results never
are, nor are results of operands whose ranges include their ends.

Main statements:

* `Bound.nearAbove_sum`: the sum of two lower ends is a lower end of sums.
* `Value.numberBetween_ok`: a range with a number in it is the range of an answer.
* `Value.arithmetic_admits`: results are admitted, save infinities that sums leave out.
-/

namespace ValueAlgebra

/-! ## Order and sums of numbers -/

namespace Number

variable {a b x y s r : Number}

@[simp] theorem negInf_le (a : Number) : negInf ≤ a := by
  cases a <;> trivial

@[simp] theorem le_posInf (a : Number) : a ≤ posInf := by
  cases a <;> trivial

@[simp] theorem le_negInf : a ≤ negInf ↔ a = negInf := by
  cases a <;> simp [LE.le, Number.le]

@[simp] theorem posInf_le : posInf ≤ a ↔ a = posInf := by
  cases a <;> simp [LE.le, Number.le]

@[simp] theorem finite_le_finite {p q : Rat} : finite p ≤ finite q ↔ p ≤ q :=
  Iff.rfl

theorem lt_iff : a < b ↔ ¬ b ≤ a :=
  Iff.rfl

theorem le_rfl : a ≤ a := by
  cases a <;> simp

theorem le_trans (h : a ≤ b) (h' : b ≤ x) : a ≤ x := by
  cases a <;> cases b <;> cases x <;> simp at *
  exact h.trans h'

theorem le_antisymm (h : a ≤ b) (h' : b ≤ a) : a = b := by
  cases a <;> cases b <;> simp_all
  exact Rat.le_antisymm h h'

theorem le_of_lt (h : a < b) : a ≤ b := by
  rw [lt_iff] at h
  cases a <;> cases b <;> simp_all
  exact h.le

theorem le_total (a b : Number) : a ≤ b ∨ b ≤ a := by
  cases a <;> cases b <;> simp
  exact Rat.le_total

theorem negate_le_negate : a.negate ≤ b.negate ↔ b ≤ a := by
  cases a <;> cases b <;> simp [negate]

theorem negate_negate (a : Number) : a.negate.negate = a := by
  cases a <;> simp [negate]

theorem negate_inj : a.negate = b.negate ↔ a = b := by
  cases a <;> cases b <;> simp [negate]

theorem isFinite_negate (a : Number) : a.negate.isFinite = a.isFinite := by
  cases a <;> rfl

theorem add?_negate (a b : Number) : a.negate.add? b.negate = (a.add? b).map negate := by
  cases a <;> cases b <;> simp [negate, add?]
  ring

/-- Sums preserve the order, and finite sums preserve it strictly. -/
theorem add?_le_add? (ha : a ≤ x) (hb : b ≤ y) (hs : a.add? b = some s) (hr : x.add? y = some r) :
    s ≤ r ∧ (r.isFinite = true → a < x ∨ b < y → s < r) := by
  cases x with
  | negInf =>
    obtain rfl := le_negInf.1 ha
    cases y <;> cases hr
    all_goals cases b <;> cases hs <;> simp [isFinite, lt_iff] at *
  | posInf =>
    cases y <;> cases hr <;> simp [isFinite]
  | finite p =>
    cases y with
    | negInf =>
      cases hr
      obtain rfl := le_negInf.1 hb
      cases a <;> cases hs <;> simp [isFinite] at *
    | posInf =>
      cases hr
      simp [isFinite]
    | finite q =>
      cases hr
      cases a <;> cases b <;> cases hs <;> simp [isFinite, lt_iff] at *
      refine ⟨by linarith, fun strict => ?_⟩
      rcases strict with strict | strict <;> linarith

theorem zero_le_absolute (a : Number) : zero ≤ a.absolute := by
  cases a with
  | negInf | posInf => exact le_posInf _
  | finite q =>
    simp only [zero, absolute, finite_le_finite]
    split <;> linarith

end Number

/-! ## Ends of ranges -/

namespace Bound

variable {a b l u : Bound} {x y r : Number}

/-- The end of the range of the numbers of the other sign. -/
def opposite (b : Bound) : Bound :=
  ⟨b.value.negate, b.inclusive⟩

/-- A number is on the inner side of a lower end, or it is an infinity that is left out just there. -/
def NearAbove (l : Bound) (n : Number) : Prop :=
  l.admitsAbove n = true ∨ n.isFinite = false ∧ l = ⟨n, false⟩

/-- A number is on the inner side of an upper end, or it is an infinity that is left out just
there. -/
def NearBelow (u : Bound) (n : Number) : Prop :=
  u.admitsBelow n = true ∨ n.isFinite = false ∧ u = ⟨n, false⟩

theorem admitsAbove_iff :
    l.admitsAbove x = true ↔ l.value ≤ x ∧ (l.inclusive = false → l.value < x) := by
  unfold admitsAbove
  cases l.inclusive with
  | true => simp
  | false =>
    simp only [Bool.false_eq_true, if_false, decide_eq_true_eq, forall_const]
    exact ⟨fun h => ⟨Number.le_of_lt h, h⟩, fun h => h.2⟩

theorem admitsBelow_iff : u.admitsBelow x = true ↔ u.opposite.admitsAbove x.negate = true := by
  unfold admitsBelow
  rw [admitsAbove_iff]
  simp only [opposite, Number.negate_le_negate, Number.lt_iff]
  cases u.inclusive with
  | true => simp
  | false =>
    simp only [Bool.false_eq_true, if_false, decide_eq_true_eq, forall_const]
    exact ⟨fun h => ⟨Number.le_of_lt h, h⟩, fun h => h.2⟩

theorem opposite_eq_iff : u.opposite = ⟨x.negate, false⟩ ↔ u = ⟨x, false⟩ := by
  obtain ⟨n, inclusive⟩ := u
  simp only [opposite, Bound.mk.injEq]
  rw [Number.negate_inj]

theorem nearBelow_iff : u.NearBelow x ↔ u.opposite.NearAbove x.negate := by
  unfold NearBelow NearAbove
  rw [admitsBelow_iff, opposite_eq_iff, Number.isFinite_negate]

/-- The sum of two lower ends is a lower end of sums, save for an infinity that it leaves out. -/
theorem nearAbove_sum (ha : a.admitsAbove x = true) (hb : b.admitsAbove y = true)
    (hr : x.add? y = some r) (hl : Value.endOf (a.value.add? b.value) a b = some l) :
    l.NearAbove r := by
  obtain ⟨s, hs, rfl⟩ := Option.map_eq_some_iff.1 hl
  obtain ⟨hax, stricta⟩ := admitsAbove_iff.1 ha
  obtain ⟨hby, strictb⟩ := admitsAbove_iff.1 hb
  obtain ⟨le, strict⟩ := Number.add?_le_add? hax hby hs hr
  by_cases closed : (a.inclusive && b.inclusive) = true
  · left
    rw [admitsAbove_iff]
    exact ⟨le, fun h => absurd (h.symm.trans closed) (by simp)⟩
  · rw [Bool.not_eq_true] at closed
    have lt : a.value < x ∨ b.value < y :=
      (Bool.and_eq_false_iff.1 closed).imp stricta strictb
    by_cases eq : s = r
    · cases finite : r.isFinite with
      | false => exact .inr ⟨finite, by rw [eq, closed]⟩
      | true => exact .inl (admitsAbove_iff.2 ⟨le, fun _ => strict finite lt⟩)
    · exact .inl (admitsAbove_iff.2 ⟨le, fun _ h => eq (Number.le_antisymm le h)⟩)

/-- The sum of two upper ends is an upper end of sums, save for an infinity that it leaves out. -/
theorem nearBelow_sum (ha : a.admitsBelow x = true) (hb : b.admitsBelow y = true)
    (hr : x.add? y = some r) (hu : Value.endOf (a.value.add? b.value) a b = some u) :
    u.NearBelow r := by
  rw [nearBelow_iff]
  refine nearAbove_sum (admitsBelow_iff.1 ha) (admitsBelow_iff.1 hb) ?_ ?_
  · rw [Number.add?_negate, hr, Option.map_some]
  · obtain ⟨s, hs, rfl⟩ := Option.map_eq_some_iff.1 hu
    simp only [opposite, Number.add?_negate, hs, Option.map_some, Value.endOf]

theorem NearAbove.admits (h : l.NearAbove x) (inclusive : l.inclusive = true) :
    l.admitsAbove x = true := by
  rcases h with h | ⟨-, rfl⟩
  · exact h
  · cases inclusive

theorem NearBelow.admits (h : u.NearBelow x) (inclusive : u.inclusive = true) :
    u.admitsBelow x = true :=
  admitsBelow_iff.2 ((nearBelow_iff.1 h).admits inclusive)

/-- A lower and an upper end with a number in between do not cross. -/
theorem not_crosses (hl : l.admitsAbove x = true) (hu : u.admitsBelow x = true) :
    l.crosses u = false := by
  obtain ⟨hlx, strictl⟩ := admitsAbove_iff.1 hl
  obtain ⟨hxu, strictu⟩ := admitsAbove_iff.1 (admitsBelow_iff.1 hu)
  simp only [opposite, Number.lt_iff, Number.negate_le_negate] at hxu strictu
  simp only [crosses, Bool.or_eq_false_iff, decide_eq_false_iff_not, Number.lt_iff, not_not]
  refine ⟨Number.le_trans hlx hxu, ?_⟩
  rw [← Bool.not_eq_true, Bool.and_eq_true, beq_iff_eq, Bool.not_eq_true', Bool.and_eq_false_iff]
  rintro ⟨eq, left | left⟩
  · exact strictl left (eq ▸ hxu)
  · exact strictu left (eq ▸ hlx)

theorem admitsAbove_lowest (x : Number) : lowest.admitsAbove x = true := by
  simp [lowest, admitsAbove]

theorem admitsBelow_highest (x : Number) : highest.admitsBelow x = true := by
  simp [highest, admitsBelow]

/-- Only the lowest end says nothing. -/
theorem eq_lowest (h : l.isAbove lowest = false) : l = lowest := by
  obtain ⟨n, inclusive⟩ := l
  cases n <;> cases inclusive <;> simp_all [isAbove, lowest, Number.lt_iff]

theorem eq_highest (h : u.isBelow highest = false) : u = highest := by
  obtain ⟨n, inclusive⟩ := u
  cases n <;> cases inclusive <;> simp_all [isBelow, highest, Number.lt_iff]

end Bound

namespace Refinement

variable {r : Refinement} {x : Number}

/-- A number is between the ends of a range. -/
def Spans (r : Refinement) (x : Number) : Prop :=
  r.lower.admitsAbove x = true ∧ r.upper.admitsBelow x = true

/-- The ends of a range belong to it. -/
def Closed (r : Refinement) : Prop :=
  r.lower.inclusive = true ∧ r.upper.inclusive = true

/-- The range of the numbers of the other sign. -/
def opposite (r : Refinement) : Refinement :=
  { r with lower := r.upper.opposite, upper := r.lower.opposite }

theorem Spans.opposite (h : r.Spans x) : r.opposite.Spans x.negate := by
  refine ⟨Bound.admitsBelow_iff.1 h.2, Bound.admitsBelow_iff.2 ?_⟩
  have same : r.opposite.upper.opposite = r.lower := by
    simp only [Refinement.opposite, Bound.opposite, Number.negate_negate]
  rw [Number.negate_negate, same]
  exact h.1

end Refinement

/-! ## Numbers that values may be -/

namespace Value

variable {a b v : Value} {x y r : Number} {lower upper : Option Bound}

/-- A number is what a value is, or what it may turn out to be. -/
def Admits (v : Value) (x : Number) : Prop :=
  match v.content with
  | .number n => n = x
  | .unknown .number r => r.nullness ≠ .null ∧ r.admits (.number x) = true
  | _ => False

/-- The ends of the range of an unknown value belong to the range. -/
def Closed (v : Value) : Prop :=
  ∀ t r, v.content = .unknown t r → r.Closed

/-- An infinity that an unknown number may not turn out to be, as its range ends just there. -/
def EndsBefore (v : Value) (x : Number) : Prop :=
  x.isFinite = false ∧
    ∃ r, v.content = .unknown .number r ∧ (r.lower = ⟨x, false⟩ ∨ r.upper = ⟨x, false⟩)

theorem admits_cases (h : v.Admits x) : v.content = .number x ∨
    ∃ r, v.content = .unknown .number r ∧ r.nullness ≠ .null ∧ r.lower.admitsAbove x = true ∧
      r.upper.admitsBelow x = true := by
  unfold Admits at h
  split at h
  · rename_i n hc
    exact .inl (h ▸ hc)
  · rename_i r hc
    rw [Refinement.admits, Bool.and_eq_true] at h
    exact .inr ⟨r, hc, h.1, h.2.1, h.2.2⟩
  · cases h

theorem admits_of_unknown {r : Refinement} (hc : v.content = .unknown .number r)
    (hn : r.nullness ≠ .null) (hl : r.lower.admitsAbove x = true)
    (hu : r.upper.admitsBelow x = true) : v.Admits x := by
  simp only [Admits, hc, Refinement.admits, Bool.and_eq_true]
  exact ⟨hn, hl, hu⟩

theorem Admits.ty (h : v.Admits x) : v.ty = .number := by
  obtain ⟨m, c⟩ := v
  rcases admits_cases h with hc | ⟨r, hc, -⟩ <;> cases hc <;> rfl

/-- The range of a value has the numbers that the value may be. -/
theorem Admits.range (h : v.Admits x) : v.range.refinement.Spans x := by
  rcases admits_cases h with hc | ⟨r, hc, -, hl, hu⟩
  · rw [Value.range, hc]
    simp [Refinement.ofContent, Refinement.Spans, Bound.admitsAbove, Bound.admitsBelow,
      Number.le_rfl]
  · rw [Value.range, hc]
    exact ⟨hl, hu⟩

theorem Admits.closed_range (h : v.Admits x) (hc : v.Closed) : v.range.refinement.Closed := by
  rcases admits_cases h with number | ⟨r, unknown, -⟩
  · rw [Value.range, number]
    exact ⟨rfl, rfl⟩
  · rw [Value.range, unknown]
    exact hc _ r unknown

/-! ## Numbers between two ends -/

/-- What is known about a number between two ends. -/
def refinementBetween (lower upper : Option Bound) : Refinement :=
  { nullness := .notNull, lower := lower.getD .lowest, upper := upper.getD .highest }

/-- What is said about an unknown number. -/
def refiningNumber (r : Refinement) : Refining :=
  ⟨unknown .number, .empty, some r⟩

theorem ty_unknownNumber : (unknown .number).ty = .number := by
  simp [unknown, refined, bare, ty]

theorem raiseLower_eq (l : Bound) : (refiningNumber .notNull).raiseLower l =
    if l.crosses .highest then
      .error (.crossedBounds (refiningNumber .notNull).subject .lower l.value .posInf)
    else .ok (refiningNumber (refinementBetween (some l) none)) := by
  simp only [refiningNumber, Refining.raiseLower, Refining.narrow]
  cases above : l.isAbove .lowest with
  | false =>
    obtain rfl := Bound.eq_lowest above
    rfl
  | true =>
    have above : l.isAbove Refinement.notNull.lower = true := above
    simp only [ty_unknownNumber, above, ne_eq, not_true_eq_false, if_false, Bool.not_true,
      Bool.false_eq_true]
    change Except.map _ (if l.crosses .highest = true then _ else _) = _
    split <;> rfl

theorem cutUpper_eq (u : Bound) (hl : (lower.getD .lowest).crosses .highest = false) :
    (refiningNumber (refinementBetween lower none)).cutUpper u =
      if (lower.getD .lowest).crosses u then
        .error (.crossedBounds (refiningNumber (refinementBetween lower none)).subject .upper u.value
          (lower.getD .lowest).value)
      else .ok (refiningNumber (refinementBetween lower (some u))) := by
  simp only [refiningNumber, Refining.cutUpper, Refining.narrow]
  cases below : u.isBelow .highest with
  | false =>
    obtain rfl := Bound.eq_highest below
    simp only [hl]
    rfl
  | true =>
    have below : u.isBelow (refinementBetween lower none).upper = true := below
    simp only [ty_unknownNumber, below, ne_eq, not_true_eq_false, if_false, Bool.not_true,
      Bool.false_eq_true]
    change Except.map _ (if (lower.getD .lowest).crosses u = true then _ else _) = _
    split <;> rfl

/-- A range is the range of an unknown number, or it has one number alone. -/
theorem result_refiningNumber (lower upper : Option Bound) :
    ∃ v, (refiningNumber (refinementBetween lower upper)).result = .ok v ∧
      (v.content = .unknown .number (refinementBetween lower upper) ∨
        v.content = .number (lower.getD .lowest).value ∧
        (lower.getD .lowest).inclusive = true ∧ (upper.getD .highest).inclusive = true ∧
        (lower.getD .lowest).value = (upper.getD .highest).value) := by
  have known : (unknown .number).isKnown = false := by simp [unknown, refined, bare, isKnown]
  simp only [Refining.result, refiningNumber, known, ty_unknownNumber, Refining.onlyResult?,
    refinementBetween]
  cases one : (lower.getD .lowest).inclusive && (upper.getD .highest).inclusive &&
      (lower.getD .lowest).value == (upper.getD .highest).value with
  | true =>
    simp only [if_true]
    simp only [Bool.and_eq_true, beq_iff_eq] at one
    exact ⟨_, rfl, .inr ⟨rfl, one.1.1, one.1.2, one.2⟩⟩
  | false =>
    simp only [Bool.false_eq_true, if_false]
    exact ⟨_, rfl, .inl rfl⟩

/-- Two ends that cross have no range. A lower end that leaves out all numbers crosses any upper end,
and is refused before the upper end is told. -/
theorem numberBetween_eq (lower upper : Option Bound) : numberBetween lower upper =
    if (lower.getD .lowest).crosses .highest then
      .error (.crossedBounds ⟨false, .number⟩ .lower (lower.getD .lowest).value .posInf)
    else if (lower.getD .lowest).crosses (upper.getD .highest) then
      .error (.crossedBounds ⟨false, .number⟩ .upper (upper.getD .highest).value
        (lower.getD .lowest).value)
    else (refiningNumber (refinementBetween lower upper)).result := by
  have subject (r : Refinement) : (refiningNumber r).subject = ⟨false, .number⟩ := by
    simp [refiningNumber, Refining.subject, unknown, refined, bare, isKnown, ty]
  have steps : numberBetween lower upper =
      (lower.elim (.ok (refiningNumber .notNull)) (refiningNumber .notNull).raiseLower).bind fun s =>
        (upper.elim (.ok s) s.cutUpper).bind Refining.result := by
    cases lower <;> cases upper <;> rfl
  rw [steps]
  cases hl : (lower.getD .lowest).crosses .highest with
  | true =>
    cases lower with
    | none => cases hl
    | some l =>
      rw [Option.getD_some] at hl
      rw [Option.elim_some, raiseLower_eq, if_pos hl, subject]
      rfl
  | false =>
    have raised : lower.elim (.ok (refiningNumber .notNull)) (refiningNumber .notNull).raiseLower =
        .ok (refiningNumber (refinementBetween lower none)) := by
      cases lower with
      | none => rfl
      | some l => exact (raiseLower_eq l).trans (if_neg (by simpa using hl))
    rw [raised]
    cases upper with
    | none =>
      rw [Option.getD_none, hl]
      rfl
    | some u =>
      simp only [Except.bind, Option.elim_some, cutUpper_eq u hl, Option.getD_some, subject]
      cases (lower.getD .lowest).crosses u <;> rfl

/-- Two ends between which there is no number have no range. -/
theorem numberBetween_cases (lower upper : Option Bound) :
    numberBetween lower upper = (refiningNumber (refinementBetween lower upper)).result ∨
    (∃ fault, numberBetween lower upper = .error fault) ∧
      ((lower.getD .lowest).crosses .highest = true ∨
        (lower.getD .lowest).crosses (upper.getD .highest) = true) := by
  rw [numberBetween_eq]
  split
  · exact .inr ⟨⟨_, rfl⟩, .inl ‹_›⟩
  split
  · exact .inr ⟨⟨_, rfl⟩, .inr ‹_›⟩
  · exact .inl rfl

/-- A range with a number in it is the range of a value. -/
theorem numberBetween_ok (hl : (lower.getD .lowest).admitsAbove x = true)
    (hu : (upper.getD .highest).admitsBelow x = true) :
    ∃ v, numberBetween lower upper = .ok v ∧ v.Admits x := by
  have eq : numberBetween lower upper = (refiningNumber (refinementBetween lower upper)).result := by
    refine (numberBetween_cases lower upper).resolve_right ?_
    rw [Bound.not_crosses hl (Bound.admitsBelow_highest x), Bound.not_crosses hl hu]
    simp
  obtain ⟨v, hv, hc | ⟨hc, left, right, same⟩⟩ := result_refiningNumber lower upper
  · exact ⟨v, eq.trans hv, admits_of_unknown hc (by simp [refinementBetween]) hl hu⟩
  · refine ⟨v, eq.trans hv, ?_⟩
    simp only [Admits, hc]
    rw [Bound.admitsAbove, left, if_pos rfl, decide_eq_true_eq] at hl
    rw [Bound.admitsBelow, right, if_pos rfl, decide_eq_true_eq, ← same] at hu
    exact Number.le_antisymm hl hu

/-- The value of a range ends just before a number where one of the ends does. -/
theorem endsBefore_of_numberBetween (inf : x.isFinite = false)
    (h : lower.getD .lowest = ⟨x, false⟩ ∨ upper.getD .highest = ⟨x, false⟩)
    (hv : numberBetween lower upper = .ok v) : v.EndsBefore x := by
  rcases numberBetween_cases lower upper with eq | ⟨⟨fault, eq⟩, -⟩
  · obtain ⟨w, hw, hc | ⟨-, left, right, -⟩⟩ := result_refiningNumber lower upper
    · rw [eq, hw] at hv
      cases hv
      exact ⟨inf, _, hc, h⟩
    · rcases h with h | h
      · rw [h] at left
        cases left
      · rw [h] at right
        cases right
  · rw [eq] at hv
    cases hv

/-! ## Answers of operations -/

/-- An operation answers with a value that a number is admitted by. -/
def Answers (answer : Except Fault Value) (r : Number) : Prop :=
  ∃ v, answer = .ok v ∧ v.Admits r

/-- An operation has an infinite result, and its answer, if there is one, ends just before it. -/
def Misses (answer : Except Fault Value) (r : Number) : Prop :=
  r.isFinite = false ∧ ∀ v, answer = .ok v → v.EndsBefore r

theorem numberBetween_near (hl : (lower.getD .lowest).NearAbove x)
    (hu : (upper.getD .highest).NearBelow x) :
    Answers (numberBetween lower upper) x ∨ Misses (numberBetween lower upper) x := by
  rcases hl with hl | ⟨inf, hl⟩
  · rcases hu with hu | ⟨inf, hu⟩
    · exact .inl (numberBetween_ok hl hu)
    · exact .inr ⟨inf, fun v => endsBefore_of_numberBetween inf (.inr hu)⟩
  · exact .inr ⟨inf, fun v => endsBefore_of_numberBetween inf (.inl hl)⟩

theorem checkOperands_number {operation : String} {operands : List Value}
    (h : ∀ v ∈ operands, v.ty = .number) : checkOperands operation .number operands = .ok () := by
  have none : operands.findIdx? (fun v => v.ty != .dynamic && v.ty != .number) = none := by
    rw [List.findIdx?_eq_none_iff]
    intro v hv
    rw [h v hv]
    simp
  rw [checkOperands, none]

/-- Operands that may be numbers are computed with if both are known. Else their ranges tell the
answer. -/
theorem arithmetic_cases (operation : String)
    (between : Refinement → Refinement → Except Fault Value)
    {compute : Number → Number → Option Number} (ha : a.Admits x) (hb : b.Admits y)
    (hr : compute x y = some r) :
    markingBoth (arithmetic operation between compute) a b =
        .ok (((number r).withMarks a.marks).withMarks b.marks) ∨
      markingBoth (arithmetic operation between compute) a b =
        (between a.range.refinement b.range.refinement).map fun answer =>
          (answer.withMarks a.marks).withMarks b.marks := by
  have check : checkOperands operation .number [a.unmark, b.unmark] = .ok () := by
    apply checkOperands_number
    simpa using ⟨ha.ty, hb.ty⟩
  have typed : ¬ (a.unmark.ty = .dynamic ∨ b.unmark.ty = .dynamic) := by
    rw [ty_unmark, ty_unmark, ha.ty, hb.ty]
    simp
  have ofKnown (h : (!a.unmark.isKnown || !b.unmark.isKnown) = true) :
      arithmetic operation between compute a.unmark b.unmark =
        between a.range.refinement b.range.refinement := by
    simp only [arithmetic, check, bind, Except.bind, if_neg typed, h, if_true]
    rfl
  obtain ⟨m, c⟩ := a
  obtain ⟨n, d⟩ := b
  rcases admits_cases ha with hc | ⟨ra, hc, -⟩
  · rcases admits_cases hb with hd | ⟨rb, hd, -⟩
    · cases hc
      cases hd
      have first : numberOperand operation (unmark ⟨m, .number x⟩) = .ok x := rfl
      have second : numberOperand operation (unmark ⟨n, .number y⟩) = .ok y := rfl
      have known (m : MarkSet) (z : Number) : (unmark ⟨m, .number z⟩).isKnown = true := rfl
      left
      simp only [markingBoth, arithmetic, check, bind, Except.bind, if_neg typed, first, second,
        known, Bool.not_true, Bool.or_false, Bool.false_eq_true, if_false, hr]
      rfl
    · cases hd
      exact .inr (congrArg (Except.map _) (ofKnown (by simp [unmark, bare, isKnown, content])))
  · cases hc
    exact .inr (congrArg (Except.map _) (ofKnown (by simp [unmark, bare, isKnown, content])))

section

variable {answer : Except Fault Value} {mark : Value → Value}

theorem answers_map (hm : ∀ v, (mark v).content = v.content) (h : Answers answer r) :
    Answers (answer.map mark) r := by
  obtain ⟨v, rfl, hv⟩ := h
  refine ⟨mark v, rfl, ?_⟩
  rw [Admits, hm]
  exact hv

theorem misses_map (hm : ∀ v, (mark v).content = v.content) (h : Misses answer r) :
    Misses (answer.map mark) r := by
  refine ⟨h.1, fun v hv => ?_⟩
  cases answer with
  | error fault => cases hv
  | ok w =>
    cases hv
    rw [EndsBefore, hm]
    exact h.2 w rfl

end

/-- An operation answers with what it gives for numbers if the bounds of its answers do. -/
theorem answers_arithmetic (operation : String)
    {between : Refinement → Refinement → Except Fault Value}
    {compute : Number → Number → Option Number} (ha : a.Admits x) (hb : b.Admits y)
    (hr : compute x y = some r)
    (hs : Answers (between a.range.refinement b.range.refinement) r) :
    Answers (markingBoth (arithmetic operation between compute) a b) r := by
  rcases arithmetic_cases operation between ha hb hr with eq | eq <;> rw [eq]
  · exact ⟨_, rfl, rfl⟩
  · exact answers_map (fun _ => rfl) hs

theorem nearly_arithmetic (operation : String)
    {between : Refinement → Refinement → Except Fault Value}
    {compute : Number → Number → Option Number} (ha : a.Admits x) (hb : b.Admits y)
    (hr : compute x y = some r)
    (hs : Answers (between a.range.refinement b.range.refinement) r ∨
      Misses (between a.range.refinement b.range.refinement) r) :
    Answers (markingBoth (arithmetic operation between compute) a b) r ∨
      Misses (markingBoth (arithmetic operation between compute) a b) r := by
  rcases arithmetic_cases operation between ha hb hr with eq | eq <;> rw [eq]
  · exact .inl ⟨_, rfl, rfl⟩
  · exact hs.imp (answers_map fun _ => rfl) (misses_map fun _ => rfl)

/-! ## Sums and differences -/

section

variable {s t : Refinement} (hs : s.Spans x) (ht : t.Spans y) (hr : x.add? y = some r)
include hs ht hr

theorem lower_sumBetween :
    ((endOf (s.lower.value.add? t.lower.value) s.lower t.lower).getD .lowest).NearAbove r := by
  cases hl : endOf (s.lower.value.add? t.lower.value) s.lower t.lower with
  | none => exact .inl (Bound.admitsAbove_lowest r)
  | some l => exact Bound.nearAbove_sum hs.1 ht.1 hr hl

theorem upper_sumBetween :
    ((endOf (s.upper.value.add? t.upper.value) s.upper t.upper).getD .highest).NearBelow r := by
  cases hu : endOf (s.upper.value.add? t.upper.value) s.upper t.upper with
  | none => exact .inl (Bound.admitsBelow_highest r)
  | some u => exact Bound.nearBelow_sum hs.2 ht.2 hr hu

theorem sumBetween_near : Answers (sumBetween s t) r ∨ Misses (sumBetween s t) r :=
  numberBetween_near (lower_sumBetween hs ht hr) (upper_sumBetween hs ht hr)

theorem sumBetween_closed (cs : s.Closed) (ct : t.Closed) : Answers (sumBetween s t) r := by
  refine numberBetween_ok ((lower_sumBetween hs ht hr).admits ?_)
    ((upper_sumBetween hs ht hr).admits ?_)
  · cases s.lower.value.add? t.lower.value with
    | none => rfl
    | some n => exact Bool.and_eq_true_iff.2 ⟨cs.1, ct.1⟩
  · cases s.upper.value.add? t.upper.value with
    | none => rfl
    | some n => exact Bool.and_eq_true_iff.2 ⟨cs.2, ct.2⟩

end

/-- An answer about which nothing is said may be any number. -/
theorem anyNumber_answers (s t : Refinement) (r : Number) : Answers (anyNumber s t) r :=
  numberBetween_ok (Bound.admitsAbove_lowest r) (Bound.admitsBelow_highest r)

/-! ## Operations on one number -/

theorem answers_arithmeticUnary (operation : String) {between : Refinement → Except Fault Value}
    {compute : Number → Number} (ha : a.Admits x)
    (hs : Answers (between a.range.refinement) (compute x)) :
    Answers (marking (arithmeticUnary operation between compute) a) (compute x) := by
  have check : checkOperands operation .number [a.unmark] = .ok () := by
    apply checkOperands_number
    simpa using ha.ty
  have typed : ¬ a.unmark.ty = .dynamic := by
    rw [ty_unmark, ha.ty]
    simp
  obtain ⟨m, c⟩ := a
  rcases admits_cases ha with hc | ⟨s, hc, -⟩
  · cases hc
    have operand : numberOperand operation (unmark ⟨m, .number x⟩) = .ok x := rfl
    have known : (unmark ⟨m, .number x⟩).isKnown = true := rfl
    simp only [marking, arithmeticUnary, check, bind, Except.bind, if_neg typed, operand, known,
      Bool.not_true, Bool.false_eq_true, if_false]
    exact ⟨_, rfl, rfl⟩
  · cases hc
    have known : (unmark ⟨m, .unknown .number s⟩).isKnown = false := rfl
    simp only [marking, arithmeticUnary, check, bind, Except.bind, if_neg typed, known,
      Bool.not_false, if_true]
    exact answers_map (fun _ => rfl) hs

theorem answers_negate (ha : a.Admits x) : Answers a.negate x.negate :=
  answers_arithmeticUnary _ ha (numberBetween_ok ha.range.opposite.1 ha.range.opposite.2)

theorem answers_absolute (ha : a.Admits x) : Answers a.absolute x.absolute := by
  refine answers_arithmeticUnary _ ha (numberBetween_ok ?_ (Bound.admitsBelow_highest _))
  exact Bound.admitsAbove_iff.2 ⟨Number.zero_le_absolute x, by simp⟩

/-! ## All operations -/

/-- What operations give for numbers that their operands may be is a number that their answer may
be. Sums and differences only miss infinities that their answer ends before, and none of those if
the ranges of the operands include their ends. -/
theorem arithmetic_admits (ha : a.Admits x) (hb : b.Admits y) :
    (∀ r, x.add? y = some r → Answers (a.add b) r ∨ Misses (a.add b) r) ∧
    (∀ r, x.subtract? y = some r → Answers (a.subtract b) r ∨ Misses (a.subtract b) r) ∧
    (a.Closed → b.Closed → ∀ r, (x.add? y = some r → Answers (a.add b) r) ∧
      (x.subtract? y = some r → Answers (a.subtract b) r)) ∧
    (∀ r, x.multiply? y = some r → Answers (a.multiply b) r) ∧
    (∀ r, x.divide? y = some r → Answers (a.divide b) r) ∧
    (∀ r, remainder? x y = some r → Answers (a.modulo b) r) ∧
    Answers a.negate x.negate ∧ Answers a.absolute x.absolute := by
  have spanA := ha.range
  have spanB := hb.range
  refine ⟨fun r hr => ?_, fun r hr => ?_, fun ca cb r => ⟨fun hr => ?_, fun hr => ?_⟩,
    fun r hr => ?_, fun r hr => ?_, fun r hr => ?_, answers_negate ha, answers_absolute ha⟩
  · exact nearly_arithmetic _ ha hb hr (sumBetween_near spanA spanB hr)
  · exact nearly_arithmetic _ ha hb hr (sumBetween_near spanA spanB.opposite hr)
  · exact answers_arithmetic _ ha hb hr
      (sumBetween_closed spanA spanB hr (ha.closed_range ca) (hb.closed_range cb))
  · have closed := hb.closed_range cb
    exact answers_arithmetic _ ha hb hr
      (sumBetween_closed spanA spanB.opposite hr (ha.closed_range ca) ⟨closed.2, closed.1⟩)
  · exact answers_arithmetic _ ha hb hr (anyNumber_answers _ _ r)
  · exact answers_arithmetic _ ha hb hr (anyNumber_answers _ _ r)
  · exact answers_arithmetic _ ha hb hr (anyNumber_answers _ _ r)

/-- An unknown number above zero. -/
def positive : Value :=
  refined .number { lower := ⟨.zero, false⟩ }

/-- A number above zero may be an infinity, which a sum does not miss. -/
theorem arithmetic_admits_positive :
    positive.Admits .posInf ∧ (number (.ofInt 2)).Admits (.ofInt 2) ∧
      Answers (positive.add (number (.ofInt 2))) .posInf ∧
      Answers (positive.multiply (number (.ofInt 2))) .posInf ∧
      Answers positive.negate .negInf := by
  have first : positive.Admits .posInf := ⟨by decide, by decide⟩
  have second : (number (.ofInt 2)).Admits (.ofInt 2) := rfl
  obtain ⟨sum, -, -, product, -, -, negated, -⟩ := arithmetic_admits first second
  refine ⟨first, second, (sum _ rfl).resolve_right ?_, product _ (by decide), negated⟩
  rintro ⟨-, misses⟩
  obtain ⟨-, r, hc, left | left⟩ := misses _ rfl <;> cases hc <;> cases left

/-- A sum of any number and a number above zero may be the negative infinity, but the answer ends
before it. -/
theorem add_endsBefore_negInf :
    (unknown .number).restrict [.atLeast (number .zero) false] = .ok positive ∧
      (unknown .number).Admits .negInf ∧ positive.Admits (.ofInt 1) ∧
      Number.negInf.add? (.ofInt 1) = some .negInf ∧
      ∃ v, (unknown .number).add positive = .ok v ∧ ¬ v.Admits .negInf := by
  refine ⟨rfl, ⟨by decide, by decide⟩, ⟨by decide, by decide⟩, rfl, _, rfl, ?_⟩
  rintro ⟨-, within⟩
  revert within
  decide

end Value

end ValueAlgebra
