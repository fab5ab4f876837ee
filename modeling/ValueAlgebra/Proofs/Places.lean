import Mathlib
import ValueAlgebra.Number.Decimal

/-!
# Places after the point

A fraction is written exactly by finitely many decimal digits where no prime divides its denominator
but two and five. `Number.exactPlaces?` finds this out by counting how often the two divide, and
answers how many places after the point are needed. Any other fraction is rounded to
`Number.renderedPlaces` places.

Main statements:

* `Number.exactPlaces?_eq_some`: so many places are enough and no fewer are.
* `Number.exists_exactPlaces_iff`: the fractions that have them.
* `Number.abs_renderedValue_sub_le`: how far off a rounded fraction is.
-/

namespace ValueAlgebra.Number

/-! ## Counting factors -/

/-- With fuel for as many divisions as there are binary digits, all factors are found. -/
theorem factorOut_spec {factor : Nat} (hf : 2 ≤ factor) {fuel n : Nat} (hn : 0 < n)
    (enough : n < 2 ^ fuel) :
    factor ^ (factorOut factor fuel n).1 * (factorOut factor fuel n).2 = n ∧
      ¬factor ∣ (factorOut factor fuel n).2 := by
  induction fuel generalizing n with
  | zero => omega
  | succ fuel ih =>
    rw [factorOut]
    split
    · rename_i divides
      have whole : factor * (n / factor) = n := Nat.mul_div_cancel' (Nat.dvd_of_mod_eq_zero divides)
      have positive : 0 < n / factor := by
        by_contra zero
        rw [Nat.eq_zero_of_not_pos zero] at whole
        omega
      have less : n / factor < 2 ^ fuel := by
        rw [Nat.div_lt_iff_lt_mul (by omega)]
        calc n < 2 ^ fuel * 2 := by rwa [← pow_succ]
          _ ≤ 2 ^ fuel * factor := Nat.mul_le_mul_left _ hf
      obtain ⟨eq, rest⟩ := ih positive less
      refine ⟨?_, rest⟩
      calc factor ^ ((factorOut factor fuel (n / factor)).1 + 1) *
            (factorOut factor fuel (n / factor)).2
          = factor * (factor ^ (factorOut factor fuel (n / factor)).1 *
            (factorOut factor fuel (n / factor)).2) := by ring
        _ = n := by rw [eq, whole]
    · rename_i rest
      exact ⟨by simp, fun divides => rest (Nat.mod_eq_zero_of_dvd divides)⟩

variable {den places : Nat}

/-- A denominator by its twos and fives and what is left of it. -/
theorem exists_factors (hd : 0 < den) : ∃ twos fives rest,
    den = 2 ^ twos * (5 ^ fives * rest) ∧ ¬2 ∣ rest ∧ ¬5 ∣ rest ∧
      exactPlaces? den = if rest = 1 then some (max twos fives) else none := by
  have two := factorOut_spec (Nat.le_refl 2) hd Nat.lt_log2_self
  obtain ⟨twos, odd, h2⟩ : ∃ t r, factorOut 2 (den.log2 + 1) den = (t, r) := ⟨_, _, rfl⟩
  rw [h2] at two
  have ho : 0 < odd := Nat.pos_of_ne_zero fun zero => two.2 (zero ▸ Nat.dvd_zero 2)
  have five := factorOut_spec (show 2 ≤ 5 by decide) ho Nat.lt_log2_self
  obtain ⟨fives, rest, h5⟩ : ∃ t r, factorOut 5 (odd.log2 + 1) odd = (t, r) := ⟨_, _, rfl⟩
  rw [h5] at five
  refine ⟨twos, fives, rest, ?_, ?_, five.2, ?_⟩
  · rw [five.1, two.1]
  · intro even
    exact two.2 (five.1 ▸ Dvd.dvd.mul_left even _)
  · rw [exactPlaces?, h2]
    simp only [h5]

/-- A power of ten is a multiple of the denominator as soon as it has enough places. -/
theorem exactPlaces?_eq_some (hd : 0 < den) (h : exactPlaces? den = some places) (k : Nat) :
    den ∣ 10 ^ k ↔ places ≤ k := by
  obtain ⟨twos, fives, rest, rfl, -, -, eq⟩ := exists_factors hd
  rw [h] at eq
  split at eq
  · rename_i one
    cases eq
    have ten : 10 ^ k = 2 ^ k * 5 ^ k := by rw [← Nat.mul_pow]
    have coprime (m n : Nat) : Nat.Coprime (2 ^ m) (5 ^ n) := Nat.Coprime.pow m n (by decide)
    rw [one, Nat.mul_one, ten, max_le_iff]
    constructor
    · intro divides
      have two := (coprime twos k).dvd_of_dvd_mul_right ((Nat.dvd_mul_right ..).trans divides)
      have five := (coprime k fives).symm.dvd_of_dvd_mul_left ((Nat.dvd_mul_left ..).trans divides)
      exact ⟨(Nat.pow_dvd_pow_iff_le_right (by decide)).1 two,
        (Nat.pow_dvd_pow_iff_le_right (by decide)).1 five⟩
    · rintro ⟨two, five⟩
      exact Nat.mul_dvd_mul (Nat.pow_dvd_pow 2 two) (Nat.pow_dvd_pow 5 five)
  · cases eq

/-- The primes of ten are two and five. -/
theorem eq_of_dvd_pow_ten {p k : Nat} (prime : p.Prime) (h : p ∣ 10 ^ k) : p = 2 ∨ p = 5 := by
  have ten : p ∣ 2 * 5 := prime.dvd_of_dvd_pow h
  rcases prime.dvd_mul.1 ten with two | five
  · exact .inl ((Nat.prime_dvd_prime_iff_eq prime Nat.prime_two).1 two)
  · exact .inr ((Nat.prime_dvd_prime_iff_eq prime Nat.prime_five).1 five)

theorem exists_exactPlaces_iff (hd : 0 < den) :
    (∃ places, exactPlaces? den = some places) ↔
      ∀ p : Nat, p.Prime → p ∣ den → p = 2 ∨ p = 5 := by
  constructor
  · rintro ⟨places, h⟩ p prime divides
    have ten : den ∣ 10 ^ places := (exactPlaces?_eq_some hd h places).2 (Nat.le_refl _)
    exact eq_of_dvd_pow_ten prime (divides.trans ten)
  · intro h
    obtain ⟨twos, fives, rest, eq, two, five, places⟩ := exists_factors hd
    have one : rest = 1 := by
      by_contra more
      obtain ⟨p, prime, divides⟩ := Nat.exists_prime_and_dvd more
      have part : p ∣ den := eq ▸ Dvd.dvd.mul_left (Dvd.dvd.mul_left divides _) _
      rcases h p prime part with rfl | rfl
      · exact two divides
      · exact five divides
    exact ⟨_, places.trans (if_pos one)⟩

/-! ## Rounding -/

/-- Rounding moves a quotient by half a unit of the last place at most. -/
theorem abs_roundedMagnitude_sub_le (num : Nat) (hd : 0 < den) :
    |(roundedMagnitude num den : ℚ) - num * 10 ^ renderedPlaces / den| ≤ 1 / 2 := by
  have positive : (0 : ℚ) < den := by exact_mod_cast hd
  have pow : Nat.pow 10 renderedPlaces = 10 ^ renderedPlaces := rfl
  set whole := 2 * num * Nat.pow 10 renderedPlaces + den with hw
  have low : 2 * den * (whole / (2 * den)) ≤ whole := Nat.mul_div_le ..
  have high : whole < 2 * den * (whole / (2 * den)) + 2 * den := by
    have := Nat.lt_mul_div_succ whole (show 0 < 2 * den by omega)
    rwa [Nat.mul_succ] at this
  rw [roundedMagnitude, ← hw]
  set m := whole / (2 * den)
  rw [hw, pow] at low high
  have low : (2 * den * m : ℚ) ≤ 2 * num * 10 ^ renderedPlaces + den := by exact_mod_cast low
  have high : (2 * num * 10 ^ renderedPlaces + den : ℚ) < 2 * den * m + 2 * den := by
    exact_mod_cast high
  have scaled : (m : ℚ) - num * 10 ^ renderedPlaces / den =
      (2 * den * m - 2 * num * 10 ^ renderedPlaces) / (2 * den) := by
    field_simp
  rw [scaled, abs_le, le_div_iff₀ (by positivity), div_le_iff₀ (by positivity)]
  constructor <;> linarith

/-! ## What rendered digits stand for -/

/-- A magnitude with the sign of a fraction. -/
def withSignOf (q magnitude : ℚ) : ℚ :=
  if q < 0 then -magnitude else magnitude

theorem withSignOf_abs (q : ℚ) : withSignOf q |q| = q := by
  unfold withSignOf
  split
  · rename_i negative
    rw [abs_of_neg negative, neg_neg]
  · rename_i positive
    rw [abs_of_nonneg (not_lt.1 positive)]

theorem abs_withSignOf_sub (q magnitude : ℚ) :
    |withSignOf q magnitude - q| = |magnitude - abs q| := by
  unfold withSignOf
  split
  · rename_i negative
    rw [abs_of_neg negative, ← abs_neg]
    ring_nf
  · rename_i positive
    rw [abs_of_nonneg (not_lt.1 positive)]

theorem abs_withSignOf (q : ℚ) {magnitude : ℚ} (h : 0 ≤ magnitude) :
    |withSignOf q magnitude| = magnitude := by
  unfold withSignOf
  split
  · rw [abs_neg, abs_of_nonneg h]
  · exact abs_of_nonneg h

theorem withSignOf_neg_iff (q : ℚ) {magnitude : ℚ} (h : 0 < magnitude) :
    withSignOf q magnitude < 0 ↔ q < 0 := by
  unfold withSignOf
  split
  · rename_i negative
    exact iff_of_true (neg_neg_of_pos h) negative
  · rename_i positive
    exact iff_of_false (not_lt.2 h.le) positive

theorem den_withSignOf_dvd (q : ℚ) (magnitude places : Nat) :
    (withSignOf q (magnitude / 10 ^ places)).den ∣ 10 ^ places := by
  have divides : ((magnitude : ℚ) / 10 ^ places).den ∣ 10 ^ places := by
    have fraction : Rat.divInt magnitude (10 ^ places) = (magnitude / 10 ^ places : ℚ) := by
      rw [Rat.divInt_eq_div]
      push_cast
      rfl
    exact Int.natCast_dvd_natCast.1 (fraction ▸ Rat.den_dvd magnitude (10 ^ places))
  unfold withSignOf
  split
  · rwa [Rat.den_neg_eq_den]
  · exact divides

theorem abs_eq_natAbs_div_den (q : ℚ) : |q| = q.num.natAbs / q.den := by
  conv_lhs => rw [← Rat.num_div_den q]
  rw [abs_div, Nat.abs_cast, Nat.cast_natAbs, Int.cast_abs]

theorem renderedValue_of_eq_some {q : ℚ} {places : Nat} (h : exactPlaces? q.den = some places) :
    renderedValue q = q := by
  rw [renderedValue, h]

theorem renderedValue_of_eq_none {q : ℚ} (h : exactPlaces? q.den = none) :
    renderedValue q =
      withSignOf q (roundedMagnitude q.num.natAbs q.den / 10 ^ renderedPlaces) := by
  have pow : Nat.pow 10 renderedPlaces = 10 ^ renderedPlaces := rfl
  rw [renderedValue, h]
  simp only [pow, Rat.mkRat_eq_div, withSignOf]
  split <;> push_cast <;> ring

/-- A rounded fraction is off by half a unit of the last place at most. -/
theorem abs_renderedValue_sub_le {q : ℚ} (h : exactPlaces? q.den = none) :
    |renderedValue q - q| ≤ 1 / 2 * (10 ^ renderedPlaces)⁻¹ := by
  have near := abs_roundedMagnitude_sub_le q.num.natAbs q.den_pos
  have ten : (0 : ℚ) < 10 ^ renderedPlaces := by positivity
  have scaled : (roundedMagnitude q.num.natAbs q.den / 10 ^ renderedPlaces : ℚ) - |q| =
      (roundedMagnitude q.num.natAbs q.den - q.num.natAbs * 10 ^ renderedPlaces / q.den) *
        (10 ^ renderedPlaces)⁻¹ := by
    rw [abs_eq_natAbs_div_den]
    field_simp
  rw [renderedValue_of_eq_none h, abs_withSignOf_sub, scaled, abs_mul, abs_of_pos (inv_pos.2 ten)]
  exact mul_le_mul_of_nonneg_right near (inv_pos.2 ten).le

/-- A fraction is rendered by the digits of some magnitude, scaled down by places. -/
theorem exists_magnitude (q : ℚ) : ∃ magnitude places : Nat,
    renderFraction q = renderScaled (q < 0) magnitude places ∧
      renderedValue q = withSignOf q (magnitude / 10 ^ places) ∧
      (exactPlaces? q.den = none → places = renderedPlaces) := by
  have pow (k : Nat) : Nat.pow 10 k = 10 ^ k := rfl
  unfold renderFraction
  cases h : exactPlaces? q.den with
  | none => exact ⟨_, renderedPlaces, rfl, renderedValue_of_eq_none h, fun _ => rfl⟩
  | some places =>
    refine ⟨_, places, rfl, ?_, nofun⟩
    have divides := (exactPlaces?_eq_some q.den_pos h places).2 (Nat.le_refl _)
    have den : (q.den : ℚ) ≠ 0 := by exact_mod_cast q.den_nz
    have magnitude :
        ((q.num.natAbs * Nat.pow 10 places / q.den : Nat) : ℚ) / 10 ^ places = |q| := by
      rw [pow, Nat.cast_div (Dvd.dvd.mul_left divides _) den, abs_eq_natAbs_div_den]
      push_cast
      field_simp
    rw [renderedValue_of_eq_some h, magnitude, withSignOf_abs]

end ValueAlgebra.Number
