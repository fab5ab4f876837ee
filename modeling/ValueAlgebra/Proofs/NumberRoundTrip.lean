import Mathlib
import ValueAlgebra.Proofs.MarkRoundTrip
import ValueAlgebra.Proofs.Numerals
import ValueAlgebra.Proofs.Places
import ValueAlgebra.Proofs.Rendering
import ValueAlgebra.Proofs.RunParts

/-!
# Numbers as text and back

What `Number.render` writes is a numeral (`Number.written`) whose value is that of its digits, so it
is read as `Number.renderedValue`: as the number that it was, if finitely many digits write it, and
as a number nearby otherwise. Rendered digits hang on the value alone, so a number that has been
read from rendered digits is rendered as they were.

Main statements:

* `Number.text_written`, `Number.value_written`: the numeral that is rendered, and its value.
* `Number.renderScaled_congr`: digits of equal value are rendered in the same way.
* `Number.renderFraction_renderedValue`: what is read from rendered digits is rendered as they were.
* `Value.convert_primitive`: how a primitive value is converted.
* `Number.render_round_trip`: reading and converting a rendered number.
-/

namespace ValueAlgebra.Number

/-! ## Digits -/

theorem decimal_toDigits (n : Nat) : decimal (Nat.toDigits 10 n) = n := by
  have read : digitsValue 0 (Nat.toDigits 10 n) = n := Nat.ofDigitChars_ten_toDigits
  rwa [digitsValue_eq, Nat.zero_mul, Nat.zero_add] at read

theorem decimal_zeros (k : Nat) : decimal (List.replicate k '0') = 0 := by
  simp [decimal]

theorem toDigits_mul_ten {n : Nat} (h : 0 < n) :
    Nat.toDigits 10 (n * 10) = Nat.toDigits 10 n ++ ['0'] := by
  have append := Nat.toDigits_append_toDigits (show 1 < 10 by decide) h (show 0 < 10 by decide)
  rw [Nat.mul_comm, ← Nat.add_zero (10 * n), ← append]
  rfl

/-! ## The digits of a rendered fraction -/

/-- The digits of a magnitude, with zeros in front of them where there are no more of them than
places. -/
def padded (magnitude places : Nat) : List Char :=
  List.replicate (places + 1 - (Nat.toDigits 10 magnitude).length) '0' ++ Nat.toDigits 10 magnitude

/-- The digits before the point. -/
def wholeDigits (magnitude places : Nat) : List Char :=
  (padded magnitude places).take ((padded magnitude places).length - places)

/-- The digits behind the point. -/
def placeDigits (magnitude places : Nat) : List Char :=
  (padded magnitude places).drop ((padded magnitude places).length - places)

/-- The digits behind the point up to the last one that is not zero. -/
def trimmedDigits (magnitude places : Nat) : List Char :=
  (placeDigits magnitude places).rdropWhile (· == '0')

section

variable (negative : Bool) (magnitude places : Nat)

theorem renderScaled_eq : renderScaled negative magnitude places =
    String.ofList ((if negative && magnitude != 0 then ['-'] else []) ++
      wholeDigits magnitude places ++
      (if (trimmedDigits magnitude places).isEmpty then [] else ['.']) ++
      trimmedDigits magnitude places) := by
  have empty (cs : List Char) : cs.reverse.isEmpty = cs.isEmpty := List.isEmpty_reverse
  rw [trimmedDigits, List.rdropWhile, empty]
  rfl

theorem places_lt_length_padded : places < (padded magnitude places).length := by
  rw [padded, List.length_append, List.length_replicate]
  omega

theorem decimal_padded : decimal (padded magnitude places) = magnitude := by
  rw [padded, decimal_append, decimal_zeros, decimal_toDigits]
  omega

theorem isDigit_padded {c : Char} (h : c ∈ padded magnitude places) : c.isDigit = true := by
  rcases List.mem_append.1 h with h | h
  · rw [List.eq_of_mem_replicate h]
    rfl
  · exact Nat.isDigit_of_mem_toDigits (by decide) (by decide) h

theorem length_placeDigits : (placeDigits magnitude places).length = places := by
  have := places_lt_length_padded magnitude places
  rw [placeDigits, List.length_drop]
  omega

theorem wholeDigits_ne_nil : wholeDigits magnitude places ≠ [] := by
  have := places_lt_length_padded magnitude places
  rw [← List.length_pos_iff, wholeDigits, List.length_take]
  omega

theorem trimmedDigits_sublist :
    (trimmedDigits magnitude places).Sublist (placeDigits magnitude places) :=
  (List.rdropWhile_prefix _ _).sublist

/-- Zeros that are left out at the end do not change what digits behind the point stand for. -/
theorem decimal_trimmedDigits :
    (decimal (trimmedDigits magnitude places) : ℚ) / 10 ^ (trimmedDigits magnitude places).length =
      decimal (placeDigits magnitude places) / 10 ^ places := by
  set zeros := (placeDigits magnitude places).rtakeWhile (· == '0') with hz
  have split : trimmedDigits magnitude places ++ zeros = placeDigits magnitude places :=
    List.rdropWhile_append_rtakeWhile
  have only : zeros = List.replicate zeros.length '0' := by
    refine List.eq_replicate_iff.2 ⟨rfl, fun c hc => ?_⟩
    have zero := List.mem_rtakeWhile_imp (p := (· == '0')) (hz ▸ hc)
    exact beq_iff_eq.1 zero
  have length : (trimmedDigits magnitude places).length + zeros.length = places := by
    rw [← List.length_append, split, length_placeDigits]
  have value : decimal (placeDigits magnitude places) =
      decimal (trimmedDigits magnitude places) * 10 ^ zeros.length := by
    rw [← split, decimal_append, only, decimal_zeros, List.length_replicate, Nat.add_zero]
  have power : (10 : ℚ) ^ places =
      10 ^ (trimmedDigits magnitude places).length * 10 ^ zeros.length := by
    rw [← pow_add, length]
  rw [value, power]
  push_cast
  field_simp

theorem decimal_digits :
    (decimal (wholeDigits magnitude places) + decimal (placeDigits magnitude places) / 10 ^ places
      : ℚ) = magnitude / 10 ^ places := by
  have whole : decimal (wholeDigits magnitude places) * 10 ^ places +
      decimal (placeDigits magnitude places) = magnitude := by
    conv_rhs => rw [← decimal_padded magnitude places,
      ← List.take_append_drop ((padded magnitude places).length - places) (padded magnitude places)]
    rw [decimal_append, ← placeDigits, ← wholeDigits, length_placeDigits]
  have cast : (magnitude : ℚ) = decimal (wholeDigits magnitude places) * 10 ^ places +
      decimal (placeDigits magnitude places) := by
    exact_mod_cast whole.symm
  rw [cast]
  field_simp

/-! ## The numeral that is rendered -/

/-- The numeral of a scaled magnitude. -/
def written : Numeral where
  sign := if negative && magnitude != 0 then .minus else .none
  whole := wholeDigits magnitude places
  fraction := if (trimmedDigits magnitude places).isEmpty then none
    else some (trimmedDigits magnitude places)
  exponent := none
  isDigits c hc := by
    refine isDigit_padded magnitude places ?_
    rcases List.mem_append.1 hc with hc | hc
    · exact List.mem_of_mem_take hc
    · split at hc
      · cases hc
      · exact List.mem_of_mem_drop ((trimmedDigits_sublist magnitude places).subset hc)
  nonempty h := wholeDigits_ne_nil magnitude places (List.append_eq_nil_iff.1 h).1

theorem fraction_written : (written negative magnitude places).fraction =
    if (trimmedDigits magnitude places).isEmpty then none
    else some (trimmedDigits magnitude places) :=
  rfl

theorem places_written :
    (written negative magnitude places).places = trimmedDigits magnitude places := by
  rw [Numeral.places, fraction_written]
  split
  · rename_i none
    rw [List.isEmpty_iff.1 none]
    rfl
  · rfl

/-- The numeral is what is rendered. -/
theorem text_written :
    (renderScaled negative magnitude places).toList = (written negative magnitude places).text := by
  have sign : (written negative magnitude places).sign.text =
      if negative && magnitude != 0 then ['-'] else [] := by
    unfold written
    split <;> rfl
  have point : ((written negative magnitude places).fraction.map ('.' :: ·)).getD [] =
      (if (trimmedDigits magnitude places).isEmpty then [] else ['.']) ++
        trimmedDigits magnitude places := by
    rw [fraction_written]
    split
    · rename_i none
      rw [List.isEmpty_iff.1 none]
      rfl
    · rfl
  have unsigned : (written negative magnitude places).unsigned =
      (written negative magnitude places).mantissa := List.append_nil _
  rw [renderScaled_eq, String.toList_ofList, Numeral.text, unsigned, Numeral.mantissa, sign, point,
    List.append_assoc, List.append_assoc]
  rfl

/-- The numeral stands for the scaled magnitude with its sign. -/
theorem value_written : (written negative magnitude places).value =
    if negative then -(magnitude / 10 ^ places : ℚ) else magnitude / 10 ^ places := by
  have power : (written negative magnitude places).power = 0 := rfl
  have whole : (written negative magnitude places).whole = wholeDigits magnitude places := rfl
  have sign : (written negative magnitude places).sign.negative =
      (negative && magnitude != 0) := by
    unfold written
    split <;> rename_i h <;> simp_all [Sign.negative]
  rw [Numeral.value, power, zpow_zero, mul_one, places_written, decimal_trimmedDigits, whole,
    decimal_digits, Sign.signed, sign]
  -- A zero has lost its sign, which makes no difference to its value.
  by_cases zero : magnitude = 0 <;> simp [zero]

/-- The digits are read as the scaled magnitude with its sign. -/
theorem parse_renderScaled : parse (renderScaled negative magnitude places) = .ok (.finite
    (if negative then -(magnitude / 10 ^ places : ℚ) else magnitude / 10 ^ places)) := by
  have power : (written negative magnitude places).power = 0 := rfl
  rw [parse_of_text (text_written negative magnitude places), Numeral.reading, power,
    if_neg (by decide), if_pos (by decide), value_written]

/-! ## Behind the point -/

theorem snd_splitAtFirst_cons {sep : Char → Bool} {c : Char} {cs : List Char} (h : sep c = false) :
    (splitAtFirst sep (c :: cs)).2 = (splitAtFirst sep cs).2 := by
  have skip : (c :: cs).dropWhile (fun c => !sep c) = cs.dropWhile (fun c => !sep c) :=
    List.dropWhile_cons_of_pos (by simp [h])
  rw [splitAtFirst, splitAtFirst, skip]
  split <;> rfl

/-- The characters behind the point of a text. -/
def behindPoint (text : String) : List Char :=
  (splitAtFirst (· == '.') text.toList).2.getD []

theorem behindPoint_renderScaled :
    behindPoint (renderScaled negative magnitude places) = trimmedDigits magnitude places := by
  have mantissa : (written negative magnitude places).unsigned =
      (written negative magnitude places).mantissa := List.append_nil _
  have split := (written negative magnitude places).splitAtFirst_mantissa
  have signed : (splitAtFirst (· == '.') ((written negative magnitude places).sign.text ++
      (written negative magnitude places).mantissa)).2 =
        (written negative magnitude places).fraction := by
    cases (written negative magnitude places).sign with
    | none => exact congrArg Prod.snd split
    | plus | minus => exact (snd_splitAtFirst_cons rfl).trans (congrArg Prod.snd split)
  rw [behindPoint, text_written, Numeral.text, mantissa, signed]
  exact places_written negative magnitude places

theorem getLast?_trimmedDigits : (trimmedDigits magnitude places).getLast? ≠ some '0' := by
  intro zero
  obtain ⟨some, last⟩ := List.mem_getLast?_eq_getLast (Option.mem_def.2 zero)
  exact List.rdropWhile_last_not (· == '0') _ some (beq_iff_eq.2 last.symm)

theorem length_trimmedDigits_le : (trimmedDigits magnitude places).length ≤ places :=
  (trimmedDigits_sublist magnitude places).length_le.trans (length_placeDigits ..).le

end

/-! ## Rendering hangs on the value alone -/

section

variable (magnitude places : Nat)

theorem padded_mul_ten :
    padded (magnitude * 10) (places + 1) = padded magnitude places ++ ['0'] := by
  rcases Nat.eq_zero_or_pos magnitude with rfl | positive
  · exact congrArg (· ++ ['0']) List.replicate_succ'
  · have places : places + 1 + 1 - ((Nat.toDigits 10 magnitude).length + 1) =
        places + 1 - (Nat.toDigits 10 magnitude).length := by omega
    rw [padded, padded, toDigits_mul_ten positive, List.length_append, List.length_singleton,
      places, List.append_assoc]

theorem wholeDigits_mul_ten :
    wholeDigits (magnitude * 10) (places + 1) = wholeDigits magnitude places := by
  rw [wholeDigits, padded_mul_ten, List.length_append, List.length_singleton,
    Nat.add_sub_add_right, List.take_append_of_le_length (Nat.sub_le ..), ← wholeDigits]

theorem trimmedDigits_mul_ten :
    trimmedDigits (magnitude * 10) (places + 1) = trimmedDigits magnitude places := by
  have append :
      placeDigits (magnitude * 10) (places + 1) = placeDigits magnitude places ++ ['0'] := by
    rw [placeDigits, padded_mul_ten, List.length_append, List.length_singleton,
      Nat.add_sub_add_right, List.drop_append_of_le_length (Nat.sub_le ..), ← placeDigits]
  rw [trimmedDigits, append, List.rdropWhile_concat_pos _ _ _ rfl, ← trimmedDigits]

variable (negative : Bool)

/-- A zero more at the end makes no difference. -/
theorem renderScaled_mul_ten : renderScaled negative (magnitude * 10) (places + 1) =
    renderScaled negative magnitude places := by
  have zero : (magnitude * 10 != 0) = (magnitude != 0) := by
    rw [Bool.eq_iff_iff, bne_iff_ne, bne_iff_ne]
    omega
  rw [renderScaled_eq, renderScaled_eq, wholeDigits_mul_ten, trimmedDigits_mul_ten, zero]

theorem renderScaled_mul_pow (more : Nat) :
    renderScaled negative (magnitude * 10 ^ more) (places + more) =
      renderScaled negative magnitude places := by
  induction more with
  | zero => rw [pow_zero, Nat.mul_one, Nat.add_zero]
  | succ more ih => rw [pow_succ, ← Nat.mul_assoc, ← Nat.add_assoc, renderScaled_mul_ten, ih]

end

section

variable {m n p r : Nat}

theorem renderScaled_congr (negative : Bool) (h : (m / 10 ^ p : ℚ) = n / 10 ^ r) :
    renderScaled negative m p = renderScaled negative n r := by
  have scaled {m n p r : Nat} (less : p ≤ r) (h : (m / 10 ^ p : ℚ) = n / 10 ^ r) :
      renderScaled negative m p = renderScaled negative n r := by
    have eq : n = m * 10 ^ (r - p) := by
      have power : (10 : ℚ) ^ r = 10 ^ p * 10 ^ (r - p) := by
        rw [← pow_add, Nat.add_sub_cancel' less]
      rw [power] at h
      field_simp at h
      exact_mod_cast h.symm
    rw [eq, ← renderScaled_mul_pow m p, Nat.add_sub_cancel' less]
  rcases Nat.le_total p r with less | less
  · exact scaled less h
  · exact (scaled less h.symm).symm

/-- Zero has no sign. -/
theorem renderScaled_zero (negative : Bool) (p : Nat) :
    renderScaled negative 0 p = renderScaled false 0 p := by
  simp [renderScaled]

theorem ne_zero_of_minus {negative : Bool}
    (h : (renderScaled negative m p).toList.head? = some '-') : m ≠ 0 := by
  rintro rfl
  have unsigned : (written false 0 p).text = (written false 0 p).unsigned := rfl
  rw [renderScaled_zero, text_written, unsigned] at h
  exact (written false 0 p).unsigned_head.2 h

end

/-! ## Fractions -/

theorem parse_renderFraction (q : ℚ) :
    parse (renderFraction q) = .ok (.finite (renderedValue q)) := by
  obtain ⟨magnitude, places, text, value, -⟩ := exists_magnitude q
  rw [text, value, parse_renderScaled, withSignOf]
  simp only [decide_eq_true_eq]

/-- What has been read from rendered digits has finitely many of them. -/
theorem renderedValue_renderedValue (q : ℚ) :
    renderedValue (renderedValue q) = renderedValue q := by
  cases h : exactPlaces? q.den with
  | some places => rw [renderedValue_of_eq_some h, renderedValue_of_eq_some h]
  | none =>
    have divides : (renderedValue q).den ∣ 10 ^ renderedPlaces := by
      rw [renderedValue_of_eq_none h]
      exact den_withSignOf_dvd ..
    obtain ⟨places, some⟩ := (exists_exactPlaces_iff (renderedValue q).den_pos).2
      fun p prime part => eq_of_dvd_pow_ten prime (part.trans divides)
    exact renderedValue_of_eq_some some

/-- What is read from rendered digits is rendered again as it was. -/
theorem renderFraction_renderedValue (q : ℚ) :
    renderFraction (renderedValue q) = renderFraction q := by
  obtain ⟨m, p, text, value, -⟩ := exists_magnitude q
  obtain ⟨n, r, text', value', -⟩ := exists_magnitude (renderedValue q)
  -- Both are the distance from zero of what is read, so that only the signs are left to compare.
  have same : (m / 10 ^ p : ℚ) = n / 10 ^ r := by
    have positive (m p : Nat) : (0 : ℚ) ≤ m / 10 ^ p := by positivity
    rw [renderedValue_renderedValue] at value'
    rw [← abs_withSignOf q (positive m p), ← value, value', abs_withSignOf _ (positive n r)]
  rw [text', text, ← renderScaled_congr _ same]
  rcases Nat.eq_zero_or_pos m with rfl | positive
  · rw [renderScaled_zero, renderScaled_zero (q < 0)]
  · have sign : renderedValue q < 0 ↔ q < 0 := by
      rw [value]
      exact withSignOf_neg_iff q (by positivity)
    rw [decide_eq_decide.2 sign]

/-! ## Numbers -/

/-- Numbers that are written exactly: the infinite ones, and fractions in lowest terms whose
denominator has no prime factors but two and five. -/
def Terminating : Number → Prop
  | .finite q => ∀ p : Nat, p.Prime → p ∣ q.den → p = 2 ∨ p = 5
  | _ => True

theorem parse_render {n : Number} (h : n.Terminating) : parse n.render = .ok n := by
  cases n with
  | negInf =>
    have minus : SpellsInfinity .minus "-Inf".toList := ⟨"Inf".toList, rfl, .inl (by decide)⟩
    exact parse_of_spelling minus
  | posInf =>
    have plus : SpellsInfinity .plus "+Inf".toList := ⟨"Inf".toList, rfl, .inl (by decide)⟩
    exact parse_of_spelling plus
  | finite q =>
    obtain ⟨places, some⟩ := (exists_exactPlaces_iff q.den_pos).2 h
    rw [render, parse_renderFraction, renderedValue_of_eq_some some]

/-- A number that is not written exactly is a fraction, which is read as one nearby. -/
theorem exists_nearby {n : Number} (h : ¬n.Terminating) : ∃ q r : ℚ, n = .finite q ∧
    parse n.render = .ok (.finite r) ∧ |r - q| ≤ 1 / 2 * (10 ^ 32)⁻¹ ∧
      (behindPoint n.render).length ≤ 32 ∧ (Number.finite r).render = n.render := by
  cases n with
  | negInf | posInf => exact absurd trivial h
  | finite q =>
    have none : exactPlaces? q.den = none := by
      by_contra some
      exact h ((exists_exactPlaces_iff q.den_pos).1 (Option.ne_none_iff_exists'.1 some))
    refine ⟨q, renderedValue q, rfl, parse_renderFraction q, abs_renderedValue_sub_le none, ?_,
      renderFraction_renderedValue q⟩
    obtain ⟨magnitude, places, text, -, rounded⟩ := exists_magnitude q
    rw [render, text, behindPoint_renderScaled, rounded none]
    exact length_trimmedDigits_le ..

/-- No zero ends the digits behind the point. -/
theorem getLast?_behindPoint_render (n : Number) : (behindPoint n.render).getLast? ≠ some '0' := by
  cases n with
  | negInf | posInf => decide
  | finite q =>
    obtain ⟨magnitude, places, text, -, -⟩ := exists_magnitude q
    rw [render, text, behindPoint_renderScaled]
    exact getLast?_trimmedDigits magnitude places

/-- Where there is a minus, there is no zero. -/
theorem parse_render_ne_zero {n : Number} (h : n.render.toList.head? = some '-') :
    parse n.render ≠ .ok (.finite 0) := by
  cases n with
  | negInf =>
    rw [parse_render (n := .negInf) trivial]
    exact nofun
  | posInf => exact absurd h (by decide)
  | finite q =>
    obtain ⟨magnitude, places, text, value, -⟩ := exists_magnitude q
    rw [render, text] at h
    have positive : (0 : ℚ) < magnitude / 10 ^ places := by
      have := Nat.pos_of_ne_zero (ne_zero_of_minus h)
      positivity
    intro zero
    rw [render, parse_renderFraction, Except.ok.injEq, finite.injEq, value] at zero
    have := abs_withSignOf q positive.le
    rw [zero, abs_zero] at this
    exact positive.ne this

end ValueAlgebra.Number

namespace ValueAlgebra

/-! ## Conversions -/

section

variable [Host] {v : Value} {s t : Ty}

omit [Host] in
theorem PrimitiveRule.types_of_between? {mode : Mode} {rule : PrimitiveRule}
    (h : between? mode s t = some rule) : s = .number ∧ t = .string ∨ s = .bool ∧ t = .string ∨
      s = .string ∧ t = .number ∨ s = .string ∧ t = .bool := by
  unfold between? at h
  split at h
  · exact .inl ⟨rfl, rfl⟩
  · exact .inr (.inl ⟨rfl, rfl⟩)
  · exact .inr (.inr (.inl ⟨rfl, rfl⟩))
  · exact .inr (.inr (.inr ⟨rfl, rfl⟩))
  · cases h

theorem Conversion.plan?_primitive {mode : Mode} {rule : PrimitiveRule}
    (h : PrimitiveRule.between? mode s t = some rule) :
    plan? mode s t = some (.toward t (.primitive rule)) := by
  obtain ⟨rfl, rfl⟩ | ⟨rfl, rfl⟩ | ⟨rfl, rfl⟩ | ⟨rfl, rfl⟩ := PrimitiveRule.types_of_between? h <;>
  · rw [plan?, Rule.between?.eq_def]
    simp [h]

/-- A primitive value is converted as its rule says, and keeps its marks. -/
theorem Value.convert_primitive {rule : PrimitiveRule}
    (h : PrimitiveRule.between? .lenient v.ty t = some rule) (known : v.isKnown = true)
    (value : v.isNull = false) (site : List Nat) :
    v.convert t site = (rule.apply v.unmark .root).map fun w => w.withMarks v.marks := by
  have types := PrimitiveRule.types_of_between? h
  have other : v.ty ≠ t := by
    intro same
    rw [same] at types
    obtain ⟨rfl, h⟩ | ⟨rfl, h⟩ | ⟨rfl, h⟩ | ⟨rfl, h⟩ := types <;> cases h
  have static : t ≠ .dynamic := by
    rintro rfl
    obtain ⟨-, h⟩ | ⟨-, h⟩ | ⟨-, h⟩ | ⟨-, h⟩ := types <;> cases h
  rw [convert, if_neg other, Conversion.plan?_primitive h]
  change Conversion.run _ _ _ _ = _
  rw [Conversion.run_eq, Conversion.runWith_decided static known value]
  rfl

end

/-- Marks go along with a number that becomes a string. -/
theorem Value.convert_number [Host] (n : Number) (marks : MarkSet) (site : List Nat) :
    ((Value.number n).withMarks marks).convert .string site =
      .ok ((Value.string n.render).withMarks marks) := by
  have rule : PrimitiveRule.numberToString.apply (.number n) .root = .ok (.string n.render) := rfl
  have none : ((Value.number n).withMarks marks).marks = marks := MarkSet.empty_union marks
  rw [convert_primitive (v := (Value.number n).withMarks marks) (t := .string) rfl rfl rfl, none]
  exact congrArg _ rule

theorem Value.convert_render [Host] {n : Number} (h : n.Terminating) (marks : MarkSet)
    (site : List Nat) : ((Value.string n.render).withMarks marks).convert .number site =
      .ok ((Value.number n).withMarks marks) := by
  have rule : PrimitiveRule.stringToNumber.apply (.string n.render) .root = .ok (.number n) := by
    change numberOfText (Text.normalize n.render) .root = _
    rw [Number.normalize_render, numberOfText, Value.parseNumber, Number.parse_render h]
    rfl
  have none : ((Value.string n.render).withMarks marks).marks = marks := MarkSet.empty_union marks
  rw [convert_primitive (v := (Value.string n.render).withMarks marks) (t := .number) rfl rfl rfl,
    none]
  exact congrArg _ rule

/-- Numbers that are written exactly come back from their text, as numbers and through conversions.
Any other number comes back as one that is half a unit of the last of 32 digits away at most, and
that has the same text. No zero ends a fraction, and zero has no sign. -/
theorem Number.render_round_trip [Host] (n : Number) :
    (n.Terminating → parse n.render = .ok n ∧
      ∀ (marks : MarkSet) (site site' : List Nat),
        (((Value.number n).withMarks marks).convert .string site).bind
          (fun text => text.convert .number site') = .ok ((Value.number n).withMarks marks)) ∧
    (¬n.Terminating → ∃ q r : ℚ, n = .finite q ∧ parse n.render = .ok (.finite r) ∧
      |r - q| ≤ 1 / 2 * (10 ^ 32)⁻¹ ∧ (behindPoint n.render).length ≤ 32 ∧
        (Number.finite r).render = n.render) ∧
    (behindPoint n.render).getLast? ≠ some '0' ∧
    (n.render.toList.head? = some '-' → parse n.render ≠ .ok (.finite 0)) := by
  refine ⟨fun h => ⟨parse_render h, fun marks site site' => ?_⟩, exists_nearby,
    getLast?_behindPoint_render n, parse_render_ne_zero⟩
  rw [Value.convert_number]
  exact Value.convert_render h marks site'

end ValueAlgebra
