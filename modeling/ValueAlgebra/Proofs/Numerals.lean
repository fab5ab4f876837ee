import Mathlib
import ValueAlgebra.Proofs.Rendering

/-!
# Numerals

A numeral has an optional sign, digits with an optional point among or around them, and an optional
exponent. `Number.parse` reads exactly the numerals and the spellings of the infinities. A numeral
whose exponent is near enough to zero is read as the fraction that it denotes, and one whose
exponent is too far from zero is refused for this reason alone.

There is one exponent that is not refused as it should be: the least signed word, whose distance
from zero is no signed word.

Main statements:

* `Number.parse_of_text`, `Number.parse_of_spelling`: what numerals and infinities are read as.
* `Number.exists_numeral`: what is not refused as malformed is a numeral or an infinity.
* `Number.parse_eq_iff_reads`: all outcomes of reading, with the texts that have them.
* `Number.parse_leastWord`: the exponent that is not refused as it should be.
-/

namespace ValueAlgebra.Number

/-! ## Numerals and what they denote -/

/-- A sign that may be left out. -/
inductive Sign where
  | none
  | plus
  | minus

namespace Sign

def text : Sign → List Char
  | .none => []
  | .plus => ['+']
  | .minus => ['-']

def negative : Sign → Bool
  | .minus => true
  | _ => false

/-- The number of a magnitude with a sign in front of it. -/
def signed {α : Type} [Neg α] (s : Sign) (magnitude : α) : α :=
  if s.negative then -magnitude else magnitude

end Sign

/-- The number that digits stand for. -/
def decimal (digits : List Char) : Nat :=
  Nat.ofDigits 10 (digits.reverse.map fun c => c.toNat - '0'.toNat)

/-- The exponent of a numeral. -/
structure Exponent where
  marker : Char
  sign : Sign
  digits : List Char
  isMarker : marker = 'e' ∨ marker = 'E'
  isDigits : ∀ c ∈ digits, c.isDigit = true
  nonempty : digits ≠ []

def Exponent.text (e : Exponent) : List Char :=
  e.marker :: (e.sign.text ++ e.digits)

def Exponent.value (e : Exponent) : Int :=
  e.sign.signed (decimal e.digits : Int)

/-- A number in decimal notation. There is a digit before or behind the point. -/
structure Numeral where
  sign : Sign
  whole : List Char
  fraction : Option (List Char)
  exponent : Option Exponent
  isDigits : ∀ c ∈ whole ++ fraction.getD [], c.isDigit = true
  nonempty : whole ++ fraction.getD [] ≠ []

namespace Numeral

/-- The digits behind the point. -/
def places (d : Numeral) : List Char :=
  d.fraction.getD []

/-- The digits with the point, if there is one. -/
def mantissa (d : Numeral) : List Char :=
  d.whole ++ (d.fraction.map ('.' :: ·)).getD []

/-- All but the sign. -/
def unsigned (d : Numeral) : List Char :=
  d.mantissa ++ (d.exponent.map Exponent.text).getD []

def text (d : Numeral) : List Char :=
  d.sign.text ++ d.unsigned

/-- The power of ten that the digits are multiplied with. -/
def power (d : Numeral) : Int :=
  (d.exponent.map Exponent.value).getD 0

/-- The fraction that a numeral denotes. -/
def value (d : Numeral) : ℚ :=
  d.sign.signed (decimal d.whole + decimal d.places / 10 ^ d.places.length : ℚ) * 10 ^ d.power

end Numeral

/-- The least signed word. -/
def leastWord : Int := -2 ^ 63

/-- What a numeral is read as. -/
def Numeral.reading (d : Numeral) (text : String) : Except ParseError Number :=
  if d.power = leastWord then .error .exponentOverflow
  else if |d.power| ≤ maxExponent then .ok (.finite d.value)
  else .error (.exponentOutOfRange text)

/-- A sign and a word for infinity, in any case. -/
def SpellsInfinity (sign : Sign) (cs : List Char) : Prop :=
  ∃ word, cs = sign.text ++ word ∧
    (word.map Char.toLower = "inf".toList ∨ word.map Char.toLower = "infinity".toList)

/-! ## Splitting texts -/

section

variable {sep : Char → Bool} {cs before after : List Char} {c : Char}

theorem splitAtFirst_append (hb : ∀ c ∈ before, sep c = false) (hc : sep c = true) :
    splitAtFirst sep (before ++ c :: after) = (before, some after) := by
  have all : ∀ c ∈ before, (!sep c) = true := fun c h => by rw [hb c h]; rfl
  have stop : (!sep c) = false := by rw [hc]; rfl
  have drop : (before ++ c :: after).dropWhile (fun c => !sep c) = c :: after := by
    rw [List.dropWhile_append_of_pos all, List.dropWhile_cons_of_neg (by simp [stop])]
  have take : (before ++ c :: after).takeWhile (fun c => !sep c) = before := by
    rw [List.takeWhile_append_of_pos all, List.takeWhile_cons_of_neg (by simp [stop]),
      List.append_nil]
  rw [splitAtFirst, drop, take]

/-- What a text is split into makes up the text again. -/
theorem eq_of_splitAtFirst {rest : Option (List Char)} (h : splitAtFirst sep cs = (before, rest)) :
    rest = none ∧ cs = before ∨ ∃ c after, rest = some after ∧ sep c = true ∧
      cs = before ++ c :: after := by
  unfold splitAtFirst at h
  split at h
  · cases h
    exact .inl ⟨rfl, rfl⟩
  · rename_i c after stop
    cases h
    refine .inr ⟨c, after, rfl, ?_, ?_⟩
    · have := List.head?_dropWhile_not (fun c => !sep c) cs
      rw [stop] at this
      simpa using this
    · rw [← stop, List.takeWhile_append_dropWhile]

/-- A sign is taken off a text that goes on with something else. -/
theorem takeSign_text (sign : Sign) (hp : cs.head? ≠ some '+') (hm : cs.head? ≠ some '-') :
    takeSign (sign.text ++ cs) = (sign.negative, cs) := by
  cases sign with
  | plus | minus => rfl
  | none =>
    rw [Sign.text, List.nil_append]
    unfold takeSign
    split
    · cases hm rfl
    · cases hp rfl
    · rfl

theorem eq_of_takeSign {negative : Bool} (h : takeSign cs = (negative, after)) :
    ∃ sign : Sign, sign.negative = negative ∧ cs = sign.text ++ after := by
  unfold takeSign at h
  split at h <;> cases h
  · exact ⟨.minus, rfl, rfl⟩
  · exact ⟨.plus, rfl, rfl⟩
  · exact ⟨.none, rfl, rfl⟩

end

/-! ## Digits -/

theorem ne_of_isDigit {c other : Char} (h : c.isDigit = true) (ho : other.isDigit = false) :
    c ≠ other := by
  rintro rfl
  rw [h] at ho
  cases ho

/-- No sign stands in front of digits. -/
theorem unsigned_of_isDigit {cs : List Char} (h : ∀ c ∈ cs, c.isDigit = true) :
    cs.head? ≠ some '+' ∧ cs.head? ≠ some '-' := by
  cases cs with
  | nil => exact ⟨nofun, nofun⟩
  | cons c cs =>
    have digit := h c List.mem_cons_self
    simp only [List.head?_cons, ne_eq, Option.some.injEq]
    exact ⟨ne_of_isDigit digit rfl, ne_of_isDigit digit rfl⟩

theorem decimal_append (as bs : List Char) :
    decimal (as ++ bs) = decimal as * 10 ^ bs.length + decimal bs := by
  simp only [decimal, List.reverse_append, List.map_append, Nat.ofDigits_append, List.length_map,
    List.length_reverse]
  ring

theorem digitsValue_eq (start : Nat) (cs : List Char) :
    digitsValue start cs = start * 10 ^ cs.length + decimal cs := by
  induction cs generalizing start with
  | nil => simp [digitsValue, decimal]
  | cons c cs ih =>
    have one : decimal [c] = c.toNat - '0'.toNat := by simp [decimal]
    rw [digitsValue, List.foldl_cons, ← digitsValue, ih, ← List.singleton_append, decimal_append,
      one, List.length_append, List.length_singleton, pow_add]
    ring

theorem scaled_eq (n scale : Int) : scaled n scale = (n : ℚ) * 10 ^ scale := by
  unfold scaled
  split
  · rename_i le
    obtain ⟨k, rfl⟩ := Int.eq_ofNat_of_zero_le le
    have pow : Int.pow 10 k = 10 ^ k := rfl
    rw [Int.toNat_natCast, pow, zpow_natCast]
    push_cast
    ring
  · rename_i lt
    obtain ⟨k, hk⟩ := Int.eq_ofNat_of_zero_le (show 0 ≤ -scale by omega)
    have pow : Nat.pow 10 k = 10 ^ k := rfl
    have scale_eq : scale = -(k : Int) := by omega
    rw [hk, Int.toNat_natCast, pow, scale_eq, zpow_neg, zpow_natCast, Rat.mkRat_eq_div]
    push_cast
    ring

/-! ## Reading numerals -/

namespace Exponent

theorem parseExponent_text (e : Exponent) (text : String) :
    parseExponent text (e.sign.text ++ e.digits) =
      if e.value = leastWord then .error .exponentOverflow
      else if |e.value| ≤ maxExponent then .ok e.value
      else .error (.exponentOutOfRange text) := by
  obtain ⟨hp, hm⟩ := unsigned_of_isDigit e.isDigits
  have all : e.digits.all Char.isDigit = true := List.all_eq_true.2 e.isDigits
  have some : e.digits.isEmpty = false := List.isEmpty_eq_false_iff.2 e.nonempty
  have magnitude : digitsValue 0 e.digits = decimal e.digits := by rw [digitsValue_eq]; simp
  have pow : ((Nat.pow 2 63 : Nat) : Int) = 2 ^ 63 := rfl
  rw [parseExponent, takeSign_text e.sign hp hm]
  simp only [some, all, Bool.not_true, Bool.or_self, Bool.false_eq_true, if_false, magnitude, value,
    Sign.signed, leastWord, pow]
  by_cases negative : e.sign.negative = true
  · simp [negative, abs_neg, neg_inj]
  · simp [negative]

end Exponent

namespace Numeral

variable (d : Numeral)

theorem isDigit_whole {c : Char} (h : c ∈ d.whole) : c.isDigit = true :=
  d.isDigits c (List.mem_append_left _ h)

theorem isDigit_places {c : Char} (h : c ∈ d.places) : c.isDigit = true :=
  d.isDigits c (List.mem_append_right _ h)

/-- A numeral goes on with a digit or a point behind its sign. -/
theorem exists_head : ∃ c cs, d.unsigned = c :: cs ∧ (c.isDigit = true ∨ c = '.') := by
  obtain ⟨sign, whole, fraction, exponent, isDigits, nonempty⟩ := d
  cases whole with
  | cons c whole => exact ⟨c, _, rfl, .inl (isDigits c (by simp))⟩
  | nil =>
    cases fraction with
    | none => cases nonempty rfl
    | some fraction => exact ⟨'.', _, rfl, .inr rfl⟩

theorem unsigned_head : d.unsigned.head? ≠ some '+' ∧ d.unsigned.head? ≠ some '-' := by
  obtain ⟨c, cs, eq, head⟩ := d.exists_head
  rw [eq]
  simp only [List.head?_cons, ne_eq, Option.some.injEq]
  rcases head with digit | rfl
  · exact ⟨ne_of_isDigit digit rfl, ne_of_isDigit digit rfl⟩
  · decide

theorem not_infinity : d.unsigned.map Char.toLower ≠ "inf".toList ∧
    d.unsigned.map Char.toLower ≠ "infinity".toList := by
  obtain ⟨c, cs, eq, head⟩ := d.exists_head
  have first : c.toLower ≠ 'i' := by
    rcases head with digit | rfl
    · have lower : c.toLower = c := by
        rw [Char.isDigit, Bool.and_eq_true, decide_eq_true_eq, decide_eq_true_eq] at digit
        rw [Char.toLower, dif_neg]
        rintro ⟨upper, -⟩
        exact absurd (UInt32.le_trans upper digit.2) (by decide)
      rw [lower]
      exact ne_of_isDigit digit rfl
    · decide
  rw [eq, List.map_cons]
  exact ⟨fun h => first (List.cons.inj h).1, fun h => first (List.cons.inj h).1⟩

theorem splitAtFirst_unsigned : splitAtFirst (fun c => c == 'e' || c == 'E') d.unsigned =
    (d.mantissa, d.exponent.map fun e => e.sign.text ++ e.digits) := by
  have none : ∀ c ∈ d.mantissa, (c == 'e' || c == 'E') = false := by
    intro c hc
    have plain : Plain c := by
      rcases List.mem_append.1 hc with hc | hc
      · exact .inl (d.isDigit_whole hc)
      · cases hf : d.fraction with
        | none => simp [hf] at hc
        | some fraction =>
          simp only [hf, Option.map_some, Option.getD_some, List.mem_cons] at hc
          rcases hc with rfl | hc
          · exact .inr (.inr rfl)
          · exact .inl (d.isDigit_places (by simpa [places, hf] using hc))
    exact plain.noExponent
  cases he : d.exponent with
  | none =>
    rw [unsigned, he, Option.map_none, Option.getD_none, List.append_nil]
    exact splitAtFirst_none none
  | some e =>
    rw [unsigned, he]
    refine splitAtFirst_append none ?_
    rcases e.isMarker with eq | eq <;> rw [eq] <;> rfl

theorem splitAtFirst_mantissa : splitAtFirst (· == '.') d.mantissa = (d.whole, d.fraction) := by
  have none : ∀ c ∈ d.whole, (c == '.') = false := fun c hc =>
    beq_eq_false_iff_ne.2 (ne_of_isDigit (d.isDigit_whole hc) rfl)
  unfold mantissa
  cases d.fraction with
  | none =>
    rw [Option.map_none, Option.getD_none, List.append_nil]
    exact splitAtFirst_none none
  | some fraction => exact splitAtFirst_append none rfl

/-- The digits without the point, scaled, make the fraction that is denoted. -/
theorem scaled_digits :
    scaled (if d.sign.negative then -(digitsValue 0 (d.whole ++ d.places) : Int)
      else digitsValue 0 (d.whole ++ d.places)) (d.power - d.places.length) = d.value := by
  have ten : (10 : ℚ) ≠ 0 := by norm_num
  rw [digitsValue_eq, zero_mul, zero_add, decimal_append, scaled_eq, value, Sign.signed,
    zpow_sub₀ ten, zpow_natCast]
  split <;> push_cast <;> field_simp

/-- A numeral is read as the fraction that it denotes, unless its exponent is too far from zero. -/
theorem parseUnsigned_unsigned (text : String) :
    parseUnsigned text d.sign.negative d.unsigned = d.reading text := by
  have all : (d.whole ++ d.places).all Char.isDigit = true := List.all_eq_true.2 d.isDigits
  have some : (d.whole ++ d.places).isEmpty = false := List.isEmpty_eq_false_iff.2 d.nonempty
  have places : d.fraction.getD [] = d.places := rfl
  have value := d.scaled_digits
  unfold parseUnsigned
  simp only [d.splitAtFirst_unsigned, d.splitAtFirst_mantissa, places, all, some, Bool.not_true,
    Bool.or_self, Bool.false_eq_true, if_false]
  cases he : d.exponent with
  | none =>
    have power : d.power = 0 := by rw [Numeral.power, he]; rfl
    rw [power] at value
    simp only [Option.map_none, pure_bind, value, reading, power]
    rfl
  | some e =>
    have power : d.power = e.value := by rw [Numeral.power, he]; rfl
    rw [power] at value
    simp only [Option.map_some, e.parseExponent_text, reading, power]
    split
    · rfl
    · split
      · exact congrArg (fun q => Except.ok (finite q)) value
      · rfl

end Numeral

/-- A numeral is read as the fraction that it denotes, unless its exponent is too far from zero. -/
theorem parse_of_text {s : String} {d : Numeral} (h : s.toList = d.text) :
    parse s = d.reading s := by
  obtain ⟨hp, hm⟩ := d.unsigned_head
  obtain ⟨c, cs, eq, -⟩ := d.exists_head
  have some : d.text.isEmpty = false := by
    rw [Numeral.text, eq]
    cases d.sign <;> rfl
  have finite := d.not_infinity
  have infinity : ¬(d.unsigned.map Char.toLower = ['i', 'n', 'f'] ∨
      d.unsigned.map Char.toLower = ['i', 'n', 'f', 'i', 'n', 'i', 't', 'y']) :=
    fun h => h.elim finite.1 finite.2
  rw [parse, h, some, if_neg Bool.false_ne_true, Numeral.text, takeSign_text d.sign hp hm]
  simp only [if_neg infinity]
  exact d.parseUnsigned_unsigned s

/-! ## Infinities -/

theorem parse_of_spelling {s : String} {sign : Sign} (h : SpellsInfinity sign s.toList) :
    parse s = .ok (infinity sign.negative) := by
  obtain ⟨word, eq, spells⟩ := h
  have first : word.head?.map Char.toLower = some 'i' := by
    rw [← List.head?_map]
    rcases spells with spells | spells <;> rw [spells] <;> rfl
  have unsigned {c : Char} (hc : c.toLower ≠ 'i') : word.head? ≠ some c := by
    intro head
    rw [head, Option.map_some, Option.some.injEq] at first
    exact hc first
  have some : (sign.text ++ word).isEmpty = false := by
    cases word with
    | nil => cases first
    | cons c word => cases sign <;> rfl
  rw [parse, eq, some, if_neg Bool.false_ne_true,
    takeSign_text sign (unsigned (by decide)) (unsigned (by decide))]
  exact if_pos spells

/-! ## What is no numeral -/

theorem exists_exponent {text : String} {cs : List Char} {marker : Char}
    (hm : marker = 'e' ∨ marker = 'E') (h : parseExponent text cs ≠ .error (.malformed text)) :
    ∃ e : Exponent, e.text = marker :: cs := by
  obtain ⟨negative, digits, taken⟩ : ∃ n d, takeSign cs = (n, d) := ⟨_, _, rfl⟩
  obtain ⟨sign, -, rfl⟩ := eq_of_takeSign taken
  rw [parseExponent, taken] at h
  simp only at h
  split at h
  · exact absurd rfl h
  · rename_i valid
    rw [Bool.or_eq_true, not_or, Bool.not_eq_true, Bool.not_eq_true, Bool.not_eq_false',
      List.isEmpty_eq_false_iff, List.all_eq_true] at valid
    exact ⟨⟨marker, sign, digits, hm, valid.2, valid.1⟩, rfl⟩

/-- What is read but for its exponent is a numeral. -/
theorem exists_unsigned {text : String} {negative : Bool} {cs : List Char} (sign : Sign)
    (h : parseUnsigned text negative cs ≠ .error (.malformed text)) :
    ∃ d : Numeral, d.sign = sign ∧ d.unsigned = cs := by
  obtain ⟨mantissa, rest, hs⟩ :
      ∃ m r, splitAtFirst (fun c => c == 'e' || c == 'E') cs = (m, r) := ⟨_, _, rfl⟩
  obtain ⟨whole, fraction, hp⟩ : ∃ w f, splitAtFirst (· == '.') mantissa = (w, f) := ⟨_, _, rfl⟩
  have point : mantissa = whole ++ (fraction.map ('.' :: ·)).getD [] := by
    obtain ⟨rfl, rfl⟩ | ⟨c, places, rfl, dot, rfl⟩ := eq_of_splitAtFirst hp
    · rw [Option.map_none, Option.getD_none, List.append_nil]
    · rw [beq_iff_eq.1 dot, Option.map_some, Option.getD_some]
  simp only [parseUnsigned, hs, hp] at h
  split at h
  · exact absurd rfl h
  rename_i digits
  rw [Bool.or_eq_true, not_or, Bool.not_eq_true, Bool.not_eq_true, Bool.not_eq_false',
    List.isEmpty_eq_false_iff, List.all_eq_true] at digits
  obtain ⟨rfl, rfl⟩ | ⟨marker, after, rfl, isMarker, rfl⟩ := eq_of_splitAtFirst hs
  · refine ⟨⟨sign, whole, fraction, none, digits.2, digits.1⟩, rfl, ?_⟩
    rw [point, Numeral.unsigned, Option.map_none, Option.getD_none, List.append_nil]
    rfl
  · rw [Bool.or_eq_true, beq_iff_eq, beq_iff_eq] at isMarker
    have read : parseExponent text after ≠ .error (.malformed text) := fun malformed =>
      h (by simp only [malformed]; rfl)
    obtain ⟨e, he⟩ := exists_exponent isMarker read
    refine ⟨⟨sign, whole, fraction, some e, digits.2, digits.1⟩, rfl, ?_⟩
    rw [point, Numeral.unsigned, Option.map_some, Option.getD_some, he]
    rfl

/-- What is not refused as malformed is a spelling of an infinity or a numeral. -/
theorem exists_numeral {s : String} (some : s ≠ "") (h : parse s ≠ .error (.malformed s)) :
    (∃ sign, SpellsInfinity sign s.toList) ∨ ∃ d : Numeral, s.toList = d.text := by
  obtain ⟨negative, unsigned, taken⟩ : ∃ n u, takeSign s.toList = (n, u) := ⟨_, _, rfl⟩
  obtain ⟨sign, -, eq⟩ := eq_of_takeSign taken
  have nonempty : s.toList.isEmpty = false := by
    rw [List.isEmpty_eq_false_iff]
    exact fun nil => some (String.toList_eq_nil_iff.1 nil)
  rw [parse, nonempty, if_neg Bool.false_ne_true, taken] at h
  simp only at h
  split at h
  · rename_i spells
    exact .inl ⟨sign, _, eq, spells⟩
  · obtain ⟨d, rfl, rfl⟩ := exists_unsigned sign h
    exact .inr ⟨d, eq⟩

/-! ## All outcomes -/

/-- What reading a text comes to. -/
inductive Reads (s : String) : Except ParseError Number → Prop where
  | empty : s = "" → Reads s (.error .empty)
  | infinity (sign : Sign) : SpellsInfinity sign s.toList → Reads s (.ok (infinity sign.negative))
  | finite (d : Numeral) : s.toList = d.text → |d.power| ≤ 10000 → Reads s (.ok (.finite d.value))
  | exponentOutOfRange (d : Numeral) : s.toList = d.text → 10000 < |d.power| →
      d.power ≠ leastWord → Reads s (.error (.exponentOutOfRange s))
  | exponentOverflow (d : Numeral) : s.toList = d.text → d.power = leastWord →
      Reads s (.error .exponentOverflow)
  | malformed : s ≠ "" → (∀ sign, ¬SpellsInfinity sign s.toList) →
      (∀ d : Numeral, s.toList ≠ d.text) → Reads s (.error (.malformed s))

variable {s : String}

theorem Reads.exists : ∃ r, Reads s r := by
  by_cases empty : s = ""
  · exact ⟨_, .empty empty⟩
  by_cases infinity : ∃ sign, SpellsInfinity sign s.toList
  · obtain ⟨sign, spells⟩ := infinity
    exact ⟨_, .infinity sign spells⟩
  by_cases numeral : ∃ d : Numeral, s.toList = d.text
  · obtain ⟨d, text⟩ := numeral
    by_cases range : |d.power| ≤ 10000
    · exact ⟨_, .finite d text range⟩
    by_cases least : d.power = leastWord
    · exact ⟨_, .exponentOverflow d text least⟩
    · exact ⟨_, .exponentOutOfRange d text (not_le.1 range) least⟩
  · exact ⟨_, .malformed empty (not_exists.1 infinity) (not_exists.1 numeral)⟩

theorem Reads.parse_eq {r : Except ParseError Number} (h : Reads s r) : parse s = r := by
  cases h with
  | empty empty =>
    subst empty
    rfl
  | infinity sign spells => exact parse_of_spelling spells
  | finite d text range =>
    have apart : d.power ≠ leastWord := by
      rintro least
      rw [least] at range
      exact absurd range (by decide)
    rw [parse_of_text text, Numeral.reading, if_neg apart, maxExponent, if_pos range]
  | exponentOutOfRange d text range apart =>
    rw [parse_of_text text, Numeral.reading, if_neg apart, maxExponent, if_neg (not_le.2 range)]
  | exponentOverflow d text least => rw [parse_of_text text, Numeral.reading, if_pos least]
  | malformed some infinity numeral =>
    by_contra other
    rcases exists_numeral some other with ⟨sign, spells⟩ | ⟨d, text⟩
    · exact infinity sign spells
    · exact numeral d text

/-- Reading always comes to an end, with the outcome of which the text is the kind. -/
theorem parse_eq_iff_reads (s : String) (r : Except ParseError Number) :
    parse s = r ↔ Reads s r := by
  refine ⟨fun h => ?_, Reads.parse_eq⟩
  obtain ⟨r', reads⟩ := Reads.exists (s := s)
  rwa [← h, reads.parse_eq]

/-- The least signed word as an exponent is not refused for being out of range, as its neighbours
are. -/
theorem parse_leastWord :
    parse "1e-9223372036854775808" = .error .exponentOverflow ∧
    parse "1e-9223372036854775807" = .error (.exponentOutOfRange "1e-9223372036854775807") ∧
    parse "1e-9223372036854775809" = .error (.exponentOutOfRange "1e-9223372036854775809") := by
  decide +kernel

end ValueAlgebra.Number
