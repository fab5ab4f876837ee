import ValueAlgebra.Number.Decimal

/-!
# Binary floating point numbers

A number of the 64-bit binary format is given by its bits. `Binary64.nearest` rounds a fraction to
the format, and `Binary64.shortest` finds the fewest decimal digits that round back. A number is
made from the format through these digits, so that the number nearest to one tenth becomes one
tenth.
-/

namespace ValueAlgebra

/-- A number of the 64-bit binary floating point format. -/
structure Binary64 where
  bits : UInt64
deriving DecidableEq, Repr

namespace Binary64

def isNegative (x : Binary64) : Bool :=
  x.bits ≥ 0x8000000000000000

/-- The bits without the sign. They grow with the distance from zero. -/
def magnitudeBits (x : Binary64) : Nat :=
  (x.bits &&& 0x7FFFFFFFFFFFFFFF).toNat

/-- The magnitude bits of the infinities. Those of texts that are no number lie above. -/
def infinityBits : Nat := 0x7FF0000000000000

/-- The floating point number of a sign and magnitude bits. -/
def ofMagnitude (negative : Bool) (magnitude : Nat) : Binary64 :=
  ⟨UInt64.ofNat (if negative then 0x8000000000000000 + magnitude else magnitude)⟩

/-! ## Rounding to the format -/

/-- The whole number nearest to a quotient. A half goes to the even neighbour. -/
def roundHalfEven (num den : Nat) : Nat :=
  let floor := num / den
  let rest := 2 * (num % den)
  if rest < den then floor
  else if den < rest then floor + 1
  else floor + floor % 2

/-- The quotient `num / (den * 2 ^ e)` as a numerator and a denominator. -/
def scaleByTwo (num den : Nat) (e : Int) : Nat × Nat :=
  if 0 ≤ e then (num, den * Nat.pow 2 e.toNat) else (num * Nat.pow 2 (-e).toNat, den)

/-- The exponent of two that leaves 53 binary digits before the point of a positive quotient, but
not below that of the least positive floating point number. -/
def unitExponent (num den : Nat) : Int :=
  let e : Int := (num.log2 : Int) - den.log2
  let (a, b) := scaleByTwo num den e
  let first := if a < b then e - 1 else e
  max (-1074) (first - 52)

/-- The magnitude bits nearest to a quotient. -/
def nearestMagnitude (num den : Nat) : Nat :=
  if num = 0 then 0
  else
    let e := unitExponent num den
    let (a, b) := scaleByTwo num den e
    min infinityBits ((e + 1074).toNat * Nat.pow 2 52 + roundHalfEven a b)

/-- The floating point number nearest to a fraction. -/
def nearest (q : Rat) : Binary64 :=
  ofMagnitude (q < 0) (nearestMagnitude q.num.natAbs q.den)

/-! ## Values and arithmetic -/

/-- Whether a floating point number stands for a fraction. -/
def isFinite (x : Binary64) : Bool :=
  x.magnitudeBits < infinityBits

/-- A finite magnitude as `mantissa * 2 ^ exponent`. -/
def decode (magnitude : Nat) : Nat × Int :=
  let field : Nat := magnitude / Nat.pow 2 52
  let fraction : Nat := magnitude % Nat.pow 2 52
  if field = 0 then (fraction, -1074) else (Nat.pow 2 52 + fraction, (field : Int) - 1075)

/-- The fraction that a finite floating point number stands for. -/
def value (x : Binary64) : Rat :=
  let (mantissa, exponent) := decode x.magnitudeBits
  let (num, den) := scaleByTwo mantissa 1 (-exponent)
  mkRat (if x.isNegative then -num else num) den

/-- The product of two finite floating point numbers, rounded to the format. -/
def times (x y : Binary64) : Binary64 :=
  .nearest (x.value * y.value)

/-- The quotient of two finite floating point numbers, rounded to the format. -/
def dividedBy (x y : Binary64) : Binary64 :=
  .nearest (x.value / y.value)

/-! ## The shortest decimal digits -/

/-- The exponent of ten of the first digit of a positive quotient. -/
def firstDigitExponent (num den : Nat) : Int :=
  if den ≤ num then ((Nat.toDigits 10 (num / den)).length : Int) - 1
  else
    let inverse := (num + den - 1) / num
    Int.negOfNat (Nat.toDigits 10 (inverse - 1)).length

/-- The quotient `num / (den * 10 ^ k)` as a numerator and a denominator. -/
def scaleByTen (num den : Nat) (k : Int) : Nat × Nat :=
  if 0 ≤ k then (num, den * Nat.pow 10 k.toNat) else (num * Nat.pow 10 (-k).toNat, den)

/-- Which of two equally near decimals is chosen. -/
inductive Tie where
  /-- The greater one. -/
  | up
  /-- The one with an even last digit. -/
  | toEven
deriving DecidableEq, Repr

/-- The decimal with its last digit at `10 ^ k` that is nearest to a positive magnitude among those
that round back to it. -/
def decimalAt? (tie : Tie) (magnitude : Nat) (k : Int) : Option Nat :=
  let (mantissa, exponent) := decode magnitude
  let quarters := 4 * mantissa
  let atBinade := mantissa = Nat.pow 2 52 ∧ -1074 < exponent
  let below := if atBinade then quarters - 1 else quarters - 2
  let above := quarters + 2
  let (num, den) := if 0 ≤ exponent - 2 then (Nat.pow 2 (exponent - 2).toNat, 1)
    else (1, Nat.pow 2 (2 - exponent).toNat)
  let (num, den) := scaleByTen num den k
  let inside (c : Nat) : Bool :=
    if mantissa % 2 = 0 then below * num ≤ c * den && c * den ≤ above * num
    else below * num < c * den && c * den < above * num
  let low := quarters * num / den
  let twice := 2 * (quarters * num)
  let middle := (2 * low + 1) * den
  let takesLow := twice < middle || (twice == middle && tie == .toEven && low % 2 == 0)
  match inside low, inside (low + 1) with
  | true, true => some (if takesLow then low else low + 1)
  | true, false => some low
  | false, true => some (low + 1)
  | false, false => none

/-- The fewest decimal digits that round back to a positive magnitude, as `digits * 10 ^ k`.
Seventeen digits are always enough. -/
def shortestMagnitude (tie : Tie) (magnitude : Nat) : Nat × Int :=
  let (mantissa, exponent) := decode magnitude
  let (num, den) := if 0 ≤ exponent then (mantissa * Nat.pow 2 exponent.toNat, 1)
    else (mantissa, Nat.pow 2 (-exponent).toNat)
  let first := firstDigitExponent num den
  let candidates := (List.range 17).filterMap fun (i : Nat) =>
    (decimalAt? tie magnitude (first - i)).map fun digits => (digits, first - i)
  candidates.headD (0, 0)

/-- The fraction written by the fewest decimal digits that round back, with the sign apart. -/
def shortest (x : Binary64) (tie : Tie) : Nat × Int :=
  if x.magnitudeBits = 0 then (0, 0) else shortestMagnitude tie x.magnitudeBits

end Binary64

namespace Number

/-- The number that the shortest decimal digits of a floating point number stand for. Bits that
stand for no number have none. -/
def ofBinary64? (x : Binary64) : Option Number :=
  if x.magnitudeBits < Binary64.infinityBits then
    let (digits, k) := x.shortest .up
    some (.finite (scaled (if x.isNegative then -(digits : Int) else digits) k))
  else if x.magnitudeBits = Binary64.infinityBits then
    some (infinity x.isNegative)
  else
    none

/-- The floating point number nearest to the rendered digits of a number. -/
def toBinary64 : Number → Binary64
  | .negInf => .ofMagnitude true Binary64.infinityBits
  | .finite q => .nearest (renderedValue q)
  | .posInf => .ofMagnitude false Binary64.infinityBits

end Number

end ValueAlgebra
