import ValueAlgebra.Json.Basic

/-!
# Numbers in JSON text

A whole number that fits a signed or an unsigned word is read as it stands. Any other number becomes
a floating point number in a quick way: its digits are gathered in a word as long as they fit, the
word is rounded to the format, and the result is multiplied or divided by a power of ten. This is
not always the floating point number nearest to the text: `999999999999999.9` becomes `10 ^ 15`.
-/

namespace ValueAlgebra.Json

/-- A character of a number. -/
def isNumberChar (c : Char) : Bool :=
  c.isDigit || c == '-' || c == '+' || c == '.' || c == 'e' || c == 'E'

/-- Appends digits to a number as long as it stays below `2 ^ 64`, and gives the digits that are
left. -/
def gatherDigits (word : Nat) : List Char → Nat × List Char
  | [] => (word, [])
  | c :: cs =>
    let next := Number.digitsValue word [c]
    if next < Nat.pow 2 64 then gatherDigits next cs else (word, c :: cs)

/-- The floating point number nearest to a power of ten. -/
def powerOfTen (k : Nat) : Binary64 :=
  .nearest (Nat.pow 10 k : Rat)

/-- The greatest power of ten that is a floating point number. -/
def maxPowerOfTen : Nat := 308

/-- A floating point number over a power of ten. Powers that are too great are taken in steps. -/
def overPowerOfTen (x : Binary64) (k : Nat) : Binary64 :=
  if k ≤ maxPowerOfTen then x.dividedBy (powerOfTen k)
  else if x.magnitudeBits = 0 then x
  else overPowerOfTen (x.dividedBy (powerOfTen maxPowerOfTen)) (k - maxPowerOfTen)
termination_by k
decreasing_by
  rw [maxPowerOfTen] at *
  omega

/-- The floating point number `word * 10 ^ exponent`, unless it is too great for the format. -/
def floatOfWord? (word : Nat) (exponent : Int) : Option Binary64 :=
  let x := Binary64.nearest (word : Rat)
  if exponent ≤ 0 then some (overPowerOfTen x (-exponent).toNat)
  else if exponent ≤ maxPowerOfTen then
    some (x.times (powerOfTen exponent.toNat)) |>.filter Binary64.isFinite
  else if word = 0 then some x
  else none

/-- The floating point number of digits before and after the point and an exponent. -/
def floatOfDigits? (negative : Bool) (whole fraction : List Char) (exponent : Int) : Option Json :=
  let (word, left) := gatherDigits 0 whole
  let scale : Int := left.length
  let (word, left) := gatherDigits word fraction
  let scale := scale - ((fraction.length - left.length : Nat) : Int)
  (floatOfWord? word (scale + exponent)).map fun x => .float (.ofMagnitude negative x.magnitudeBits)

/-- A whole number, or a floating point number where it fits no word or is a negative zero. -/
def wholeNumber? (negative : Bool) (digits : List Char) : Option Json :=
  let n : Int := Number.digitsValue 0 digits
  if if negative then 0 < n ∧ n ≤ Nat.pow 2 63 else n < Nat.pow 2 64 then
    some (.integer (if negative then -n else n))
  else floatOfDigits? negative digits [] 0

/-- The value of an exponent, which has a digit. -/
def exponent? (cs : List Char) : Option Int :=
  let (negative, digits) := Number.takeSign cs
  if digits.isEmpty || !digits.all Char.isDigit then none
  else
    let n : Int := Number.digitsValue 0 digits
    some (if negative then -n else n)

/-- The number that some characters write. Numbers with a fraction or an exponent are floating point
numbers. -/
def number? (token : List Char) : Option Json :=
  let (negative, unsigned) := match token with
    | '-' :: cs => (true, cs)
    | cs => (false, cs)
  let (mantissa, exponent) := Number.splitAtFirst (fun c => c == 'e' || c == 'E') unsigned
  let (whole, fraction) := Number.splitAtFirst (· == '.') mantissa
  if whole.isEmpty || fraction == some [] || !(whole ++ fraction.getD []).all Char.isDigit then none
  else
    match fraction, exponent with
    | none, none => wholeNumber? negative whole
    | fraction, none => floatOfDigits? negative whole (fraction.getD []) 0
    | fraction, some exponent => do
      floatOfDigits? negative whole (fraction.getD []) (← exponent? exponent)

end ValueAlgebra.Json
