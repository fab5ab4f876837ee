import ValueAlgebra.Number.Basic
import ValueAlgebra.Text.Quoted

/-!
# Numbers in decimal notation

`Number.parse` reads an optional sign, digits with an optional fraction and an optional exponent.
The infinities are written `inf` or `infinity` in any case. `Number.render` writes a number without
an exponent: exactly where finitely many digits do, and otherwise rounded to 32 places.
-/

namespace ValueAlgebra.Number

open Text

/-- Why a text is no number. -/
inductive ParseError where
  /-- The text is empty. -/
  | empty
  /-- The text breaks the rules of decimal notation. -/
  | malformed (text : String)
  /-- The exponent is too far from zero. -/
  | exponentOutOfRange (text : String)
  /-- The exponent is the least signed word, which has no distance from zero among the words. -/
  | exponentOverflow
deriving DecidableEq, Repr

/-- What is reported for a text that is no number. -/
def ParseError.message : ParseError → String
  | .empty => "a number is required"
  | .malformed text => "invalid number syntax " ++ quoted text
  | .exponentOutOfRange text => "exponent of " ++ quoted text ++ " is out of range"
  | .exponentOverflow => "attempt to negate with overflow"

/-! ## Reading -/

/-- The greatest magnitude of an exponent. -/
def maxExponent : Int := 10000

/-- The value of a sequence of digits, read on from `start`. -/
def digitsValue (start : Nat) (digits : List Char) : Nat :=
  digits.foldl (fun n c => 10 * n + (c.toNat - '0'.toNat)) start

/-- Splits a text at the first character for which `sep` holds, which is dropped. -/
def splitAtFirst (sep : Char → Bool) (cs : List Char) : List Char × Option (List Char) :=
  match cs.dropWhile fun c => !sep c with
  | [] => (cs, none)
  | _ :: rest => (cs.takeWhile fun c => !sep c, some rest)

/-- Takes a leading sign away, and tells whether it was a minus. -/
def takeSign : List Char → Bool × List Char
  | '-' :: cs => (true, cs)
  | '+' :: cs => (false, cs)
  | cs => (false, cs)

/-- The value of an exponent. -/
def parseExponent (text : String) (exponent : List Char) : Except ParseError Int :=
  let (negative, digits) := takeSign exponent
  if digits.isEmpty || !digits.all Char.isDigit then
    .error (.malformed text)
  else
    let magnitude : Int := digitsValue 0 digits
    if negative && magnitude == Nat.pow 2 63 then .error .exponentOverflow
    else if magnitude ≤ maxExponent then .ok (if negative then -magnitude else magnitude)
    else .error (.exponentOutOfRange text)

/-- The fraction `n * 10 ^ scale`. -/
def scaled (n : Int) (scale : Int) : Rat :=
  if 0 ≤ scale then ((n * Int.pow 10 scale.toNat : Int) : Rat)
  else mkRat n (Nat.pow 10 (-scale).toNat)

/-- The value of a number without its sign. -/
def parseUnsigned (text : String) (negative : Bool) (unsigned : List Char) :
    Except ParseError Number := do
  let (mantissa, exponent) := splitAtFirst (fun c => c == 'e' || c == 'E') unsigned
  let (whole, fraction) := splitAtFirst (· == '.') mantissa
  let digits := whole ++ fraction.getD []
  if digits.isEmpty || !digits.all Char.isDigit then
    throw (.malformed text)
  let exponent ← match exponent with
    | none => pure 0
    | some exponent => parseExponent text exponent
  let value : Int := digitsValue 0 digits
  return .finite (scaled (if negative then -value else value)
    (exponent - ((fraction.getD []).length : Int)))

/-- Reads a number in decimal notation. -/
def parse (text : String) : Except ParseError Number :=
  if text.toList.isEmpty then
    .error .empty
  else
    let (negative, unsigned) := takeSign text.toList
    let lowered := unsigned.map Char.toLower
    if lowered = ['i', 'n', 'f'] ∨ lowered = ['i', 'n', 'f', 'i', 'n', 'i', 't', 'y'] then
      .ok (infinity negative)
    else
      parseUnsigned text negative unsigned

/-! ## Writing -/

/-- Digits after the point of a fraction that finitely many digits do not write. -/
def renderedPlaces : Nat := 32

/-- How often a factor divides a number, and what is left of it. The first argument bounds the
count. -/
def factorOut (factor : Nat) : Nat → Nat → Nat × Nat
  | 0, n => (0, n)
  | fuel + 1, n =>
    if n % factor = 0 then
      let (count, rest) := factorOut factor fuel (n / factor)
      (count + 1, rest)
    else
      (0, n)

/-- The least number of places after the point that write a fraction with this denominator exactly,
if there is one. -/
def exactPlaces? (den : Nat) : Option Nat :=
  let (twos, rest) := factorOut 2 (den.log2 + 1) den
  let (fives, rest) := factorOut 5 (rest.log2 + 1) rest
  if rest = 1 then some (max twos fives) else none

/-- The fraction `magnitude / 10 ^ places` in digits, without zeros at the end of its fraction. -/
def renderScaled (negative : Bool) (magnitude places : Nat) : String :=
  let digits := Nat.toDigits 10 magnitude
  let digits := List.replicate (places + 1 - digits.length) '0' ++ digits
  let whole := digits.take (digits.length - places)
  let fraction := (digits.drop (digits.length - places)).reverse.dropWhile (· == '0')
  let sign := if negative && magnitude != 0 then ['-'] else []
  let point := if fraction.isEmpty then [] else ['.']
  String.ofList (sign ++ whole ++ point ++ fraction.reverse)

/-- The numerator of a positive fraction over `10 ^ renderedPlaces`, rounded with halves going
up. -/
def roundedMagnitude (num den : Nat) : Nat :=
  (2 * num * Nat.pow 10 renderedPlaces + den) / (2 * den)

/-- A fraction in decimal notation. -/
def renderFraction (q : Rat) : String :=
  match exactPlaces? q.den with
  | some places => renderScaled (q < 0) (q.num.natAbs * Nat.pow 10 places / q.den) places
  | none => renderScaled (q < 0) (roundedMagnitude q.num.natAbs q.den) renderedPlaces

/-- A number in decimal notation. -/
def render : Number → String
  | .negInf => "-Inf"
  | .finite q => renderFraction q
  | .posInf => "+Inf"

/-- The fraction that the rendered digits of a fraction stand for. -/
def renderedValue (q : Rat) : Rat :=
  match exactPlaces? q.den with
  | some _ => q
  | none =>
    let magnitude : Int := roundedMagnitude q.num.natAbs q.den
    mkRat (if q < 0 then -magnitude else magnitude) (Nat.pow 10 renderedPlaces)

end ValueAlgebra.Number
