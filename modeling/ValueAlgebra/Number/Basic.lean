/-!
# Exact numbers with two infinities

A number is a fraction or one of the two infinities. The order puts the infinities at the ends.
Operations that have no result, such as the sum of both infinities, answer `none`.
-/

namespace ValueAlgebra

/-- A fraction, or one of the two infinities. -/
inductive Number where
  | negInf
  | finite (q : Rat)
  | posInf
deriving DecidableEq, Repr

namespace Number

/-- A whole number. -/
def ofInt (n : Int) : Number :=
  .finite n

def zero : Number :=
  .finite 0

instance : Inhabited Number := ⟨zero⟩

/-- The infinity of a sign. -/
def infinity (negative : Bool) : Number :=
  if negative then .negInf else .posInf

/-! ## Classes of numbers -/

def isFinite : Number → Bool
  | .finite _ => true
  | _ => false

def isZero : Number → Bool
  | .finite q => q = 0
  | _ => false

/-- Whether a number is below zero. -/
def isNegative : Number → Bool
  | .negInf => true
  | .finite q => q < 0
  | .posInf => false

/-- The whole number that a number is, if it is one. -/
def toInt? : Number → Option Int
  | .finite q => if q.den = 1 then some q.num else none
  | _ => none

def isInteger (n : Number) : Bool :=
  n.toInt?.isSome

/-- A whole number from `-2^63` to `2^63 - 1`. -/
def toSignedWord? (n : Number) : Option Int :=
  n.toInt?.filter fun i => -Int.pow 2 63 ≤ i && i < Int.pow 2 63

/-- A whole number from `0` to `2^64 - 1`, as an index or a length has to be. -/
def toWord? (n : Number) : Option Nat :=
  (n.toInt?.filter fun i => 0 ≤ i && i < Int.pow 2 64).map Int.toNat

/-! ## Order -/

/-- Negative infinity is below and positive infinity above all else. -/
protected def le : Number → Number → Prop
  | .negInf, _ => True
  | _, .negInf => False
  | _, .posInf => True
  | .posInf, _ => False
  | .finite p, .finite q => p ≤ q

instance : LE Number := ⟨Number.le⟩

instance : LT Number := ⟨fun a b => ¬ b ≤ a⟩

instance : DecidableLE Number := fun a b =>
  match a, b with
  | .negInf, _ => .isTrue trivial
  | .finite _, .negInf => .isFalse id
  | .posInf, .negInf => .isFalse id
  | .finite _, .posInf => .isTrue trivial
  | .posInf, .posInf => .isTrue trivial
  | .posInf, .finite _ => .isFalse id
  | .finite p, .finite q => inferInstanceAs (Decidable (p ≤ q))

instance : DecidableLT Number := fun a b => inferInstanceAs (Decidable (¬ b ≤ a))

/-- How two numbers compare. -/
def order (a b : Number) : Ordering :=
  if a < b then .lt else if b < a then .gt else .eq

instance : Ord Number := ⟨order⟩

/-! ## Arithmetic -/

/-- The number of the other sign. -/
def negate : Number → Number
  | .negInf => .posInf
  | .finite q => .finite (-q)
  | .posInf => .negInf

/-- The distance from zero. -/
def absolute : Number → Number
  | .finite q => .finite (if q < 0 then -q else q)
  | _ => .posInf

/-- The sum, unless both infinities meet. -/
def add? : Number → Number → Option Number
  | .finite p, .finite q => some (.finite (p + q))
  | .posInf, .negInf | .negInf, .posInf => none
  | .finite _, inf | inf, _ => some inf

/-- The difference, unless an infinity meets itself. -/
def subtract? (a b : Number) : Option Number :=
  a.add? b.negate

/-- The product, unless an infinity meets zero. -/
def multiply? (a b : Number) : Option Number :=
  match a, b with
  | .finite p, .finite q => some (.finite (p * q))
  | a, b =>
    if a.isZero || b.isZero then none else some (infinity (a.isNegative != b.isNegative))

/-- The quotient. A number other than zero over zero is an infinity, and a fraction over an
infinity is zero; zero over zero and an infinity over an infinity have no quotient. -/
def divide? (a b : Number) : Option Number :=
  match a, b with
  | .finite p, .finite q =>
    if q = 0 then if p = 0 then none else some (infinity (p < 0)) else some (.finite (p / q))
  | .finite _, _ => some zero
  | _, .finite q => some (infinity (a.isNegative != decide (q < 0)))
  | _, _ => none

/-- What is left of a fraction after the whole multiples of another one, rounded toward zero, have
been taken away. It has the sign of the first fraction. -/
def modulo? : Number → Number → Option Number
  | .finite p, .finite q =>
    if q = 0 then none
    else
      let quotient : Int := (p / q).num.tdiv (p / q).den
      some (.finite (p - quotient * q))
  | _, _ => none

end Number

end ValueAlgebra
