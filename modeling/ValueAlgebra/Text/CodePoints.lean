/-!
# Tables of code points

Tables of character properties are written as code points in base sixteen, with blanks between
them. This module reads such a table and looks a code point up in a list of ranges.
-/

namespace ValueAlgebra.Text

/-- The value of a digit in base sixteen, with upper case letters. -/
def hexDigit? (c : Char) : Option Nat :=
  if '0' ≤ c ∧ c ≤ '9' then some (c.toNat - '0'.toNat)
  else if 'A' ≤ c ∧ c ≤ 'F' then some (c.toNat - 'A'.toNat + 10)
  else none

/-- The numbers of a text in base sixteen. Any other character ends a number. -/
def hexWords (s : String) : List Nat :=
  go none s.toList
where
  /-- Reads on with the digits of the current number, if there are any. -/
  go : Option Nat → List Char → List Nat
    | none, [] => []
    | some n, [] => [n]
    | current, c :: cs =>
      match hexDigit? c, current with
      | some d, none => go (some d) cs
      | some d, some n => go (some (16 * n + d)) cs
      | none, none => go none cs
      | none, some n => n :: go none cs

/-- Consecutive numbers two by two. -/
def pairs : List Nat → List (Nat × Nat)
  | a :: b :: rest => (a, b) :: pairs rest
  | _ => []

/-- Consecutive numbers three by three. -/
def triples : List Nat → List (Nat × Nat × Nat)
  | a :: b :: c :: rest => (a, b, c) :: triples rest
  | _ => []

/-- Whether a code point lies in one of the closed ranges. -/
def inRanges (ranges : List (Nat × Nat)) (n : Nat) : Bool :=
  ranges.any fun r => r.1 ≤ n && n ≤ r.2

end ValueAlgebra.Text
