import ValueAlgebra.Capsule

/-!
# Hashes and the order of set elements

The hash of a value ignores its marks, its refinement and, for nulls and unknowns, its type. The
elements of a set count for the hash of the set in any order.

Set elements are listed with known ones first, then null, then unknowns. Strings, numbers and bools
stand in their natural order, and all else by hash.
-/

namespace ValueAlgebra.Value

variable [Host]

mutual

/-- The traits of a value that count for its hash. -/
def hashTokens : Value → List HashToken
  | ⟨_, .null _⟩ => [.tag 0]
  | ⟨_, .unknown _ _⟩ => [.tag 1]
  | ⟨_, .number n⟩ => [.tag 2, .number n]
  | ⟨_, .string s⟩ => [.tag 3, .text s]
  | ⟨_, .bool b⟩ => [.tag 4, .flag b]
  | ⟨_, .list _ items⟩ | ⟨_, .tuple items⟩ => .tag 5 :: .count items.length :: hashTokensAll items
  | ⟨_, .map _ entries⟩ | ⟨_, .object entries⟩ => .tag 6 :: hashTokensEntries entries
  | ⟨_, .set _ items⟩ => [.tag 7, .word (hashSum items)]
  | ⟨_, .union _ variant inner⟩ => .tag 8 :: .text variant :: hashTokens inner
  | ⟨_, .capsule c p⟩ => .tag 9 :: c.hashTokens p

/-- The traits of some values, one after the other. -/
def hashTokensAll : List Value → List HashToken
  | [] => []
  | v :: vs => hashTokens v ++ hashTokensAll vs

/-- The names and traits of some named values, one after the other. -/
def hashTokensEntries : List (String × Value) → List HashToken
  | [] => []
  | (name, v) :: vs => .text name :: (hashTokens v ++ hashTokensEntries vs)

/-- The sum of the hashes of some values. -/
def hashSum : List Value → UInt64
  | [] => 0
  | v :: vs => Host.digest (hashTokens v) + hashSum vs

end

/-- The hash of a value. -/
def hash (v : Value) : UInt64 :=
  Host.digest v.hashTokens

/-- Known values come before null, and null before unknowns. -/
def setRank : Value → Nat
  | ⟨_, .null _⟩ => 1
  | ⟨_, .unknown _ _⟩ => 2
  | _ => 0

/-- The order in which the elements of a set are listed. -/
def setOrder (a b : Value) : Ordering :=
  if a.setRank ≠ b.setRank then compare a.setRank b.setRank
  else if a.setRank ≠ 0 then .eq
  else
    match a.content, b.content with
    | .string x, .string y => compare x y
    | .number x, .number y => x.order y
    | .bool x, .bool y => compare x y
    | _, _ => compare a.hash b.hash

end ValueAlgebra.Value
