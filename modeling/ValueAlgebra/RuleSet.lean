import ValueAlgebra.Ty.Name

/-!
# Sets under a rule of equivalence

The elements of a `RuleSet` stand in buckets by their hash, and an element is added only if no
equivalent one is in its bucket. Equivalence need not be reflexive: an element that is not
equivalent to itself is kept each time it is added and never found again.

`RuleSet.values` lists the elements by ascending hash and then, stably, by the order of the rules.
-/

namespace ValueAlgebra

/-- How a set tells its elements apart. Equivalent elements have the same hash. -/
class Rules (ρ : Type) (α : outParam Type) where
  hash : ρ → α → UInt64
  equivalent : ρ → α → α → Bool
  /-- How elements are listed beyond the order of their hashes. -/
  order : ρ → α → α → Ordering := fun _ _ _ => .eq
  /-- Whether two rules treat all elements alike, so that sets under them can be combined. -/
  same : ρ → ρ → Bool

/-- The elements of one hash. -/
abbrev Bucket (α : Type) := UInt64 × List α

namespace Bucket

variable {α : Type}

/-- The elements of a hash. -/
def find (hash : UInt64) (buckets : List (Bucket α)) : List α :=
  (buckets.lookup hash).getD []

/-- Sets the elements of a hash among buckets sorted by hash. An empty bucket is left out. -/
def put (hash : UInt64) (elements : List α) : List (Bucket α) → List (Bucket α)
  | [] => if elements.isEmpty then [] else [(hash, elements)]
  | (other, others) :: rest =>
    if hash < other then
      if elements.isEmpty then (other, others) :: rest
      else (hash, elements) :: (other, others) :: rest
    else if hash = other then
      if elements.isEmpty then rest else (hash, elements) :: rest
    else (other, others) :: put hash elements rest

end Bucket

/-- A set whose elements are told apart by rules. -/
structure RuleSet (ρ α : Type) where
  rules : ρ
  /-- The elements, in buckets sorted by hash. -/
  buckets : List (Bucket α)
  size : Nat

namespace RuleSet

variable {ρ α : Type} [Rules ρ α]

def empty (rules : ρ) : RuleSet ρ α :=
  ⟨rules, [], 0⟩

/-- The elements in a bucket. -/
def bucket (s : RuleSet ρ α) (hash : UInt64) : List α :=
  Bucket.find hash s.buckets

/-- Whether an element equivalent to `x` is in the set. -/
def has (s : RuleSet ρ α) (x : α) : Bool :=
  (s.bucket (Rules.hash s.rules x)).any fun existing => Rules.equivalent s.rules existing x

/-- Adds an element, unless an equivalent one is there. Tells whether it was added. -/
def add (s : RuleSet ρ α) (x : α) : Bool × RuleSet ρ α :=
  let hash := Rules.hash s.rules x
  let elements := s.bucket hash
  if elements.any fun existing => Rules.equivalent s.rules existing x then (false, s)
  else
    (true, { s with buckets := Bucket.put hash (elements ++ [x]) s.buckets, size := s.size + 1 })

/-- The set with one more element, unless an equivalent one is there. -/
def insert (s : RuleSet ρ α) (x : α) : RuleSet ρ α :=
  (s.add x).2

/-- The set of some elements. Of equivalent ones the first stays. -/
def ofList (rules : ρ) (xs : List α) : RuleSet ρ α :=
  xs.foldl insert (empty rules)

/-- Takes out the first element equivalent to `x`, if there is one. -/
def remove? (s : RuleSet ρ α) (x : α) : Option (α × RuleSet ρ α) :=
  let hash := Rules.hash s.rules x
  let elements := s.bucket hash
  match elements.findIdx? fun existing => Rules.equivalent s.rules existing x with
  | none => none
  | some i => elements[i]?.map fun removed =>
    (removed,
      { s with buckets := Bucket.put hash (elements.eraseIdx i) s.buckets, size := s.size - 1 })

/-- The elements in the order in which they are listed. -/
def values (s : RuleSet ρ α) : List α :=
  (s.buckets.flatMap (·.2)).mergeSort fun a b => (Rules.order s.rules a b).isLE

/-! ## Sets out of two sets

Sets under rules that are not the same have no combination.
-/

/-- A combination of two sets, if their rules are the same. -/
def combine (f : RuleSet ρ α → RuleSet ρ α → RuleSet ρ α) (a b : RuleSet ρ α) :
    Option (RuleSet ρ α) :=
  if Rules.same a.rules b.rules then some (f a b) else none

/-- The elements of either set. -/
def union (a b : RuleSet ρ α) : RuleSet ρ α :=
  b.values.foldl insert a

/-- The elements of the first set that are in the second one. -/
def intersection (a b : RuleSet ρ α) : RuleSet ρ α :=
  ofList a.rules (a.values.filter b.has)

/-- The elements of the first set that are not in the second one. -/
def subtract (a b : RuleSet ρ α) : RuleSet ρ α :=
  ofList a.rules (a.values.filter fun x => !b.has x)

/-- The elements of exactly one of the sets. -/
def symmetricDifference (a b : RuleSet ρ α) : RuleSet ρ α :=
  (b.values.filter fun x => !a.has x).foldl insert (a.subtract b)

/-- Whether two sets of one size hold the same elements. -/
def equal (a b : RuleSet ρ α) : Bool :=
  a.size == b.size && a.values.all b.has

/-- The elements between braces. -/
def describe (s : RuleSet ρ α) (element : α → String) : String :=
  Ty.braced (s.values.map element)

end RuleSet

end ValueAlgebra
