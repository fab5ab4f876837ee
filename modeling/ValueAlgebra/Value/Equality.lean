import ValueAlgebra.Value.Hash

/-!
# Equality of values

There are two notions of equality. `Value.equals` answers with a bool value, which is undecided
where unknown parts leave both answers possible. `Value.rawEquals` and `Value.identical` compare the
representation: unknowns are equal when their types and refinements agree, and `identical` asks for
the same marks at every depth too.
-/

namespace ValueAlgebra

/-- Whether a known, non-null content of the refined type meets a refinement. The length of a set
counts only when no two of its elements can turn out equal. -/
def Refinement.admits (r : Refinement) : Content → Bool
  | .number n => r.lower.admitsAbove n && r.upper.admitsBelow n
  | .string s => r.stem.toList.isPrefixOf s.toList
  | .list _ items => admitsLength items.length
  | .set _ items =>
    if Value.allWhollyKnown items || items.length == 1 then admitsLength items.length else true
  | .map _ entries => admitsLength entries.length
  | _ => true
where
  /-- Whether a collection may have this length. -/
  admitsLength (n : Nat) : Bool :=
    r.minLength ≤ n && match r.maxLength with
      | none => true
      | some max => n ≤ max

namespace Value

variable [Host]

/-! ## Equality with an undecided answer -/

/-- Whether all answers are true: false as soon as one is false, undecided while one is unknown. -/
def allEqual (answers : List Value) : Value :=
  if answers.any isKnownFalse then bool false
  else if answers.all isKnown then bool true
  else undecided

/-- The comparison of a known value with an unknown of some type and refinement. -/
def equalsUnknown (known : Value) (t : Ty) (r : Refinement) : Value :=
  if known.isNull then
    if r.nullness = .notNull then bool false else undecided
  else if known.ty.hasDynamic || t.hasDynamic then undecided
  else if known.ty ≠ t then bool false
  else if r.admits known.content then undecided
  else bool false

/-- The answer that does not hang on what two known values hold. -/
def equalsEarly? (a b : Value) : Option Value :=
  match a.content, b.content with
  | .unknown _ _, .unknown _ _ => some undecided
  | _, .unknown t r => some (equalsUnknown a t r)
  | .unknown t r, _ => some (equalsUnknown b t r)
  | .null _, .null _ => some (bool true)
  | .null _, _ | _, .null _ => some (bool false)
  | _, _ =>
    if !a.hasWhollyKnownType || !b.hasWhollyKnownType then
      some (if a.ty.conforms b.ty || b.ty.conforms a.ty then undecided else bool false)
    else if a.ty ≠ b.ty then some (bool false)
    else none

mutual

/-- Whether two values are equal, without regard to marks. -/
def equalsBare : Value → Value → Value
  | ⟨marks, content⟩, b =>
    match equalsEarly? ⟨marks, content⟩ b with
    | some answer => answer
    | none =>
      match content, b.content with
      | .number x, .number y => bool (x == y)
      | .string x, .string y => bool (x == y)
      | .bool x, .bool y => bool (x == y)
      | .list _ xs, .list _ ys | .tuple xs, .tuple ys =>
        if xs.length = ys.length then allEqual (equalsEach xs ys) else bool false
      | .map _ xs, .map _ ys | .object xs, .object ys =>
        if Entries.names xs = Entries.names ys then
          allEqual (equalsEachEntry xs (Entries.values ys))
        else bool false
      | .set _ xs, .set _ ys =>
        if allWhollyKnown xs && allWhollyKnown ys then
          bool (xs.length == ys.length && allFound xs ys)
        else undecided
      | .union _ v x, .union _ w y => if v = w then equalsBare x y else bool false
      | .capsule c p, .capsule _ q => c.equals p q
      | _, _ => bool false

/-- Whether values are equal one by one. -/
def equalsEach : List Value → List Value → List Value
  | x :: xs, y :: ys => equalsBare x y :: equalsEach xs ys
  | _, _ => []

/-- Whether named values are equal to others one by one. -/
def equalsEachEntry : List (String × Value) → List Value → List Value
  | (_, x) :: xs, y :: ys => equalsBare x y :: equalsEachEntry xs ys
  | _, _ => []

/-- Whether each of some values is among the elements of a set. -/
def allFound : List Value → List Value → Bool
  | [], _ => true
  | x :: xs, ys =>
    (ys.any fun y => hash x == hash y && (equalsBare x y).isKnownTrue) && allFound xs ys

end

/--
Whether two values are equal. Nulls equal only nulls, of any type. The answer is undecided while an
unknown part can still turn out either way, and it carries the marks of both values.
-/
def equals (a b : Value) : Value :=
  ((equalsBare a.unmarkDeep b.unmarkDeep).withMarks a.deepMarks).withMarks b.deepMarks

/-! ## Equality of the representation -/

mutual

/-- Whether two values have the same representation, with or without regard to marks. -/
def same (regardMarks : Bool) : Value → Value → Bool
  | ⟨marks, content⟩, b =>
    (!regardMarks || marks == b.marks) && ty ⟨marks, content⟩ == b.ty &&
      match content, b.content with
      | .null _, .null _ => true
      | .unknown _ r, .unknown _ s => r == s
      | .number x, .number y => x == y
      | .string x, .string y => x == y
      | .bool x, .bool y => x == y
      | .list _ xs, .list _ ys | .tuple xs, .tuple ys | .set _ xs, .set _ ys =>
        sameAll regardMarks xs ys
      | .map _ xs, .map _ ys | .object xs, .object ys => sameEntries regardMarks xs ys
      | .union _ v x, .union _ w y => v == w && same regardMarks x y
      | .capsule c p, .capsule _ q => c.rawEquals p q
      | _, _ => false

/-- Whether values have the same representation one by one. -/
def sameAll (regardMarks : Bool) : List Value → List Value → Bool
  | [], [] => true
  | x :: xs, y :: ys => same regardMarks x y && sameAll regardMarks xs ys
  | _, _ => false

/-- Whether named values have the same names and representation one by one. -/
def sameEntries (regardMarks : Bool) : List (String × Value) → List (String × Value) → Bool
  | [], [] => true
  | (k, x) :: xs, (l, y) :: ys => k == l && same regardMarks x y && sameEntries regardMarks xs ys
  | _, _ => false

end

/-- Whether two values have the same representation apart from marks. -/
def rawEquals (a b : Value) : Bool :=
  same false a b

/-- Whether two values have the same representation, with the same marks at every depth. -/
def identical (a b : Value) : Bool :=
  same true a b

end Value

end ValueAlgebra
