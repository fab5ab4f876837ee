import ValueAlgebra.Value.Access

/-!
# Arithmetic, comparison and logic

The operands of an operation have to be of its type; a value of unknown type is accepted. The answer
carries the marks of the operands. Unknown operands give an unknown answer, as narrow as the ranges
of the operands allow, except where one answer alone is left.
-/

namespace ValueAlgebra.Value

/-! ## Operands and marks -/

/-- Operands are of the wanted type or of unknown type. -/
def checkOperands (operation : String) (wanted : Ty) (operands : List Value) : Except Fault Unit :=
  match operands.findIdx? fun v => v.ty != .dynamic && v.ty != wanted with
  | none => .ok ()
  | some i => .error (.operandType operation wanted i ((types operands)[i]?.getD wanted))

/-- Applies an operation to a value without its marks, which go to the answer. -/
def marking (f : Value → Except Fault Value) (a : Value) : Except Fault Value :=
  (f a.unmark).map fun answer => answer.withMarks a.marks

/-- Applies an operation to two values without their marks, which go to the answer. -/
def markingBoth (f : Value → Value → Except Fault Value) (a b : Value) : Except Fault Value :=
  (f a.unmark b.unmark).map fun answer => (answer.withMarks a.marks).withMarks b.marks

/-- The number in an operand that is known and of type number. -/
def numberOperand (operation : String) (v : Value) : Except Fault Number :=
  match v.number? with
  | some n => .ok n
  | none => .error (.nullOperand operation .number)

/-! ## Bounds of unknown answers -/

/-- What an unknown number, which is not null, may be between two ends that are told where they are
known. -/
def numberBetween (lower upper : Option Bound) : Except Fault Value := do
  let s ← (unknown .number).refine.notNull
  let s ← match lower with
    | none => pure s
    | some lower => s.raiseLower lower
  let s ← match upper with
    | none => pure s
    | some upper => s.cutUpper upper
  s.result

/-- The end that belongs to a range only if both given ends do. -/
def endOf (n : Option Number) (a b : Bound) : Option Bound :=
  n.map fun n => ⟨n, a.inclusive && b.inclusive⟩

/-- The bounds of a sum. -/
def sumBetween (a b : Refinement) : Except Fault Value :=
  numberBetween (endOf (a.lower.value.add? b.lower.value) a.lower b.lower)
    (endOf (a.upper.value.add? b.upper.value) a.upper b.upper)

/-- The bounds of a difference. -/
def differenceBetween (a b : Refinement) : Except Fault Value :=
  numberBetween (endOf (a.lower.value.subtract? b.upper.value) a.lower b.upper)
    (endOf (a.upper.value.subtract? b.lower.value) a.upper b.lower)

/-- No bounds at all. -/
def anyNumber (_ _ : Refinement) : Except Fault Value :=
  numberBetween none none

/-! ## Arithmetic -/

/-- An operation on two numbers without marks. -/
def arithmetic (operation : String) (unknownAnswer : Refinement → Refinement → Except Fault Value)
    (compute : Number → Number → Option Number) (a b : Value) : Except Fault Value := do
  checkOperands operation .number [a, b]
  if a.ty = .dynamic ∨ b.ty = .dynamic then return dynamic
  if !a.isKnown || !b.isKnown then
    unknownAnswer a.range.refinement b.range.refinement
  else
    let x ← numberOperand operation a
    let y ← numberOperand operation b
    match compute x y with
    | some n => return number n
    | none => throw (.noNumericResult operation x y)

def add : Value → Value → Except Fault Value :=
  markingBoth (arithmetic "add" sumBetween Number.add?)

def subtract : Value → Value → Except Fault Value :=
  markingBoth (arithmetic "subtract" differenceBetween Number.subtract?)

def multiply : Value → Value → Except Fault Value :=
  markingBoth (arithmetic "multiply" anyNumber Number.multiply?)

/-- The quotient. A number other than zero over zero is an infinity. -/
def divide : Value → Value → Except Fault Value :=
  markingBoth (arithmetic "divide" anyNumber Number.divide?)

/-- What is left of a number after the whole multiples of another one. An infinite operand gives the
product, and zero as the second operand gives the first one. -/
def remainder? (x y : Number) : Option Number :=
  if !x.isFinite || !y.isFinite then x.multiply? y
  else if y.isZero then some x
  else x.modulo? y

def modulo : Value → Value → Except Fault Value :=
  markingBoth (arithmetic "modulo" anyNumber remainder?)

/-- An operation on one number without marks. -/
def arithmeticUnary (operation : String) (unknownAnswer : Refinement → Except Fault Value)
    (compute : Number → Number) (a : Value) : Except Fault Value := do
  checkOperands operation .number [a]
  if a.ty = .dynamic then return dynamic
  if !a.isKnown then
    unknownAnswer a.range.refinement
  else
    return number (compute (← numberOperand operation a))

/-- The number of the other sign. -/
def negate : Value → Except Fault Value :=
  marking (arithmeticUnary "negate"
    (fun r => numberBetween (some ⟨r.upper.value.negate, r.upper.inclusive⟩)
      (some ⟨r.lower.value.negate, r.lower.inclusive⟩))
    Number.negate)

/-- The distance from zero. -/
def absolute : Value → Except Fault Value :=
  marking (arithmeticUnary "absolute"
    (fun _ => numberBetween (some ⟨.zero, true⟩) none) Number.absolute)

/-! ## Comparison -/

/-- Whether all numbers of one range are below those of another, or none is. Nothing is said where
both happen. -/
def decideLess? (orEqual : Bool) (a b : Refinement) : Option Bool :=
  let always :=
    if orEqual then decide (a.upper.value ≤ b.lower.value)
    else a.upper.value < b.lower.value ||
      (a.upper.value == b.lower.value && !(a.upper.inclusive && b.lower.inclusive))
  let never :=
    if orEqual then b.upper.value < a.lower.value ||
      (a.lower.value == b.upper.value && !(a.lower.inclusive && b.upper.inclusive))
    else decide (b.upper.value ≤ a.lower.value)
  if always then some true else if never then some false else none

/-- Whether the first of two numbers without marks is below the second one. -/
def comparison (operation : String) (orEqual : Bool) (a b : Value) : Except Fault Value := do
  checkOperands operation .number [a, b]
  if a.ty = .dynamic ∨ b.ty = .dynamic then return undecided
  if !a.isKnown || !b.isKnown then
    match decideLess? orEqual a.range.refinement b.range.refinement with
    | some answer => return bool answer
    | none => return undecided
  else
    let x ← numberOperand operation a
    let y ← numberOperand operation b
    return bool (if orEqual then x ≤ y else x < y)

def lessThan : Value → Value → Except Fault Value :=
  markingBoth (comparison "less_than" false)

def greaterThan : Value → Value → Except Fault Value :=
  markingBoth fun a b => comparison "greater_than" false b a

def lessThanOrEqual : Value → Value → Except Fault Value :=
  markingBoth (comparison "less_than_or_equal_to" true)

def greaterThanOrEqual : Value → Value → Except Fault Value :=
  markingBoth fun a b => comparison "greater_than_or_equal_to" true b a

/-! ## Logic -/

/-- The bool in an operand without marks, unless it is unknown. -/
def boolOperand? (operation : String) (v : Value) : Except Fault (Option Bool) :=
  if !v.isKnown then .ok none
  else if v.isNull then .error (.nullOperand operation .bool)
  else v.asBool.map some

/-- An operation on two bools without marks that is decided as soon as one of them is
`absorbing`. -/
def logic (operation : String) (absorbing : Bool) (a b : Value) : Except Fault Value := do
  checkOperands operation .bool [a, b]
  if a.ty = .dynamic ∨ b.ty = .dynamic then return undecided
  let x ← boolOperand? operation a
  let y ← boolOperand? operation b
  if x = some absorbing ∨ y = some absorbing then return bool absorbing
  else if x.isSome && y.isSome then return bool !absorbing
  else return undecided

def and : Value → Value → Except Fault Value :=
  markingBoth (logic "and" false)

def or : Value → Value → Except Fault Value :=
  markingBoth (logic "or" true)

def not : Value → Except Fault Value :=
  marking fun a => do
    checkOperands "not" .bool [a]
    if a.ty = .dynamic then return undecided
    match ← boolOperand? "not" a with
    | some b => return bool !b
    | none => return undecided

/-- Whether two values differ. -/
def notEqual [Host] (a b : Value) : Except Fault Value :=
  (a.equals b).not

end ValueAlgebra.Value
