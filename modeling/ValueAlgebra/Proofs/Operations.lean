import Mathlib
import ValueAlgebra.Proofs.EqualityCases
import ValueAlgebra.Proofs.Refinings
import ValueAlgebra.Value.Arithmetic

/-!
# Operations and their answers

An operation takes one or two values and answers with a value (`Operation.answer`). Arithmetic
answers with numbers (`Value.IsNumeric`), comparison and logic with bools (`Value.IsVerdict`), and
other operations with parts of their operands.

Main statements:

* `Value.isNumeric_arithmetic`, `Value.isNumeric_lengthBare`: answers that are numbers.
* `Value.isVerdict_comparison`, `Value.isVerdict_logic`: answers that are bools.
* `Value.equalsBare_answer`: equality answers with a bool, or asks a capsule type.
-/

namespace ValueAlgebra

/-! ## Operations -/

/-- An operation on one value. -/
inductive UnaryOperation where
  | negate
  | absolute
  | not
  | length
  | attr (name : String)

/-- An operation on two values. -/
inductive BinaryOperation where
  | add
  | subtract
  | multiply
  | divide
  | modulo
  | lessThan
  | greaterThan
  | lessThanOrEqual
  | greaterThanOrEqual
  | and
  | or
  | equals
  | notEqual
  | index
  | hasIndex
  | hasElement

/-- An operation with its operands. -/
inductive Operation where
  | unary (op : UnaryOperation) (a : Value)
  | binary (op : BinaryOperation) (a b : Value)

def UnaryOperation.apply (a : Value) : UnaryOperation → Except Fault Value
  | .negate => a.negate
  | .absolute => a.absolute
  | .not => a.not
  | .length => a.length
  | .attr name => a.attr name

def BinaryOperation.apply [Host] (a b : Value) : BinaryOperation → Except Fault Value
  | .add => a.add b
  | .subtract => a.subtract b
  | .multiply => a.multiply b
  | .divide => a.divide b
  | .modulo => a.modulo b
  | .lessThan => a.lessThan b
  | .greaterThan => a.greaterThan b
  | .lessThanOrEqual => a.lessThanOrEqual b
  | .greaterThanOrEqual => a.greaterThanOrEqual b
  | .and => a.and b
  | .or => a.or b
  | .equals => .ok (a.equals b)
  | .notEqual => a.notEqual b
  | .index => a.index b
  | .hasIndex => a.hasIndex b
  | .hasElement => a.hasElement b

namespace Operation

/-- What an operation answers. -/
def answer [Host] : Operation → Except Fault Value
  | .unary op a => op.apply a
  | .binary op a b => op.apply a b

end Operation

namespace Value

variable {a b v w : Value}

/-! ## Answers that are numbers -/

/-- Bounds tell what an unknown number is. -/
theorem told_numberBetween {lower upper : Option Bound} (h : numberBetween lower upper = .ok w) :
    Refining.Told .number w := by
  have steps : numberBetween lower upper = ((unknown .number).refine.notNull >>= fun s =>
      lower.elim (.ok s) s.raiseLower >>= fun s =>
        upper.elim (.ok s) s.cutUpper >>= Refining.result) := by
    cases lower <;> cases upper <;> rfl
  rw [steps] at h
  obtain ⟨s, hs, h⟩ := bind_eq_ok h
  have start := Refining.follows_notNull hs
  obtain ⟨s', hs', h⟩ := bind_eq_ok h
  have raised : s.Follows s' := by
    cases lower with
    | none =>
      cases hs'
      exact .refl _
    | some lower => exact Refining.follows_raiseLower hs'
  obtain ⟨s'', hs'', h⟩ := bind_eq_ok h
  have cut : s'.Follows s'' := by
    cases upper with
    | none =>
      cases hs''
      exact .refl _
    | some upper => exact Refining.follows_cutUpper hs''
  exact Refining.told_of_follows ((start.trans raised).trans cut) h

/-- The answers of arithmetic. -/
inductive IsNumeric : Value → Prop
  | number (n : Number) : IsNumeric (.number n)
  | dynamic : IsNumeric .dynamic
  | told {v : Value} (h : Refining.Told .number v) : IsNumeric v

theorem isNumeric_arithmetic {operation : String}
    {between : Refinement → Refinement → Except Fault Value}
    {compute : Number → Number → Option Number}
    (hb : ∀ r s w, between r s = .ok w → Refining.Told .number w)
    (h : arithmetic operation between compute a b = .ok w) : w.IsNumeric := by
  obtain ⟨_, -, h⟩ := bind_eq_ok h
  split at h
  · cases h
    exact .dynamic
  split at h
  · exact .told (hb _ _ w h)
  · obtain ⟨x, -, h⟩ := bind_eq_ok h
    obtain ⟨y, -, h⟩ := bind_eq_ok h
    split at h
    · cases h
      exact .number _
    · cases h

theorem isNumeric_arithmeticUnary {operation : String} {between : Refinement → Except Fault Value}
    {compute : Number → Number} (hb : ∀ r w, between r = .ok w → Refining.Told .number w)
    (h : arithmeticUnary operation between compute a = .ok w) : w.IsNumeric := by
  obtain ⟨_, -, h⟩ := bind_eq_ok h
  split at h
  · cases h
    exact .dynamic
  split at h
  · exact .told (hb _ w h)
  · obtain ⟨x, -, h⟩ := bind_eq_ok h
    cases h
    exact .number _

theorem isNumeric_lengthBare (h : a.lengthBare = .ok w) : w.IsNumeric := by
  unfold lengthBare at h
  split at h
  · cases h
    exact .number _
  · obtain ⟨s, hs, h⟩ := bind_eq_ok h
    exact .told (Refining.told_of_follows (Refining.follows_notNull hs) h)
  split at h
  · obtain ⟨s, hs, h⟩ := bind_eq_ok h
    obtain ⟨s', hs', h⟩ := bind_eq_ok h
    have raised := (Refining.follows_notNull hs).trans (Refining.follows_atLeast hs')
    dsimp only at h
    split at h
    · exact .told (Refining.told_of_follows raised h)
    · obtain ⟨s'', hs'', h⟩ := bind_eq_ok h
      exact .told (Refining.told_of_follows (raised.trans (Refining.follows_atMost hs'')) h)
  · obtain ⟨n, -, rfl⟩ := ValueAlgebra.map_eq_ok h
    exact .number _

/-! ## Answers that are bools -/

/-- The answers of comparison and logic. -/
inductive IsVerdict : Value → Prop
  | bool (b : Bool) : IsVerdict (.bool b)
  | undecided : IsVerdict .undecided

theorem isVerdict_comparison {operation : String} {orEqual : Bool}
    (h : comparison operation orEqual a b = .ok w) : w.IsVerdict := by
  obtain ⟨_, -, h⟩ := bind_eq_ok h
  split at h
  · cases h
    exact .undecided
  split at h
  · split at h
    · cases h
      exact .bool _
    · cases h
      exact .undecided
  · obtain ⟨x, -, h⟩ := bind_eq_ok h
    obtain ⟨y, -, h⟩ := bind_eq_ok h
    cases h
    exact .bool _

theorem isVerdict_logic {operation : String} {absorbing : Bool}
    (h : logic operation absorbing a b = .ok w) : w.IsVerdict := by
  obtain ⟨_, -, h⟩ := bind_eq_ok h
  split at h
  · cases h
    exact .undecided
  obtain ⟨x, -, h⟩ := bind_eq_ok h
  obtain ⟨y, -, h⟩ := bind_eq_ok h
  split at h
  · cases h
    exact .bool _
  split at h
  · cases h
    exact .bool _
  · cases h
    exact .undecided

theorem isVerdict_hasIndexBare (h : a.hasIndexBare b = .ok w) : w.IsVerdict := by
  unfold hasIndexBare at h
  repeat' split at h
  all_goals
    cases h <;> first | exact .bool _ | exact .undecided

theorem isVerdict_not (h : a.not = .ok w) : ∃ v : Value, v.IsVerdict ∧ w = v.withMarks a.marks := by
  obtain ⟨v, hv, rfl⟩ := ValueAlgebra.map_eq_ok h
  refine ⟨v, ?_, rfl⟩
  obtain ⟨_, -, hv⟩ := bind_eq_ok hv
  split at hv
  · cases hv
    exact .undecided
  obtain ⟨x, -, hv⟩ := bind_eq_ok hv
  split at hv <;> cases hv
  · exact .bool _
  · exact .undecided

/-! ## Answers about equality -/

theorem isVerdict_allEqual (answers : List Value) : (allEqual answers).IsVerdict := by
  unfold allEqual
  split
  · exact .bool _
  split
  · exact .bool _
  · exact .undecided

theorem isVerdict_equalsEarly? {answer : Value} (h : equalsEarly? a b = some answer) :
    answer.IsVerdict := by
  have unknown (v : Value) (t : Ty) (r : Refinement) : (equalsUnknown v t r).IsVerdict := by
    unfold equalsUnknown
    repeat' split
    all_goals first | exact .bool _ | exact .undecided
  unfold equalsEarly? at h
  repeat' split at h
  all_goals
    cases h <;> first | exact .bool _ | exact .undecided | exact unknown _ _ _

variable [Host]

/-- Whether two values are equal is told by a bool or left open, unless a capsule type has its own
answer. -/
theorem equalsBare_answer (a b : Value) :
    (equalsBare a b).IsVerdict ∨
      ∃ (c : CapsuleType) (p q : Payload), equalsBare a b = c.equals p q := by
  induction a using Value.induction generalizing b with
  | step a ih =>
    rw [equalsBare_eq]
    cases early : equalsEarly? a b with
    | some answer => exact .inl (isVerdict_equalsEarly? early)
    | none =>
      rw [Option.getD_none]
      unfold compareContents
      split
      case h_9 v x _ w y hc _ =>
        split
        · exact ih x (by rw [hc]; exact List.mem_cons_self) y
        · exact .inl (.bool _)
      case h_10 c p _ q _ _ => exact .inr ⟨c, p, q, rfl⟩
      all_goals
        left
        first
        | exact .bool _
        | (split <;> first | exact isVerdict_allEqual _ | exact .bool _ | exact .undecided)

theorem isVerdict_hasElementBare (h : a.hasElementBare b = .ok w) : w.IsVerdict := by
  unfold hasElementBare at h
  repeat' split at h
  all_goals
    cases h <;> first | exact .bool _ | exact .undecided

end Value

end ValueAlgebra
