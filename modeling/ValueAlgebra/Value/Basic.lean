import ValueAlgebra.Marks
import ValueAlgebra.Refinement
import ValueAlgebra.Ty.Basic

/-!
# Values

A value has marks and a content: a null or an unknown of some type, a primitive, a collection, a
structure, a variant of a union or a capsule. The type of a value follows from its content, so a
content never contradicts its type: an object has the attributes of its object type, a list knows
the type of its elements even when it is empty.

The elements of a set are kept in the order in which they are listed.
-/

namespace ValueAlgebra

/-- What a capsule holds. -/
inductive Native where
  | integer (n : Int)
  | text (s : String)
deriving DecidableEq, Repr

/-- The kind of a native value. -/
def Native.kind : Native → NativeKind
  | .integer _ => .integer
  | .text _ => .text

/-- A native value together with what tells it from other native values that look alike. -/
structure Payload where
  native : Native
  identity : List Nat
deriving DecidableEq, Repr

mutual

/-- A value with its marks. -/
inductive Value where
  | mk (marks : MarkSet) (content : Content)

/-- What a value is, apart from its marks. -/
inductive Content where
  | null (type : Ty)
  | unknown (type : Ty) (refinement : Refinement)
  | number (n : Number)
  | string (s : String)
  | bool (b : Bool)
  | list (element : Ty) (items : List Value)
  | set (element : Ty) (items : List Value)
  | map (element : Ty) (entries : List (String × Value))
  | object (attributes : List (String × Value))
  | tuple (items : List Value)
  | union (variants : List (String × Ty)) (variant : String) (inner : Value)
  | capsule (type : CapsuleType) (payload : Payload)

end

namespace Value

/-- A value without marks. -/
def bare (content : Content) : Value :=
  ⟨.empty, content⟩

instance : Inhabited Value := ⟨bare (.bool false)⟩

def marks : Value → MarkSet
  | ⟨marks, _⟩ => marks

def content : Value → Content
  | ⟨_, content⟩ => content

/-! ## Types of values -/

mutual

/-- The type of a value. -/
def ty : Value → Ty
  | ⟨_, .null t⟩ => t
  | ⟨_, .unknown t _⟩ => t
  | ⟨_, .number _⟩ => .number
  | ⟨_, .string _⟩ => .string
  | ⟨_, .bool _⟩ => .bool
  | ⟨_, .list e _⟩ => .list e
  | ⟨_, .set e _⟩ => .set e
  | ⟨_, .map e _⟩ => .map e
  | ⟨_, .object attributes⟩ => .object (entryTypes attributes) []
  | ⟨_, .tuple items⟩ => .tuple (types items)
  | ⟨_, .union variants _ _⟩ => .union variants
  | ⟨_, .capsule c _⟩ => .capsule c

/-- The types of some values. -/
def types : List Value → List Ty
  | [] => []
  | v :: vs => v.ty :: types vs

/-- The types of some named values. -/
def entryTypes : List (String × Value) → List (String × Ty)
  | [] => []
  | (name, v) :: vs => (name, v.ty) :: entryTypes vs

end

theorem types_eq_map (vs : List Value) : types vs = vs.map ty := by
  induction vs with
  | nil => rfl
  | cons v vs ih => rw [types, ih]; rfl

theorem entryTypes_eq_mapValues (vs : List (String × Value)) :
    entryTypes vs = Entries.mapValues ty vs := by
  induction vs with
  | nil => rfl
  | cons v vs ih =>
    obtain ⟨name, v⟩ := v
    rw [entryTypes, ih]
    rfl

/-! ## Primitive values, nulls and unknowns -/

def number (n : Number) : Value :=
  bare (.number n)

def ofNat (n : Nat) : Value :=
  number (.ofInt n)

def bool (b : Bool) : Value :=
  bare (.bool b)

/-- The null of a type. -/
def null (t : Ty) : Value :=
  bare (.null t)

/-- An unknown about which a refinement is known. -/
def refined (t : Ty) (r : Refinement) : Value :=
  bare (.unknown t r)

/-- An unknown of which the type alone is known. -/
def unknown (t : Ty) : Value :=
  refined t .unconstrained

/-- An unknown of which not even the type is known. -/
def dynamic : Value :=
  unknown .dynamic

/-- The answer to a question that cannot be decided yet: an unknown bool that is not null. -/
def undecided : Value :=
  refined .bool .notNull

/-! ## Kinds of values -/

def isKnown : Value → Bool
  | ⟨_, .unknown _ _⟩ => false
  | _ => true

def isNull : Value → Bool
  | ⟨_, .null _⟩ => true
  | _ => false

/-- Whether a value is the bool `b`, known and without marks. -/
def isKnownBool (b : Bool) (v : Value) : Bool :=
  match v with
  | ⟨marks, .bool c⟩ => marks.isEmpty && b == c
  | _ => false

def isKnownTrue (v : Value) : Bool :=
  v.isKnownBool true

def isKnownFalse (v : Value) : Bool :=
  v.isKnownBool false

/-- The number in a known number value. -/
def number? : Value → Option Number
  | ⟨_, .number n⟩ => some n
  | _ => none

/-- The text in a known string value. -/
def string? : Value → Option String
  | ⟨_, .string s⟩ => some s
  | _ => none

mutual

/-- Whether a value and all its parts are known. -/
def isWhollyKnown : Value → Bool
  | ⟨_, .unknown _ _⟩ => false
  | ⟨_, .list _ items⟩ | ⟨_, .set _ items⟩ | ⟨_, .tuple items⟩ => allWhollyKnown items
  | ⟨_, .map _ entries⟩ | ⟨_, .object entries⟩ => allEntriesWhollyKnown entries
  | ⟨_, .union _ _ inner⟩ => inner.isWhollyKnown
  | _ => true

/-- Whether values and all their parts are known. -/
def allWhollyKnown : List Value → Bool
  | [] => true
  | v :: vs => v.isWhollyKnown && allWhollyKnown vs

/-- Whether named values and all their parts are known. -/
def allEntriesWhollyKnown : List (String × Value) → Bool
  | [] => true
  | (_, v) :: vs => v.isWhollyKnown && allEntriesWhollyKnown vs

end

mutual

/-- Whether no null or unknown in a value leaves a part of its type open. -/
def hasWhollyKnownType : Value → Bool
  | ⟨_, .null t⟩ => !t.hasDynamic
  | ⟨_, .unknown t _⟩ => !t.hasDynamic
  | ⟨_, .list _ items⟩ | ⟨_, .set _ items⟩ | ⟨_, .tuple items⟩ => allHaveWhollyKnownType items
  | ⟨_, .map _ entries⟩ | ⟨_, .object entries⟩ => allEntriesHaveWhollyKnownType entries
  | ⟨_, .union _ _ inner⟩ => inner.hasWhollyKnownType
  | _ => true

/-- Whether no null or unknown in some values leaves a part of its type open. -/
def allHaveWhollyKnownType : List Value → Bool
  | [] => true
  | v :: vs => v.hasWhollyKnownType && allHaveWhollyKnownType vs

/-- Whether no null or unknown in some named values leaves a part of its type open. -/
def allEntriesHaveWhollyKnownType : List (String × Value) → Bool
  | [] => true
  | (_, v) :: vs => v.hasWhollyKnownType && allEntriesHaveWhollyKnownType vs

end

/-! ## Marks -/

/-- Adds marks to those of a value. -/
def withMarks (v : Value) (marks : MarkSet) : Value :=
  ⟨v.marks.union marks, v.content⟩

/-- A value without marks of its own. Its parts keep theirs. -/
def unmark (v : Value) : Value :=
  bare v.content

def isMarked (v : Value) : Bool :=
  !v.marks.isEmpty

mutual

/-- Whether a value or a part of it has marks. The elements of a set have none. -/
def containsMarked : Value → Bool
  | ⟨marks, content⟩ => !marks.isEmpty ||
    match content with
    | .list _ items | .tuple items => anyContainsMarked items
    | .map _ entries | .object entries => anyEntryContainsMarked entries
    | .union _ _ inner => inner.containsMarked
    | _ => false

/-- Whether some values or parts of them have marks. -/
def anyContainsMarked : List Value → Bool
  | [] => false
  | v :: vs => v.containsMarked || anyContainsMarked vs

/-- Whether some named values or parts of them have marks. -/
def anyEntryContainsMarked : List (String × Value) → Bool
  | [] => false
  | (_, v) :: vs => v.containsMarked || anyEntryContainsMarked vs

end

mutual

/-- A value without marks at any depth. -/
def unmarkDeep : Value → Value
  | ⟨_, .list e items⟩ => bare (.list e (unmarkDeepAll items))
  | ⟨_, .map e entries⟩ => bare (.map e (unmarkDeepEntries entries))
  | ⟨_, .object entries⟩ => bare (.object (unmarkDeepEntries entries))
  | ⟨_, .tuple items⟩ => bare (.tuple (unmarkDeepAll items))
  | ⟨_, .union variants variant inner⟩ => bare (.union variants variant inner.unmarkDeep)
  | ⟨_, content⟩ => bare content

/-- Values without marks at any depth. -/
def unmarkDeepAll : List Value → List Value
  | [] => []
  | v :: vs => v.unmarkDeep :: unmarkDeepAll vs

/-- Named values without marks at any depth. -/
def unmarkDeepEntries : List (String × Value) → List (String × Value)
  | [] => []
  | (name, v) :: vs => (name, v.unmarkDeep) :: unmarkDeepEntries vs

end

mutual

/-- The marks of a value and of all its parts. -/
def deepMarks : Value → MarkSet
  | ⟨marks, .list _ items⟩ | ⟨marks, .tuple items⟩ => marks.union (deepMarksAll items)
  | ⟨marks, .map _ entries⟩ | ⟨marks, .object entries⟩ => marks.union (deepMarksEntries entries)
  | ⟨marks, .union _ _ inner⟩ => marks.union inner.deepMarks
  | ⟨marks, _⟩ => marks

/-- The marks of some values and of all their parts. -/
def deepMarksAll : List Value → MarkSet
  | [] => .empty
  | v :: vs => v.deepMarks.union (deepMarksAll vs)

/-- The marks of some named values and of all their parts. -/
def deepMarksEntries : List (String × Value) → MarkSet
  | [] => .empty
  | (_, v) :: vs => v.deepMarks.union (deepMarksEntries vs)

end

end Value

end ValueAlgebra
