import ValueAlgebra.Entries

/-!
# Types

A type says what a value can be: a primitive, a collection whose elements have one type, a
structure with a type for each part, one of several named variants, or a capsule around a native
value. A type that holds `dynamic` is a constraint that leaves these parts open.

`Ty.conforms` tells whether two types leave room for a common one. Equality of types is decided by
`Ty.beq`; attributes and variants are compared as sorted lists, which the constructors of
`ValueAlgebra.Ty.Build` make.
-/

namespace ValueAlgebra

/-- The kinds of native values that capsules hold. -/
inductive NativeKind where
  | integer
  | text
deriving DecidableEq, Repr

/-- A capsule type. Two capsule types of one name are told apart by their number. -/
structure CapsuleType where
  /-- The number of the type among all capsule types. -/
  id : Nat
  /-- The name shown to users. -/
  name : String
  /-- The native values that its capsules hold. -/
  native : NativeKind
deriving DecidableEq, Repr

/-- A type, or a constraint on types where it holds `dynamic`. -/
inductive Ty where
  | number
  | string
  | bool
  /-- Any type. -/
  | dynamic
  | list (element : Ty)
  | set (element : Ty)
  | map (element : Ty)
  /-- Named attributes. A conversion may leave out those that are listed as optional. -/
  | object (attributes : List (String × Ty)) (optional : List String)
  | tuple (elements : List Ty)
  /-- One of several named variants. -/
  | union (variants : List (String × Ty))
  | capsule (type : CapsuleType)
deriving Repr

namespace Ty

instance : Inhabited Ty := ⟨.dynamic⟩

/-! ## Equality -/

mutual

/-- Whether two types are the same. -/
def beq : Ty → Ty → Bool
  | .number, .number => true
  | .string, .string => true
  | .bool, .bool => true
  | .dynamic, .dynamic => true
  | .list a, .list b => a.beq b
  | .set a, .set b => a.beq b
  | .map a, .map b => a.beq b
  | .object as os, .object bs ps => beqEntries as bs && os == ps
  | .tuple as, .tuple bs => beqAll as bs
  | .union as, .union bs => beqEntries as bs
  | .capsule c, .capsule d => c == d
  | _, _ => false

/-- Whether two lists of types are the same. -/
def beqAll : List Ty → List Ty → Bool
  | [], [] => true
  | a :: as, b :: bs => a.beq b && beqAll as bs
  | _, _ => false

/-- Whether two lists of named types are the same. -/
def beqEntries : List (String × Ty) → List (String × Ty) → Bool
  | [], [] => true
  | (k, a) :: as, (l, b) :: bs => k == l && a.beq b && beqEntries as bs
  | _, _ => false

end

mutual

theorem eq_of_beq : ∀ {a b : Ty}, a.beq b = true → a = b
  | .number, b, h => by cases b <;> simp_all [beq]
  | .string, b, h => by cases b <;> simp_all [beq]
  | .bool, b, h => by cases b <;> simp_all [beq]
  | .dynamic, b, h => by cases b <;> simp_all [beq]
  | .list a, .list b, h => by
    rw [beq] at h
    rw [eq_of_beq h]
  | .set a, .set b, h => by
    rw [beq] at h
    rw [eq_of_beq h]
  | .map a, .map b, h => by
    rw [beq] at h
    rw [eq_of_beq h]
  | .object as os, .object bs ps, h => by
    simp only [beq, Bool.and_eq_true, beq_iff_eq] at h
    rw [eq_of_beqEntries h.1, h.2]
  | .tuple as, .tuple bs, h => by
    rw [beq] at h
    rw [eq_of_beqAll h]
  | .union as, .union bs, h => by
    rw [beq] at h
    rw [eq_of_beqEntries h]
  | .capsule c, .capsule d, h => by simp_all [beq]

theorem eq_of_beqAll : ∀ {as bs : List Ty}, beqAll as bs = true → as = bs
  | [], [], _ => rfl
  | a :: as, b :: bs, h => by
    simp only [beqAll, Bool.and_eq_true] at h
    rw [eq_of_beq h.1, eq_of_beqAll h.2]

theorem eq_of_beqEntries : ∀ {as bs : List (String × Ty)}, beqEntries as bs = true → as = bs
  | [], [], _ => rfl
  | (k, a) :: as, (l, b) :: bs, h => by
    simp only [beqEntries, Bool.and_eq_true, beq_iff_eq] at h
    rw [h.1.1, eq_of_beq h.1.2, eq_of_beqEntries h.2]

end

mutual

theorem beq_self : ∀ a : Ty, a.beq a = true
  | .number => rfl
  | .string => rfl
  | .bool => rfl
  | .dynamic => rfl
  | .list a => by rw [beq, beq_self a]
  | .set a => by rw [beq, beq_self a]
  | .map a => by rw [beq, beq_self a]
  | .object as os => by simp [beq, beqEntries_self as]
  | .tuple as => by rw [beq, beqAll_self as]
  | .union as => by rw [beq, beqEntries_self as]
  | .capsule c => by simp [beq]

theorem beqAll_self : ∀ as : List Ty, beqAll as as = true
  | [] => rfl
  | a :: as => by rw [beqAll, beq_self a, beqAll_self as]; rfl

theorem beqEntries_self : ∀ as : List (String × Ty), beqEntries as as = true
  | [] => rfl
  | (k, a) :: as => by simp [beqEntries, beq_self a, beqEntries_self as]

end

theorem beq_iff {a b : Ty} : a.beq b = true ↔ a = b :=
  ⟨eq_of_beq, fun h => h ▸ beq_self a⟩

instance : DecidableEq Ty := fun _ _ => decidable_of_iff _ beq_iff

/-! ## Kinds of types -/

def isPrimitive : Ty → Bool
  | .number | .string | .bool => true
  | _ => false

def isList : Ty → Bool
  | .list _ => true
  | _ => false

def isSet : Ty → Bool
  | .set _ => true
  | _ => false

def isMap : Ty → Bool
  | .map _ => true
  | _ => false

/-- The element type of a list, set or map. -/
def element? : Ty → Option Ty
  | .list e | .set e | .map e => some e
  | _ => none

def isCollection (t : Ty) : Bool :=
  t.element?.isSome

def isObject : Ty → Bool
  | .object _ _ => true
  | _ => false

def isTuple : Ty → Bool
  | .tuple _ => true
  | _ => false

def isUnion : Ty → Bool
  | .union _ => true
  | _ => false

def isCapsule : Ty → Bool
  | .capsule _ => true
  | _ => false

def isDynamic : Ty → Bool
  | .dynamic => true
  | _ => false

/-- Whether a type is an object with an attribute of this name. -/
def hasAttribute (name : String) : Ty → Bool
  | .object attributes _ => Entries.contains name attributes
  | _ => false

/-! ## Dynamic parts -/

mutual

/-- Whether `dynamic` stands anywhere in a type. -/
def hasDynamic : Ty → Bool
  | .dynamic => true
  | .list e | .set e | .map e => e.hasDynamic
  | .object attributes _ => anyHasDynamicEntry attributes
  | .tuple elements => anyHasDynamic elements
  | .union variants => anyHasDynamicEntry variants
  | _ => false

/-- Whether `dynamic` stands anywhere in a list of types. -/
def anyHasDynamic : List Ty → Bool
  | [] => false
  | t :: ts => t.hasDynamic || anyHasDynamic ts

/-- Whether `dynamic` stands anywhere in a list of named types. -/
def anyHasDynamicEntry : List (String × Ty) → Bool
  | [] => false
  | (_, t) :: ts => t.hasDynamic || anyHasDynamicEntry ts

end

/-! ## Optional attributes -/

mutual

/-- The type with every attribute required, at every depth. This is the type of a value. -/
def withoutOptional : Ty → Ty
  | .list e => .list e.withoutOptional
  | .set e => .set e.withoutOptional
  | .map e => .map e.withoutOptional
  | .object attributes _ => .object (withoutOptionalEntries attributes) []
  | .tuple elements => .tuple (withoutOptionalAll elements)
  | .union variants => .union (withoutOptionalEntries variants)
  | t => t

/-- The types with every attribute required. -/
def withoutOptionalAll : List Ty → List Ty
  | [] => []
  | t :: ts => t.withoutOptional :: withoutOptionalAll ts

/-- The named types with every attribute required. -/
def withoutOptionalEntries : List (String × Ty) → List (String × Ty)
  | [] => []
  | (name, t) :: ts => (name, t.withoutOptional) :: withoutOptionalEntries ts

end

/-! ## Conformance -/

mutual

/-- Whether a value of the first type could satisfy the second one, with `dynamic` on either side
taken for any type. -/
def conforms : Ty → Ty → Bool
  | .dynamic, _ => true
  | _, .dynamic => true
  | .list a, .list b => a.conforms b
  | .set a, .set b => a.conforms b
  | .map a, .map b => a.conforms b
  | .object as _, .object bs _ => as.length == bs.length && conformsEntries as bs
  | .tuple as, .tuple bs => conformsAll as bs
  | .union as, .union bs => as.length == bs.length && conformsEntries as bs
  | a, b => a == b

/-- Whether types conform one by one. -/
def conformsAll : List Ty → List Ty → Bool
  | [], [] => true
  | a :: as, b :: bs => a.conforms b && conformsAll as bs
  | _, _ => false

/-- Whether each of some named types conforms to the one of its name. -/
def conformsEntries : List (String × Ty) → List (String × Ty) → Bool
  | [], _ => true
  | (name, a) :: as, bs =>
    (match bs.lookup name with
      | some b => a.conforms b
      | none => false) && conformsEntries as bs

end

end Ty

end ValueAlgebra
