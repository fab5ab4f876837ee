import ValueAlgebra.Fault

/-!
# Plans of conversions

A conversion is planned on types alone and then carried out on values. A `Conversion` is such a
plan. Toward a target type, its rule says what happens to a value that is known and not null, with
the conversions of the parts.
-/

namespace ValueAlgebra

/-- Which conversions are allowed. -/
inductive Mode where
  /-- Those that no value can fail. -/
  | safe
  /-- Those that some values fail, too. -/
  | lenient
deriving DecidableEq, Repr

/-- Conversions between primitive types. -/
inductive PrimitiveRule where
  | numberToString
  | boolToString
  | stringToNumber
  | stringToBool
deriving DecidableEq, Repr

/-- What a conversion does to a value that is known and not null. `γ` is the type of the conversions
of parts. -/
inductive Rule (γ : Type) where
  /-- Keeps the value. -/
  | keep
  /-- Plans again, with the type that the value turns out to have. -/
  | decideLater
  | primitive (rule : PrimitiveRule)
  /-- An object to an object. Absent attributes become null. -/
  | object (attributes : List (String × γ)) (absent : List (String × Ty))
  /-- A tuple to a tuple. -/
  | tuple (elements : List γ)
  /-- A collection to a collection with elements of a wanted type. -/
  | collection (kind : CollectionKind) (mode : Mode) (element : γ) (wanted : Ty)
  /-- A tuple to a list or set with elements of a wanted type. -/
  | gather (kind : CollectionKind) (mode : Mode) (elements : List γ) (wanted : Ty)
  /-- An object without attributes to a map. -/
  | emptyMap (wanted : Ty)
  /-- An object to a map. -/
  | entries (mode : Mode) (attributes : List (String × γ))
  /-- A map to an object with these attributes, of which some are optional. -/
  | pick (conversions : List (String × γ)) (attributes : List (String × Ty))
    (optional : List String)
  /-- A union to a union. -/
  | union (variants : List (String × γ))
  /-- An object with one attribute that is not null to a union. -/
  | select (variants : List (String × γ))
  /-- A value to a capsule, in the way of the capsule type. -/
  | intoCapsule (accept : Value → Path → Except Failure Native)
  /-- A capsule to a value, in the way of the capsule type. -/
  | outOfCapsule (offer : Native → Path → Except Failure Value)

/-- A planned conversion. -/
inductive Conversion where
  /-- Forgets all but the marks of a value. -/
  | forget
  | toward (target : Ty) (rule : Rule Conversion)

/-- A type for all of some types, with the conversions into it. A type that needs no conversion has
none. -/
structure Unification where
  target : Ty
  conversions : List (Option Conversion)

end ValueAlgebra
