import ValueAlgebra.Fault

/-!
# Capsule types and their host

What a capsule type does with its native values is decided outside of this library. The host gives
the operations of each capsule type, and the function that condenses the traits of a value into a
hash. An operation that is not given falls back to the identity of native values.
-/

namespace ValueAlgebra

/-- What a capsule type does with its native values. -/
structure CapsuleOperations where
  /-- The text of a native value. -/
  render : Option (Native → Except Fault String) := none
  /-- Whether two native values are the same. -/
  rawEquals : Option (Native → Native → Bool) := none
  /-- Whether two native values are equal, as a value that may be undecided. -/
  equals : Option (Native → Native → Value) := none
  /-- A text that equal native values share. -/
  hashKey : Option (Native → String) := none
  /-- For the types it accepts, how a value becomes a native value. -/
  conversionFrom : Option (Ty → Option (Value → Path → Except Failure Native)) := none
  /-- For the types it offers, how a native value becomes a value. -/
  conversionTo : Option (Ty → Option (Native → Path → Except Failure Value)) := none

namespace CapsuleOperations

/-- Which operations are given. -/
def describe (o : CapsuleOperations) : String :=
  let field (name : String) (given : Bool) := name ++ ": " ++ if given then "true" else "false"
  "CapsuleOps \x7b " ++ Ty.commaSeparated
    [field "render" o.render.isSome, field "raw_equals" o.rawEquals.isSome,
      field "equals" o.equals.isSome, field "hash_key" o.hashKey.isSome,
      field "conversion_from" o.conversionFrom.isSome,
      field "conversion_to" o.conversionTo.isSome] ++ " \x7d"

/-- The operations of a capsule type have to be consistent: what is equal has to be told first by
`rawEquals`. -/
def check (o : CapsuleOperations) (name : String) : Except Fault Unit :=
  if o.equals.isSome && o.rawEquals.isNone then .error (.equalsWithoutRawEquals name) else .ok ()

end CapsuleOperations

/-- A trait of a value that counts for its hash. -/
inductive HashToken where
  | tag (n : Nat)
  | count (n : Nat)
  | number (n : Number)
  | text (s : String)
  | flag (b : Bool)
  | word (w : UInt64)
  | identity (path : List Nat)
deriving DecidableEq, Repr

/-- What the surroundings of this library decide. -/
class Host where
  /-- The hash of a sequence of traits. -/
  digest : List HashToken → UInt64
  /-- The operations of a capsule type. -/
  operations : CapsuleType → CapsuleOperations
  /-- The name of a kind of native values. -/
  nativeName : NativeKind → String

namespace CapsuleType

variable [Host]

def operations (c : CapsuleType) : CapsuleOperations :=
  Host.operations c

/-- The text of a native value. -/
def render (c : CapsuleType) (p : Payload) : Except Fault String :=
  match c.operations.render with
  | some render => render p.native
  | none => .ok ("capsule value of " ++ c.name)

/-- Whether two payloads are the same. -/
def rawEquals (c : CapsuleType) (p q : Payload) : Bool :=
  match c.operations.rawEquals with
  | some rawEquals => rawEquals p.native q.native
  | none => p.identity == q.identity

/-- Whether two payloads are equal, as a value that may be undecided. -/
def equals (c : CapsuleType) (p q : Payload) : Value :=
  match c.operations.equals with
  | some equals => equals p.native q.native
  | none => .bool (c.rawEquals p q)

/-- What counts for the hash of a payload. Where payloads are compared by something that has no
hash key, all of one type hash alike. -/
def hashTokens (c : CapsuleType) (p : Payload) : List HashToken :=
  match c.operations.hashKey, c.operations.rawEquals with
  | some hashKey, _ => [.text (hashKey p.native)]
  | none, some _ => [.count c.id]
  | none, none => [.identity p.identity]

end CapsuleType

end ValueAlgebra
