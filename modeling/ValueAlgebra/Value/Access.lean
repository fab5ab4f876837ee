import ValueAlgebra.Value.Build

/-!
# Taking values apart

What a value holds can be read where the value is known, not null and has no marks of its own. The
operations that answer with a value, such as `Value.index`, take marks and unknown values too: the
marks go to the answer, and an unknown value gives an unknown answer of the right type.
-/

namespace ValueAlgebra.Value

/-- Applies an operation to what a value holds. The value has to be known, not null and without
marks. -/
def reading {α : Type} (operation : String) (v : Value) (read : Content → Option α) :
    Except Fault α :=
  if v.isMarked then .error (.obstacle operation .marked)
  else if !v.isKnown then .error (.obstacle operation .unknown)
  else if v.isNull then .error (.obstacle operation .null)
  else
    match read v.content with
    | some a => .ok a
    | none => .error (.wrongContent operation v.ty)

def asString (v : Value) : Except Fault String :=
  v.reading "as_string" fun
    | .string s => some s
    | _ => none

def asNumber (v : Value) : Except Fault Number :=
  v.reading "as_number" fun
    | .number n => some n
    | _ => none

def asBool (v : Value) : Except Fault Bool :=
  v.reading "as_bool" fun
    | .bool b => some b
    | _ => none

/-! ## Elements -/

/-- Numbers from `start` on as keys. -/
def numbered (start : Nat) : List Value → List (Value × Value)
  | [] => []
  | v :: vs => (ofNat start, v) :: numbered (start + 1) vs

/-- Names as keys. -/
def keyed (entries : List (String × Value)) : List (Value × Value) :=
  entries.map fun entry => (string entry.1, entry.2)

/-- The elements of a content with their keys: numbers in a list, tuple or set, and strings in a map
or object. -/
def elements? : Content → Option (List (Value × Value))
  | .list _ items | .tuple items | .set _ items => some (numbered 0 items)
  | .map _ entries | .object entries => some (keyed entries)
  | _ => none

def elements (v : Value) : Except Fault (List (Value × Value)) :=
  v.reading "element_iter" elements?

/-- The elements in order, without their keys. -/
def toList (v : Value) : Except Fault (List Value) :=
  v.elements.map fun es => es.map (·.2)

/-- The entries of a map or the attributes of an object. -/
def entries (v : Value) : Except Fault (List (String × Value)) :=
  v.reading "as_value_map" fun
    | .map _ entries | .object entries => some entries
    | _ => none

/-- Whether `Value.elements` gives the elements of a value, its marks apart. -/
def canIterate (v : Value) : Bool :=
  (elements? v.content).isSome

/-- The number of elements of a content. -/
def size? : Content → Option Nat
  | .list _ items | .tuple items | .set _ items => some items.length
  | .map _ entries | .object entries => some entries.length
  | _ => none

def size (v : Value) : Except Fault Nat :=
  v.reading "length_int" size?

/-- The chosen variant of a union and what it holds. -/
def variant (v : Value) : Except Fault (String × Value) :=
  v.reading "union_variant" fun
    | .union _ variant inner => some (variant, inner)
    | _ => none

/-- The payload of a capsule, for an operation of this name. -/
def payload (operation : String) (v : Value) : Except Fault Payload :=
  v.reading operation fun
    | .capsule _ p => some p
    | _ => none

/-! ## Operations that answer with a value -/

/-- The number of elements of a value without marks. -/
def lengthBare (v : Value) : Except Fault Value :=
  match v.ty with
  | .tuple elements => .ok (ofNat elements.length)
  | .dynamic => (unknown .number).refineNotNull
  | t =>
    if !v.isKnown || (t.isSet && !v.isWhollyKnown) then do
      let r := v.range.refinement
      let s ← (unknown .number).refine.notNull
      let s ← s.atLeast (ofNat r.minLength) true
      let s ← match r.maxLength with
        | none => pure s
        | some max => s.atMost (ofNat max) true
      s.result
    else v.size.map ofNat

/-- The number of elements, as a number value. The length of an unknown collection is unknown within
the bounds of its refinement. -/
def length (v : Value) : Except Fault Value :=
  v.unmark.lengthBare.map fun answer => answer.withMarks v.marks

/-- An attribute of a value without marks. -/
def attributeBare (v : Value) (name : String) : Except Fault Value :=
  let part? := match v.ty with
    | .object attributes _ => attributes.lookup name
    | .union variants => variants.lookup name
    | _ => none
  match v.ty, part? with
  | .dynamic, _ => .ok dynamic
  | t, none => .error (.noAttribute t name)
  | t, some part =>
    match v.content with
    | .unknown _ _ => .ok (unknown part.withoutOptional)
    | .object attributes =>
      match attributes.lookup name with
      | some a => .ok a
      | none => .error (.noAttribute t name)
    | .union _ variant inner =>
      .ok (if variant = name then inner else null part.withoutOptional)
    | _ => .error (.attributeOfNull name)

/-- An attribute of an object. A union has its chosen variant and a null for each other one. -/
def attr (v : Value) (name : String) : Except Fault Value :=
  (v.unmark.attributeBare name).map fun answer => answer.withMarks v.marks

/-- The element of a known list or tuple at a known number. -/
def itemAt (t : Ty) (content : Content) (key : Number) : Except Fault Value :=
  let pick (items : List Value) : Except Fault Value :=
    match key.toWord?.bind fun i => items[i]? with
    | some v => .ok v
    | none => .error (.indexOutOfRange key)
  match content with
  | .list _ items | .tuple items => pick items
  | _ => .error (.indexOfNull t)

/-- The element of a value without marks at a key without marks. -/
def indexBare (v key : Value) : Except Fault Value :=
  if v.ty = .dynamic ∨ key.ty = .dynamic then .ok dynamic
  else if key.isNull then .error .nullKey
  else
    match v.ty with
    | .list e =>
      match key.content with
      | .number n => if v.isKnown then itemAt (.list e) v.content n else .ok (unknown e)
      | _ => if key.ty = .number then .ok (unknown e) else .error (.listIndexType key.ty)
    | .tuple types =>
      match key.content with
      | .number n =>
        match n.toWord? with
        | none => .error .tupleIndexNotWhole
        | some i =>
          match types[i]? with
          | none => .error (.tupleIndexOutOfRange i)
          | some t => if v.isKnown then itemAt (.tuple types) v.content n else .ok (unknown t)
      | _ => if key.ty = .number then .ok dynamic else .error (.tupleIndexType key.ty)
    | .map e =>
      match key.content with
      | .string k =>
        match v.content with
        | .unknown _ _ => .ok (unknown e)
        | .map _ entries =>
          match entries.lookup k with
          | some a => .ok a
          | none => .error (.noEntry k)
        | _ => .error .indexOfNullMap
      | _ => if key.ty = .string then .ok (unknown e) else .error (.mapKeyType key.ty)
    | t => .error (.wrongContent "index" t)

/-- The element of a list, tuple or map at a key. -/
def index (v key : Value) : Except Fault Value :=
  (v.unmark.indexBare key.unmark).map fun answer =>
    (answer.withMarks v.marks).withMarks key.marks

/-- Whether a value without marks has an element at a key without marks. -/
def hasIndexBare (v key : Value) : Except Fault Value :=
  if v.ty = .dynamic ∨ key.ty = .dynamic then .ok undecided
  else
    match v.ty with
    | .list _ | .tuple _ =>
      if key.ty ≠ .number then .ok (bool false)
      else
        match key.content with
        | .unknown _ _ => .ok undecided
        | .number n =>
          match n.toWord?, v.ty, v.content with
          | none, _, _ => .ok (bool false)
          | some i, .tuple types, _ => .ok (bool (i < types.length))
          | some _, _, .unknown _ _ => .ok undecided
          | some i, _, .list _ items => .ok (bool (i < items.length))
          | some _, _, _ => .ok (bool false)
        | _ => .ok (bool false)
    | .map _ =>
      if key.ty ≠ .string then .ok (bool false)
      else
        match v.content, key.content with
        | .unknown _ _, _ | _, .unknown _ _ => .ok undecided
        | .map _ entries, .string k => .ok (bool (Entries.contains k entries))
        | _, _ => .ok (bool false)
    | t => .error (.wrongContent "has_index" t)

/-- Whether `Value.index` finds an element at a key, as a bool value. -/
def hasIndex (v key : Value) : Except Fault Value :=
  (v.unmark.hasIndexBare key.unmark).map fun answer =>
    (answer.withMarks v.marks).withMarks key.marks

variable [Host]

/-- Whether an element is found among those of a set. -/
def foundIn (e : Value) (items : List Value) : Bool :=
  items.any fun x => x.hash == e.hash && (x.equals e).isKnownTrue

/-- Whether a set without marks contains an element without marks of its own. -/
def hasElementBare (v e : Value) : Except Fault Value :=
  match v.ty with
  | .set t =>
    if e.ty ≠ t ∧ e.ty ≠ .dynamic ∧ t ≠ .dynamic then .ok (bool false)
    else if !v.isKnown || !e.isKnown then .ok undecided
    else
      match v.content with
      | .set _ items =>
        .ok <| if foundIn e items then bool true
          else if !allWhollyKnown items || !e.isWhollyKnown then undecided
          else bool false
      | _ => .error .elementOfNullSet
  | t => .error (.wrongContent "has_element" t)

/-- Whether a set contains an element, as a bool value. -/
def hasElement (v e : Value) : Except Fault Value :=
  if v.isMarked || e.isMarked then
    (v.unmark.hasElementBare e.unmarkDeep).map fun answer =>
      (answer.withMarks v.marks).withMarks e.deepMarks
  else v.hasElementBare e

end ValueAlgebra.Value
