import ValueAlgebra.Ty.Basic

/-!
# Weights of types

The weight of a type counts the types in it. Recursion on the parts of types, and on lists of parts
of several types, ends because weights fall.
-/

namespace ValueAlgebra.Ty

mutual

/-- The number of types in a type. -/
def weight : Ty → Nat
  | .list e | .set e | .map e => e.weight + 1
  | .object attributes _ => weightEntries attributes + 1
  | .tuple elements => weightAll elements + 1
  | .union variants => weightEntries variants + 1
  | _ => 1

/-- The number of types in some types. -/
def weightAll : List Ty → Nat
  | [] => 0
  | t :: ts => t.weight + weightAll ts

/-- The number of types in some named types. -/
def weightEntries : List (String × Ty) → Nat
  | [] => 0
  | (_, t) :: ts => t.weight + weightEntries ts

end

theorem weight_pos (t : Ty) : 0 < t.weight := by
  cases t <;> simp [weight]

theorem weightAll_append (ts us : List Ty) :
    weightAll (ts ++ us) = weightAll ts + weightAll us := by
  induction ts with
  | nil => simp [weightAll]
  | cons t ts ih => simp [weightAll, ih, Nat.add_assoc]

theorem weightAll_values (ts : List (String × Ty)) :
    weightAll (Entries.values ts) = weightEntries ts := by
  induction ts with
  | nil => rfl
  | cons t ts ih =>
    obtain ⟨name, t⟩ := t
    simp only [Entries.values, List.map_cons, weightAll, weightEntries] at ih ⊢
    rw [ih]

theorem weight_le_of_mem {t : Ty} {ts : List Ty} (h : t ∈ ts) : t.weight ≤ weightAll ts := by
  induction ts with
  | nil => cases h
  | cons u us ih =>
    rw [weightAll]
    rcases List.mem_cons.1 h with rfl | h
    · omega
    · have := ih h
      omega

theorem weight_le_of_lookup {name : String} {t : Ty} {ts : List (String × Ty)}
    (h : ts.lookup name = some t) : t.weight ≤ weightEntries ts := by
  induction ts with
  | nil => cases h
  | cons u us ih =>
    obtain ⟨other, u⟩ := u
    rw [weightEntries]
    rw [List.lookup_cons] at h
    split at h
    · cases h
      omega
    · have := ih h
      omega

/-! ## Parts of types -/

/-- Parts of a type that weigh less than the type. -/
structure Parts where
  of : Ty → List Ty
  weight_lt : ∀ t, weightAll (of t) < t.weight

/-- The parts of some types that weigh less. -/
def Parts.all (parts : Parts) (types : List Ty) : List Ty :=
  types.flatMap parts.of

theorem Parts.weightAll_all_le (parts : Parts) (types : List Ty) :
    weightAll (parts.all types) + types.length ≤ weightAll types := by
  induction types with
  | nil => simp [all, weightAll]
  | cons t ts ih =>
    have := parts.weight_lt t
    simp only [all, List.flatMap_cons, weightAll_append, weightAll, List.length_cons] at ih ⊢
    omega

theorem Parts.weightAll_all_lt (parts : Parts) (first : Ty) (rest : List Ty) :
    weightAll (parts.all (first :: rest)) < weightAll (first :: rest) := by
  have := parts.weightAll_all_le (first :: rest)
  rw [List.length_cons] at this
  omega

/-- The element type of a collection. -/
def elementPart : Parts where
  of
    | .list e | .set e | .map e => [e]
    | _ => []
  weight_lt t := by cases t <;> simp [weightAll, weight]

theorem weightAll_lookup_lt (attributes : List (String × Ty)) (optional : List String) (name : String) :
    weightAll (attributes.lookup name).toList < weight (.object attributes optional) := by
  cases h : attributes.lookup name with
  | none => simp [weightAll, weight]
  | some a =>
    have := weight_le_of_lookup h
    simp only [Option.toList, weightAll, weight]
    omega

theorem weightAll_getElem?_lt (elements : List Ty) (i : Nat) :
    weightAll elements[i]?.toList < weight (.tuple elements) := by
  cases h : elements[i]? with
  | none => simp [weightAll, weight]
  | some a =>
    have := weight_le_of_mem (List.mem_of_getElem? h)
    simp only [Option.toList, weightAll, weight]
    omega

/-- The attribute of a name. -/
def attributePart (name : String) : Parts where
  of
    | .object attributes _ => (attributes.lookup name).toList
    | _ => []
  weight_lt t := by
    cases t with
    | object attributes optional => exact weightAll_lookup_lt attributes optional name
    | _ => simp [weightAll, weight]

/-- The element at a position of a tuple. -/
def itemPart (i : Nat) : Parts where
  of
    | .tuple elements => elements[i]?.toList
    | _ => []
  weight_lt t := by
    cases t with
    | tuple elements => exact weightAll_getElem?_lt elements i
    | _ => simp [weightAll, weight]

/-- What the elements of a map made of a map or an object can be: the elements of the map, the
attributes of the object. -/
def entryParts : Parts where
  of
    | .map e => [e]
    | .object attributes _ => Entries.values attributes
    | _ => []
  weight_lt t := by cases t <;> simp [weightAll, weight, weightAll_values]

/-- The elements of a tuple. -/
def itemParts : Parts where
  of
    | .tuple elements => elements
    | _ => []
  weight_lt t := by cases t <;> simp [weightAll, weight]

end ValueAlgebra.Ty
