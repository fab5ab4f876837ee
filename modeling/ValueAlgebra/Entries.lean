/-!
# Named entries

Attributes, variants and map elements are kept as lists of pairs, sorted by name and without a
repeated name, so that two collections with the same entries are the same list. `Entries.ofList`
makes such a list: of several entries of one name the last one wins. `Names.ofList` does the same
for bare names.
-/

namespace ValueAlgebra

namespace Entries

variable {α β : Type}

/-- Sets the entry of a name in a sorted list. -/
def insert (name : String) (a : α) : List (String × α) → List (String × α)
  | [] => [(name, a)]
  | (other, b) :: rest =>
    if name < other then (name, a) :: (other, b) :: rest
    else if name = other then (name, a) :: rest
    else (other, b) :: insert name a rest

/-- The sorted list of some entries. The last entry of a name wins. -/
def ofList (entries : List (String × α)) : List (String × α) :=
  entries.foldl (fun sorted entry => insert entry.1 entry.2 sorted) []

/-- The entries with a function applied to what they hold. -/
def mapValues (f : α → β) (entries : List (String × α)) : List (String × β) :=
  entries.map fun entry => (entry.1, f entry.2)

def names (entries : List (String × α)) : List String :=
  entries.map (·.1)

def values (entries : List (String × α)) : List α :=
  entries.map (·.2)

def contains (name : String) (entries : List (String × α)) : Bool :=
  (entries.lookup name).isSome

end Entries

namespace Names

/-- Adds a name to a sorted list, unless it is there. -/
def insert (name : String) : List String → List String
  | [] => [name]
  | other :: rest =>
    if name < other then name :: other :: rest
    else if name = other then other :: rest
    else other :: insert name rest

theorem mem_insert {name x : String} {names : List String} :
    x ∈ insert name names ↔ x = name ∨ x ∈ names := by
  induction names with
  | nil => simp [insert]
  | cons other rest ih =>
    unfold insert
    split
    · simp
    · split
      · rename_i h
        simp [h]
      · simp only [List.mem_cons, ih]
        grind

/-- Adding a name keeps a list sorted. -/
theorem sorted_insert {name : String} {names : List String} (h : names.Pairwise (· < ·)) :
    (insert name names).Pairwise (· < ·) := by
  induction names with
  | nil => simp [insert]
  | cons other rest ih =>
    rw [List.pairwise_cons] at h
    unfold insert
    split
    · rename_i lt
      refine List.pairwise_cons.2 ⟨fun x hx => ?_, List.pairwise_cons.2 h⟩
      rcases List.mem_cons.1 hx with rfl | hx
      · exact lt
      · exact String.lt_trans lt (h.1 x hx)
    · split
      · exact List.pairwise_cons.2 h
      · rename_i notLt notEq
        refine List.pairwise_cons.2 ⟨fun x hx => ?_, ih h.2⟩
        rcases mem_insert.1 hx with rfl | hx
        · grind [String.le_antisymm, String.not_le, String.not_lt]
        · exact h.1 x hx

/-- The sorted list of some names, each of them once. -/
def ofList (names : List String) : List String :=
  names.foldl (fun sorted name => insert name sorted) []

end Names

end ValueAlgebra
