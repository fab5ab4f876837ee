import ValueAlgebra.Value.Basic

/-!
# Heights of values

The height of a value is how deeply it is nested. A part of a value is less high than the value, so
recursion on parts ends. An unknown that is not null counts for the list that it may turn out to be.
-/

namespace ValueAlgebra.Value

mutual

/-- How deeply a value is nested. -/
def height : Value → Nat
  | ⟨_, .unknown _ refinement⟩ => if refinement.nullness = .notNull then 2 else 1
  | ⟨_, .list _ items⟩ | ⟨_, .set _ items⟩ | ⟨_, .tuple items⟩ => heightAll items + 1
  | ⟨_, .map _ entries⟩ | ⟨_, .object entries⟩ => heightEntries entries + 1
  | ⟨_, .union _ _ inner⟩ => inner.height + 1
  | _ => 1

/-- How deeply some values are nested, at least one. -/
def heightAll : List Value → Nat
  | [] => 1
  | v :: vs => max v.height (heightAll vs)

/-- How deeply some named values are nested, at least one. -/
def heightEntries : List (String × Value) → Nat
  | [] => 1
  | (_, v) :: vs => max v.height (heightEntries vs)

end

theorem height_pos (v : Value) : 0 < v.height := by
  obtain ⟨marks, content⟩ := v
  cases content with
  | unknown => simp only [height]; split <;> omega
  | _ => simp [height]

end ValueAlgebra.Value
