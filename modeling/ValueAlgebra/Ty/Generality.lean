import ValueAlgebra.Ty.Basic

/-!
# Generality of types

`Ty.generality a b` is `gt` where `a` is the more general of two types, so that values of type `b`
are expected to become values of type `a` without a loss. Unrelated types compare equal. The
relation need not be transitive, since the parts of structures vote.
-/

namespace ValueAlgebra.Ty

/-- A vote of a part of two structures. -/
def vote : Ordering → Int
  | .gt => 1
  | .eq => 0
  | .lt => -1

/-- Where two collections are otherwise equally general, the first one has `tie` over the second
one. -/
def breakTie (tie : Ordering) : Ordering → Ordering
  | .eq => tie
  | o => o

theorem sizeOf_values_le (entries : List (String × Ty)) :
    sizeOf (Entries.values entries) ≤ sizeOf entries := by
  induction entries with
  | nil => exact Nat.le_refl _
  | cons entry entries ih =>
    obtain ⟨name, t⟩ := entry
    simp only [Entries.values, List.map_cons, List.cons.sizeOf_spec, Prod.mk.sizeOf_spec] at ih ⊢
    omega

mutual

/-- Which of two types is the more general one. Every primitive has a form as a string, and every
structure one as a collection. -/
def generality : Ty → Ty → Ordering
  | .dynamic, .dynamic => .eq
  | .dynamic, _ => .gt
  | _, .dynamic => .lt
  | .string, .number | .string, .bool => .gt
  | .number, .string | .bool, .string => .lt
  | .list a, .list b => a.generality b
  | .set a, .set b => a.generality b
  | .map a, .map b => a.generality b
  | .list a, .set b => breakTie .gt (a.generality b)
  | .set a, .list b => (breakTie .gt (b.generality a)).swap
  | .list _, .tuple _ | .set _, .tuple _ => .gt
  | .tuple _, .list _ | .tuple _, .set _ => .lt
  | .map _, .object _ _ => .gt
  | .object _ _, .map _ => .lt
  | .object as _, .object bs _ =>
    if Entries.names as = Entries.names bs then compare (balanceEntries as (Entries.values bs)) 0
    else .eq
  | .tuple as, .tuple bs => if as.length = bs.length then compare (balance as bs) 0 else .eq
  | _, _ => .eq
termination_by a b => sizeOf a + sizeOf b
decreasing_by
  -- The five goals of collections come before the one of objects.
  rotate_left 5
  have := sizeOf_values_le bs
  all_goals
    simp only [Ty.list.sizeOf_spec, Ty.set.sizeOf_spec, Ty.map.sizeOf_spec, Ty.object.sizeOf_spec,
      Ty.tuple.sizeOf_spec]
    omega

/-- The sum of the votes of parts one by one. -/
def balance : List Ty → List Ty → Int
  | a :: as, b :: bs => vote (a.generality b) + balance as bs
  | _, _ => 0
termination_by as bs => sizeOf as + sizeOf bs

/-- The sum of the votes of named parts one by one. -/
def balanceEntries : List (String × Ty) → List Ty → Int
  | (_, a) :: as, b :: bs => vote (a.generality b) + balanceEntries as bs
  | _, _ => 0
termination_by as bs => sizeOf as + sizeOf bs

end

end ValueAlgebra.Ty
