import ValueAlgebra.Ty.Generality

/-!
# The order in which types are preferred

`Ty.preferenceOrder` lists the positions of some types with more general ones first. It counts for
each position how many positions above it are still to be placed. Those that wait for none are
ready, and the least one of them is placed next. What is in or behind a cycle of the relation never
gets ready and comes last.
-/

namespace ValueAlgebra.Ty

/-- Whether the type at one position is more general than the type at another one. Each two types
are compared once, the one that stands first with the one that stands second. -/
def ranksAbove (types : List Ty) (i j : Nat) : Bool :=
  match types[i]?, types[j]? with
  | some a, some b =>
    if i < j then a.generality b == .gt
    else if j < i then b.generality a == .lt
    else false
  | _, _ => false

/-- The positions below a position. -/
def positionsBelow (types : List Ty) (i : Nat) : List Nat :=
  (List.range types.length).filter (ranksAbove types i)

/-- Positions on their way into an order. -/
structure Queue where
  /-- For each position, the number of positions above it that are still to be placed. -/
  waiting : List Nat
  /-- The positions that are to be placed next, the least one first. -/
  ready : List Nat
  /-- For each position, whether it is placed. -/
  done : List Bool
  /-- The positions that are placed, in their order. -/
  placed : List Nat

namespace Queue

/-- No position is placed yet. -/
def start (types : List Ty) : Queue :=
  let positions := List.range types.length
  let waiting := positions.map fun j => positions.countP fun i => ranksAbove types i j
  { waiting
    ready := positions.filter fun j => waiting[j]? == some 0
    done := positions.map fun _ => false
    placed := [] }

/-- A position waits for one less. If this was the last one, it is ready. -/
def release (q : Queue) (j : Nat) : Queue :=
  let q := { q with waiting := q.waiting.modify j (· - 1) }
  if q.waiting[j]? = some 0 ∧ q.done[j]? = some false then
    { q with ready := (q.ready ++ [j]).mergeSort }
  else q

/-- Places the first one of the positions that are ready. -/
def place (types : List Ty) (q : Queue) (i : Nat) (rest : List Nat) : Queue :=
  (positionsBelow types i).foldl release
    { q with ready := rest, done := q.done.set i true, placed := q.placed ++ [i] }

/-- Releasing positions places none. -/
theorem kept_release (q : Queue) (j : Nat) :
    (q.release j).done = q.done ∧ (q.release j).placed = q.placed := by
  unfold release
  dsimp only
  split <;> exact ⟨rfl, rfl⟩

theorem kept_foldl_release (js : List Nat) (q : Queue) :
    (js.foldl release q).done = q.done ∧ (js.foldl release q).placed = q.placed := by
  induction js generalizing q with
  | nil => exact ⟨rfl, rfl⟩
  | cons j js ih =>
    obtain ⟨done, placed⟩ := kept_release q j
    rw [List.foldl_cons, (ih _).1, (ih _).2]
    exact ⟨done, placed⟩

@[simp] theorem done_place (types : List Ty) (q : Queue) (i : Nat) (rest : List Nat) :
    (q.place types i rest).done = q.done.set i true :=
  (kept_foldl_release _ _).1

@[simp] theorem placed_place (types : List Ty) (q : Queue) (i : Nat) (rest : List Nat) :
    (q.place types i rest).placed = q.placed ++ [i] :=
  (kept_foldl_release _ _).2

/-- Fewer positions are left where one is placed. -/
theorem count_set_lt {done : List Bool} {i : Nat} (h : done[i]? = some false) :
    (done.set i true).count false < done.count false := by
  obtain ⟨lt, eq⟩ := List.getElem?_eq_some_iff.1 h
  have pos : 0 < done.count false := List.count_pos_iff.2 (List.mem_of_getElem? h)
  have count : (done.set i true).count false = done.count false - 1 := by
    rw [List.count_set lt, eq]
    rfl
  omega

/-- Places positions until none is ready. -/
def run (types : List Ty) (q : Queue) : Queue :=
  match _ : q.ready with
  | [] => q
  | i :: rest =>
    if q.done[i]? = some false then run types (q.place types i rest)
    else run types { q with ready := rest }
termination_by (q.done.count false, q.ready.length)
decreasing_by
  · have := count_set_lt ‹q.done[i]? = some false›
    simp only [done_place, Prod.lex_def]
    omega
  · simp [‹q.ready = i :: rest›, Prod.lex_def]

end Queue

/-- The positions of some types, a more general type before a less general one. Positions in or
behind a cycle of the relation come last. -/
def preferenceOrder (types : List Ty) : List Nat :=
  let q := (Queue.start types).run types
  q.placed ++ (List.range types.length).filter fun i => q.done[i]? == some false

end ValueAlgebra.Ty
