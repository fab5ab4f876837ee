import ValueAlgebra.Proofs.Generality
import ValueAlgebra.Ty.Preference

/-!
# What the order of preference is

Generality is not transitive and can run in cycles, so there need not be an order of all positions
that has each one after the positions above it. There is one of those that are neither in a cycle
nor behind one, and `Ty.preferenceOrder` begins with the least one of these in the order of
dictionaries.

A queue is sound (`Ty.Queue.Sound`) where it counts right and has all positions ready that wait for
none. Placing a position keeps a queue sound, and `Ty.Queue.Sound.run_induction` derives from what
each placed position is what a whole run does.

Main statement:

* `Ty.preferenceOrder_arranges`: the order is a permutation of all positions, made of the least
  arrangement of those that are not tangled in a cycle and of the others in increasing order.
-/

namespace ValueAlgebra.Ty

variable {types : List Ty} {placed : List Nat} {i j k : Nat}

/-! ## Positions above each other -/

/-- The type at one position is more general than the type at another one. -/
def Above (types : List Ty) (i j : Nat) : Prop :=
  ∃ a b, types[i]? = some a ∧ types[j]? = some b ∧ a.generality b = .gt

theorem Above.left_lt (h : Above types i j) : i < types.length := by
  obtain ⟨a, -, ha, -, -⟩ := h
  exact (List.getElem?_eq_some_iff.1 ha).1

theorem Above.right_lt (h : Above types i j) : j < types.length := by
  obtain ⟨-, b, -, hb, -⟩ := h
  exact (List.getElem?_eq_some_iff.1 hb).1

/-- It does not matter which one of two types is compared with the other one. -/
theorem ranksAbove_iff : ranksAbove types i j = true ↔ Above types i j := by
  unfold ranksAbove Above
  cases ha : types[i]? with
  | none => simp
  | some a =>
    cases hb : types[j]? with
    | none => simp
    | some b =>
      simp only [Option.some.injEq, exists_and_left, exists_eq_left']
      rcases lt_trichotomy i j with lt | rfl | lt
      · rw [if_pos lt, beq_iff_eq]
      · rw [ha] at hb
        cases hb
        simp [Std.ReflCmp.compare_self]
      · rw [if_neg (by omega), if_pos lt, beq_iff_eq, generality_swap a b]
        cases b.generality a <;> simp

theorem mem_positionsBelow : j ∈ positionsBelow types i ↔ Above types i j := by
  rw [positionsBelow, List.mem_filter, ranksAbove_iff, List.mem_range]
  exact and_iff_right_of_imp Above.right_lt

theorem nodup_positionsBelow : (positionsBelow types i).Nodup :=
  List.nodup_range.filter _

/-- A position that is not placed, while all positions above it are. -/
def Placeable (types : List Ty) (placed : List Nat) (j : Nat) : Prop :=
  j < types.length ∧ j ∉ placed ∧ ∀ i, Above types i j → i ∈ placed

/-- The number of positions that a position still waits for. -/
def waitsFor (types : List Ty) (placed : List Nat) (j : Nat) : Nat :=
  (List.range types.length).countP fun i => ranksAbove types i j && !placed.contains i

theorem waitsFor_eq_zero_iff :
    waitsFor types placed j = 0 ↔ ∀ i, Above types i j → i ∈ placed := by
  rw [waitsFor, List.countP_eq_zero]
  simp only [List.mem_range, Bool.and_eq_true, Bool.not_eq_true', List.contains_eq_mem,
    decide_eq_false_iff_not, not_and, not_not, ranksAbove_iff]
  exact forall_congr' fun i => ⟨fun h above => h above.left_lt above, fun h _ => h⟩

/-- What is below a position waits for one less when this is placed. -/
theorem waitsFor_append (hi : i < types.length) (fresh : i ∉ placed) :
    waitsFor types (placed ++ [i]) j =
      if j ∈ positionsBelow types i then waitsFor types placed j - 1
      else waitsFor types placed j := by
  let waits (k : Nat) : Bool := ranksAbove types k j && !placed.contains k
  have split : (fun k => ranksAbove types k j && !(placed ++ [i]).contains k) =
      fun k => waits k && k != i := by
    funext k
    simp [waits, Bool.and_assoc, bne, Bool.beq_eq_decide_eq]
  have erased : waitsFor types (placed ++ [i]) j =
      ((List.range types.length).erase i).countP waits := by
    rw [waitsFor, split, List.nodup_range.erase_eq_filter, List.countP_filter]
  have counted : (i ∈ List.range types.length ∧ waits i = true) ↔ j ∈ positionsBelow types i := by
    simp [waits, hi, fresh, mem_positionsBelow, ranksAbove_iff]
  rw [erased, List.countP_erase]
  by_cases below : j ∈ positionsBelow types i
  · rw [if_pos below, if_pos (counted.2 below)]
    rfl
  · rw [if_neg below, if_neg (mt counted.1 below)]
    rfl

theorem placeable_iff : Placeable types placed j ↔
    j < types.length ∧ j ∉ placed ∧ waitsFor types placed j = 0 := by
  rw [Placeable, waitsFor_eq_zero_iff]

/-! ## Releasing positions -/

namespace Queue

variable {q : Queue} {js rest : List Nat}

theorem waiting_release : (q.release j).waiting = q.waiting.modify j (· - 1) := by
  unfold release
  dsimp only
  split <;> rfl

theorem mem_ready_release : k ∈ (q.release j).ready ↔
    k ∈ q.ready ∨ k = j ∧ q.done[j]? = some false ∧ q.waiting[j]?.map (· - 1) = some 0 := by
  have last : (q.waiting.modify j (· - 1))[j]? = q.waiting[j]?.map (· - 1) := by
    simp
  unfold release
  dsimp only
  rw [last]
  split
  · rename_i free
    rw [(List.mergeSort_perm _ _).mem_iff, List.mem_append, List.mem_singleton]
    simp [free]
  · rename_i held
    rw [or_iff_left]
    exact fun h => held ⟨h.2.2, h.2.1⟩

theorem sorted_release (sorted : q.ready.Pairwise (· < ·)) (fresh : j ∉ q.ready) :
    (q.release j).ready.Pairwise (· < ·) := by
  unfold release
  dsimp only
  split
  · have nodup : ((q.ready ++ [j]).mergeSort).Nodup := by
      refine (List.mergeSort_perm _ _).nodup_iff.2 ?_
      exact List.nodup_append.2 ⟨sorted.imp Nat.ne_of_lt, List.nodup_singleton j, by grind⟩
    have weak := List.pairwise_mergeSort' (· ≤ ·) (q.ready ++ [j])
    exact weak.and nodup |>.imp fun h => Nat.lt_of_le_of_ne h.1 h.2
  · exact sorted

theorem waiting_foldl_release (nodup : js.Nodup) :
    (js.foldl release q).waiting[j]? =
      q.waiting[j]?.map fun n => if j ∈ js then n - 1 else n := by
  induction js generalizing q with
  | nil => simp
  | cons k js ih =>
    rw [List.nodup_cons] at nodup
    rw [List.foldl_cons, ih nodup.2, waiting_release, List.getElem?_modify]
    by_cases eq : k = j
    · subst eq
      simp [nodup.1, Function.comp_def]
    · simp [eq, Ne.symm eq]

theorem mem_ready_foldl_release (nodup : js.Nodup) : j ∈ (js.foldl release q).ready ↔
    j ∈ q.ready ∨ j ∈ js ∧ q.done[j]? = some false ∧ q.waiting[j]?.map (· - 1) = some 0 := by
  induction js generalizing q with
  | nil => simp
  | cons k js ih =>
    rw [List.nodup_cons] at nodup
    rw [List.foldl_cons, ih nodup.2, mem_ready_release, (kept_release q k).1, waiting_release,
      List.getElem?_modify]
    by_cases eq : k = j
    · subst eq
      simp [nodup.1]
    · simp [eq, Ne.symm eq]

theorem sorted_foldl_release (nodup : js.Nodup) (sorted : q.ready.Pairwise (· < ·))
    (fresh : ∀ j ∈ js, j ∉ q.ready) : (js.foldl release q).ready.Pairwise (· < ·) := by
  induction js generalizing q with
  | nil => exact sorted
  | cons k js ih =>
    rw [List.nodup_cons] at nodup
    refine ih nodup.2 (sorted_release sorted (fresh k List.mem_cons_self)) fun j hj ready => ?_
    rcases mem_ready_release.1 ready with old | ⟨rfl, -⟩
    · exact fresh j (List.mem_cons_of_mem _ hj) old
    · exact nodup.1 hj

/-! ## Sound queues -/

/-- A queue counts for each position what it waits for, and has ready what waits for nothing. -/
structure Sound (types : List Ty) (q : Queue) : Prop where
  done : ∀ i, q.done[i]? = some false ↔ i < types.length ∧ i ∉ q.placed
  waiting : ∀ j, j < types.length → j ∉ q.placed →
    q.waiting[j]? = some (waitsFor types q.placed j)
  sorted : q.ready.Pairwise (· < ·)
  mem_ready : ∀ j, j ∈ q.ready ↔ Placeable types q.placed j

theorem sound_start (types : List Ty) : Sound types (start types) where
  done i := by simp [start, List.getElem?_replicate]
  waiting j hj _ := by simp [start, waitsFor, hj]
  sorted := List.pairwise_lt_range.filter _
  mem_ready j := by
    have zero := @waitsFor_eq_zero_iff types [] j
    simp only [waitsFor, List.contains_nil, Bool.not_false, Bool.and_true] at zero
    by_cases hj : j < types.length
    · simp [start, Placeable, hj, zero]
    · simp [start, Placeable, hj]

theorem Sound.placeable (h : Sound types q) (first : q.ready = i :: rest) :
    Placeable types q.placed i :=
  (h.mem_ready i).1 (first ▸ List.mem_cons_self)

theorem Sound.lt_of_mem_rest (h : Sound types q) (first : q.ready = i :: rest) (hj : j ∈ rest) :
    i < j :=
  (List.pairwise_cons.1 (first ▸ h.sorted)).1 j hj

theorem Sound.mem_rest (h : Sound types q) (first : q.ready = i :: rest) :
    j ∈ rest ↔ Placeable types q.placed j ∧ j ≠ i := by
  rw [← h.mem_ready, first, List.mem_cons]
  have other (hj : j ∈ rest) : j ≠ i := Nat.ne_of_gt (h.lt_of_mem_rest first hj)
  tauto

/-- The first position that is ready is the least one that can be placed. -/
theorem Sound.first_le (h : Sound types q) (first : q.ready = i :: rest)
    (hk : Placeable types q.placed k) : i ≤ k := by
  by_cases eq : k = i
  · exact Nat.le_of_eq eq.symm
  · exact Nat.le_of_lt (h.lt_of_mem_rest first ((h.mem_rest first).2 ⟨hk, eq⟩))

/-- Placing the first position that is ready keeps a queue sound. -/
theorem Sound.place (h : Sound types q) (first : q.ready = i :: rest) :
    Sound types (q.place types i rest) := by
  have ready : Placeable types q.placed i := h.placeable first
  have done (j : Nat) : (q.done.set i true)[j]? = some false ↔
      j < types.length ∧ j ∉ q.placed ++ [i] := by
    rw [List.getElem?_set]
    by_cases eq : i = j
    · subst eq
      simp
    · simp [eq, Ne.symm eq, h.done]
  -- What is below a position was not ready while this one was not placed.
  have fresh (j : Nat) (below : j ∈ positionsBelow types i) : j ∉ rest := fun old =>
    ready.2.1 (((h.mem_rest first).1 old).1.2.2 i (mem_positionsBelow.1 below))
  have append (j : Nat) := @waitsFor_append types q.placed i j ready.1 ready.2.1
  refine ⟨fun j => ?_, fun j hj new => ?_, ?_, fun j => ?_⟩
  · rw [done_place, placed_place]
    exact done j
  · rw [placed_place] at new ⊢
    have old : j ∉ q.placed := fun old => new (List.mem_append_left _ old)
    rw [Queue.place, waiting_foldl_release nodup_positionsBelow, h.waiting j hj old, append]
    rfl
  · have sorted : rest.Pairwise (· < ·) := (List.pairwise_cons.1 (first ▸ h.sorted)).2
    exact sorted_foldl_release nodup_positionsBelow sorted fresh
  · rw [placed_place, placeable_iff, Queue.place, mem_ready_foldl_release nodup_positionsBelow]
    dsimp only
    rw [done, append]
    by_cases below : j ∈ positionsBelow types i
    · rw [if_pos below, or_iff_right (fresh j below), and_iff_right below, and_assoc]
      refine and_congr_right fun hj => and_congr_right fun new => ?_
      rw [h.waiting j hj fun old => new (List.mem_append_left _ old)]
      simp
    · rw [if_neg below, or_iff_left fun h => below h.1, h.mem_rest first, placeable_iff]
      simp only [List.mem_append, List.mem_singleton]
      tauto

/-- What holds of the placed positions at first, and is kept where the least position that can be
placed is placed, holds when no position is left that can be placed. -/
theorem Sound.run_induction {motive : List Nat → Prop} (h : Sound types q) (start : motive q.placed)
    (step : ∀ placed j, motive placed → Placeable types placed j →
      (∀ k, Placeable types placed k → j ≤ k) → motive (placed ++ [j])) :
    motive (q.run types).placed ∧ Sound types (q.run types) ∧ (q.run types).ready = [] := by
  fun_induction run types q with
  | case1 q none => exact ⟨start, h, none⟩
  | case2 q i rest first _ ih =>
    refine ih (h.place first) ?_
    rw [placed_place]
    exact step _ i start (h.placeable first) fun k hk => h.first_le first hk
  | case3 q i rest first placed _ =>
    have ready : Placeable types q.placed i := h.placeable first
    exact absurd ((h.done i).2 ⟨ready.1, ready.2.1⟩) placed

end Queue

/-! ## Rows of positions -/

/-- Positions in a row, each after all positions above it. -/
structure Lined (types : List Ty) (row : List Nat) : Prop where
  nodup : row.Nodup
  lt_length : ∀ j ∈ row, j < types.length
  after : ∀ i j, Above types i j → j ∈ row → row.idxOf i < row.idxOf j

namespace Lined

variable {row : List Nat}

theorem mem_of_above (h : Lined types row) (above : Above types i j) (hj : j ∈ row) : i ∈ row :=
  List.idxOf_lt_length_iff.1 ((h.after i j above hj).trans (List.idxOf_lt_length_iff.2 hj))

theorem nil (types : List Ty) : Lined types [] :=
  ⟨List.nodup_nil, nofun, nofun⟩

/-- A position that can be placed goes to the end of the row. -/
theorem append (h : Lined types row) (hj : Placeable types row j) : Lined types (row ++ [j]) := by
  refine ⟨?_, fun k hk => ?_, fun i k above hk => ?_⟩
  · rw [← List.concat_eq_append]
    exact h.nodup.concat hj.2.1
  · rcases List.mem_append.1 hk with hk | hk
    · exact h.lt_length k hk
    · exact List.mem_singleton.1 hk ▸ hj.1
  · by_cases old : k ∈ row
    · rw [List.idxOf_append_of_mem (h.mem_of_above above old), List.idxOf_append_of_mem old]
      exact h.after i k above old
    · obtain rfl := List.mem_singleton.1 ((List.mem_append.1 hk).resolve_left old)
      have before : i ∈ row := hj.2.2 i above
      rw [List.idxOf_append_of_mem before, List.idxOf_append_of_notMem old]
      exact Nat.lt_add_right _ (List.idxOf_lt_length_iff.2 before)

theorem lt_of_transGen (h : Lined types row) (path : Relation.TransGen (Above types) i j)
    (hj : j ∈ row) : row.idxOf i < row.idxOf j := by
  induction path with
  | single above => exact h.after _ _ above hj
  | tail _ above ih => exact (ih (h.mem_of_above above hj)).trans (h.after _ _ above hj)

end Lined

/-- A position is in a cycle of the relation or behind one. -/
def Tangled (types : List Ty) (j : Nat) : Prop :=
  ∃ c, Relation.TransGen (Above types) c c ∧ Relation.ReflTransGen (Above types) c j

theorem Tangled.of_above (h : Tangled types i) (above : Above types i j) : Tangled types j := by
  obtain ⟨c, cycle, path⟩ := h
  exact ⟨c, cycle, path.tail above⟩

/-- No position in a row is tangled, since it would be before itself. -/
theorem Lined.not_tangled {row : List Nat} (h : Lined types row) (hj : j ∈ row) :
    ¬ Tangled types j := by
  rintro ⟨c, cycle, path⟩
  have hc : c ∈ row := by
    clear cycle
    induction path using Relation.ReflTransGen.head_induction_on with
    | refl => exact hj
    | head above _ ih => exact h.mem_of_above above ih
  exact Nat.lt_irrefl _ (h.lt_of_transGen cycle hc)

/-- A row that nothing can be placed behind has all positions that are not tangled: going up from
one that is missing comes to an end, as it never comes back to a position. -/
theorem mem_of_not_placeable {row : List Nat} (stuck : ∀ j, ¬ Placeable types row j)
    (hj : j < types.length) (free : ¬ Tangled types j) : j ∈ row := by
  let before (i j : Fin types.length) : Prop :=
    ¬ Tangled types j ∧ Relation.TransGen (Above types) i j
  have : IsTrans _ before := ⟨fun _ _ _ h h' => ⟨h'.1, h.2.trans h'.2⟩⟩
  have : Std.Irrefl before := ⟨fun i h => h.1 ⟨i, h.2, .refl⟩⟩
  have founded : WellFounded before := Finite.wellFounded_of_trans_of_irrefl before
  have listed (k : Fin types.length) : ¬ Tangled types k → (k : Nat) ∈ row := by
    induction k using founded.induction with
    | _ k ih =>
      intro free
      by_contra missing
      refine stuck k ⟨k.2, missing, fun i above => ?_⟩
      exact ih ⟨i, above.left_lt⟩ ⟨free, .single above⟩ fun tangled => free (tangled.of_above above)
  exact listed ⟨j, hj⟩ free

/-! ## The order of preference -/

/-- An arrangement of the positions that are not tangled, each after all positions above it. -/
structure Arranges (types : List Ty) (row : List Nat) : Prop where
  nodup : row.Nodup
  mem_iff : ∀ j, j ∈ row ↔ j < types.length ∧ ¬ Tangled types j
  after : ∀ i j, Above types i j → j ∈ row → row.idxOf i < row.idxOf j

/-- A row is the beginning of another one, or has the lesser position where they first differ. -/
def Leads (row other : List Nat) : Prop :=
  row <+: other ∨ ∃ common j k rest rest',
    row = common ++ j :: rest ∧ other = common ++ k :: rest' ∧ j < k

theorem Leads.eq_or_lex {row other : List Nat} (h : Leads row other) (perm : row.Perm other) :
    row = other ∨ List.Lex (· < ·) row other := by
  rcases h with start | ⟨common, j, k, rest, rest', rfl, rfl, lt⟩
  · exact .inl (start.eq_of_length perm.length_eq)
  · exact .inr (List.Lex.append_left (· < ·) (.rel lt) common)

/-- A row that leads an arrangement still does with the least position that can be placed. -/
theorem Arranges.leads_append {row other : List Nat} (arranged : Arranges types other)
    (lined : Lined types row) (leads : Leads row other) (hj : Placeable types row j)
    (least : ∀ k, Placeable types row k → j ≤ k) : Leads (row ++ [j]) other := by
  rcases leads with ⟨rest, rfl⟩ | ⟨common, i, k, rest, rest', rfl, rfl, lt⟩
  · cases rest with
    | nil =>
      have last : j ∈ row ++ [j] := List.mem_append_right _ (List.mem_singleton_self j)
      have free := (lined.append hj).not_tangled last
      have listed := (arranged.mem_iff j).2 ⟨hj.1, free⟩
      rw [List.append_nil] at listed
      exact absurd listed hj.2.1
    | cons k rest =>
      have hk : k ∈ row ++ k :: rest := by simp
      have new : k ∉ row := fun old =>
        (List.nodup_append.1 arranged.nodup).2.2 k old k List.mem_cons_self rfl
      have place : (row ++ k :: rest).idxOf k = row.length := by
        rw [List.idxOf_append_of_notMem new, List.idxOf_cons_self, Nat.add_zero]
      have next : Placeable types row k := by
        refine ⟨((arranged.mem_iff k).1 hk).1, new, fun i above => ?_⟩
        have before := arranged.after i k above hk
        rw [place] at before
        by_contra missing
        rw [List.idxOf_append_of_notMem missing] at before
        omega
      rcases Nat.eq_or_lt_of_le (least k next) with rfl | lt
      · exact .inl ⟨rest, by simp⟩
      · exact .inr ⟨row, j, k, [], rest, rfl, rfl, lt⟩
  · exact .inr ⟨common, i, k, rest ++ [j], rest', by simp, rfl, lt⟩

/-- The order of preference begins with the first arrangement that there is. -/
theorem exists_front (types : List Ty) :
    ∃ front, Arranges types front ∧ (∀ other, Arranges types other → Leads front other) ∧
      preferenceOrder types =
        front ++ (List.range types.length).filter fun j => !front.contains j := by
  obtain ⟨⟨lined, leads⟩, final, none⟩ := (Queue.sound_start types).run_induction
    (motive := fun row => Lined types row ∧ ∀ other, Arranges types other → Leads row other)
    ⟨.nil types, fun other _ => .inl List.nil_prefix⟩
    fun row j h hj least => ⟨h.1.append hj, fun other arranged =>
      arranged.leads_append h.1 (h.2 other arranged) hj least⟩
  have stuck (j : Nat) : ¬ Placeable types ((Queue.start types).run types).placed j := by
    rw [← final.mem_ready, none]
    exact List.not_mem_nil
  refine ⟨_, ⟨lined.nodup, fun j => ⟨fun hj => ⟨lined.lt_length j hj, lined.not_tangled hj⟩, ?_⟩,
    lined.after⟩, leads, ?_⟩
  · exact fun h => mem_of_not_placeable stuck h.1 h.2
  · refine congrArg _ (List.filter_congr fun j hj => ?_)
    rw [Bool.eq_iff_iff, beq_iff_eq, final.done, and_iff_right (List.mem_range.1 hj)]
    simp

/-- Where there is a position that nothing is above, the order of preference begins with one. -/
theorem exists_first (h : k < types.length) (top : ∀ i, ¬ Above types i k) :
    ∃ j more, preferenceOrder types = j :: more ∧ j < types.length ∧ ∀ i, ¬ Above types i j := by
  obtain ⟨front, arranged, -, order⟩ := exists_front types
  have free : ¬ Tangled types k := by
    rintro ⟨c, cycle, path⟩
    rcases Relation.ReflTransGen.cases_tail path with rfl | ⟨i, -, above⟩
    · obtain ⟨i, -, above⟩ := Relation.TransGen.tail'_iff.1 cycle
      exact top i above
    · exact top i above
  cases front with
  | nil => exact absurd ((arranged.mem_iff k).2 ⟨h, free⟩) List.not_mem_nil
  | cons j rest =>
    have hj : j ∈ j :: rest := List.mem_cons_self
    refine ⟨j, _, by rw [order]; rfl, ((arranged.mem_iff j).1 hj).1, fun i above => ?_⟩
    have before := arranged.after i j above hj
    rw [List.idxOf_cons_self] at before
    exact Nat.not_lt_zero _ before

/-- The order of preference lists all positions. It begins with those that are neither in a cycle
nor behind one: each after all positions above it, and of all such arrangements the first one in the
order of dictionaries. The others follow in increasing order. -/
theorem preferenceOrder_arranges (types : List Ty) :
    (preferenceOrder types).Perm (List.range types.length) ∧
    ∃ front back, preferenceOrder types = front ++ back ∧ Arranges types front ∧
      (∀ other, Arranges types other → front = other ∨ List.Lex (· < ·) front other) ∧
      back.Pairwise (· < ·) ∧ ∀ j, j ∈ back ↔ j < types.length ∧ Tangled types j := by
  obtain ⟨front, arranged, leads, order⟩ := exists_front types
  let back := (List.range types.length).filter fun j => !front.contains j
  have mem_back (j : Nat) : j ∈ back ↔ j < types.length ∧ j ∉ front := by simp [back]
  refine ⟨?_, front, back, order, arranged, fun other h => ?_, List.pairwise_lt_range.filter _,
    fun j => ?_⟩
  · have nodup : (front ++ back).Nodup := List.nodup_append.2
      ⟨arranged.nodup, List.nodup_range.filter _, fun i hi j hj eq =>
        ((mem_back j).1 hj).2 (eq ▸ hi)⟩
    rw [order, List.perm_ext_iff_of_nodup nodup List.nodup_range]
    intro j
    have lt (hj : j ∈ front) : j < types.length := ((arranged.mem_iff j).1 hj).1
    rw [List.mem_append, mem_back, List.mem_range]
    tauto
  · have same := (List.perm_ext_iff_of_nodup arranged.nodup h.nodup).2 fun j =>
      (arranged.mem_iff j).trans (h.mem_iff j).symm
    exact (leads other h).eq_or_lex same
  · rw [mem_back, arranged.mem_iff]
    tauto

/-- Each of the first three types is more general than the next one in two of three elements. -/
example :
    preferenceOrder [.tuple [.dynamic, .number, .string], .tuple [.string, .dynamic, .number],
      .tuple [.number, .string, .dynamic], .list .string] = [3, 0, 1, 2] := by
  cbv

end ValueAlgebra.Ty
