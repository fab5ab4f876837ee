import Mathlib
import ValueAlgebra.Proofs.ArithmeticBounds
import ValueAlgebra.Proofs.Completion
import ValueAlgebra.Proofs.SetEngine

/-!
# The order of the elements of a set

A set lists its elements by a stable sort, first by their hashes and then by the order of its rules.
If what is listed is made a set again, then the new set lists the same elements in the same order,
although it was given them in another order than the first one. This takes no symmetry of
equivalence: elements that merge take the same place in the order of the rules, so the first set has
told them apart in the direction in which the second one asks.

Main statements:

* `RuleSet.Tidy.insert`, `RuleSet.Tidy.remove`: what one step on a set preserves.
* `RuleSet.Tidy.values_ofList`: the elements of a set, made a set again, are listed in the same
  order.
* `Value.orderOn_setOrder`: the order of set elements is one on the values of each type.
* `Value.set_of_listed`: elements that a set lists as they stand are made a set value of them.
-/

namespace ValueAlgebra

/-! ## Stable sorts -/

/-- A comparison is transitive and total among the things with a property. -/
structure OrderOn {α : Type} (p : α → Prop) (le : α → α → Bool) : Prop where
  trans : ∀ {x y z}, p x → p y → p z → le x y = true → le y z = true → le x z = true
  total : ∀ {x y}, p x → p y → le x y = true ∨ le y x = true

namespace OrderOn

variable {α : Type} {p : α → Prop} {le : α → α → Bool} {xs : List α}

theorem refl (h : OrderOn p le) {x : α} (hx : p x) : le x x = true :=
  (h.total hx hx).elim id id

theorem imp {q : α → Prop} (h : OrderOn p le) (hq : ∀ {x}, q x → p x) : OrderOn q le where
  trans hx hy hz := h.trans (hq hx) (hq hy) (hq hz)
  total hx hy := h.total (hq hx) (hq hy)

/-- A sort asks nothing about other things than those it sorts. -/
theorem mergeSort_eq (xs : List α) :
    xs.mergeSort le = (xs.attach.mergeSort fun a b => le a.1 b.1).map (·.1) := by
  rw [List.map_mergeSort (s := le) (fun _ _ _ _ => rfl), List.attach_map_subtype_val]

theorem pairwise_mergeSort (h : OrderOn p le) (hx : ∀ x ∈ xs, p x) :
    (xs.mergeSort le).Pairwise fun x y => le x y = true := by
  rw [mergeSort_eq, List.pairwise_map]
  refine List.pairwise_mergeSort ?_ ?_ _
  · intro a b c
    exact h.trans (hx _ a.2) (hx _ b.2) (hx _ c.2)
  · intro a b
    rw [Bool.or_eq_true]
    exact h.total (hx _ a.2) (hx _ b.2)

theorem sublist_mergeSort (h : OrderOn p le) (hx : ∀ x ∈ xs, p x) {ys : List α}
    (sorted : ys.Pairwise fun x y => le x y = true) (sublist : ys.Sublist xs) :
    ys.Sublist (xs.mergeSort le) := by
  rw [← List.attach_map_subtype_val xs, List.sublist_map_iff] at sublist
  obtain ⟨zs, sublist, rfl⟩ := sublist
  rw [mergeSort_eq]
  rw [List.pairwise_map] at sorted
  refine (List.sublist_mergeSort ?_ ?_ sorted sublist).map _
  · intro a b c
    exact h.trans (hx _ a.2) (hx _ b.2) (hx _ c.2)
  · intro a b
    rw [Bool.or_eq_true]
    exact h.total (hx _ a.2) (hx _ b.2)

/-- A sort is stable: things of one place in the order stay as they are. -/
theorem filter_mergeSort (h : OrderOn p le) (hx : ∀ x ∈ xs, p x) {q : α → Bool}
    (level : ∀ x ∈ xs, ∀ y ∈ xs, q x = true → q y = true → le x y = true) :
    (xs.mergeSort le).filter q = xs.filter q := by
  have sorted : (xs.filter q).Pairwise fun x y => le x y = true := by
    refine List.pairwise_iff_forall_sublist.2 fun {x y} hxy => ?_
    obtain ⟨hx, qx⟩ := List.mem_filter.1 (hxy.subset List.mem_cons_self)
    obtain ⟨hy, qy⟩ := List.mem_filter.1 (hxy.subset (List.mem_cons_of_mem _ List.mem_cons_self))
    exact level x hx y hy qx qy
  have inside := (h.sublist_mergeSort hx sorted List.filter_sublist).filter q
  simp only [List.filter_filter, Bool.and_self] at inside
  exact (inside.eq_of_length ((List.mergeSort_perm xs le).filter q).length_eq.symm).symm


/-- The things that take the place of `x` in the order. -/
def level (le : α → α → Bool) (x y : α) : Bool :=
  le x y && le y x

/-- Two sorted lists are the same if they agree on the things of each place. -/
theorem eq_of_levels (h : OrderOn p le) {ys : List α} (hx : ∀ x ∈ xs, p x) (hy : ∀ y ∈ ys, p y)
    (sx : xs.Pairwise fun x y => le x y = true) (sy : ys.Pairwise fun x y => le x y = true)
    (levels : ∀ z, p z → xs.filter (level le z) = ys.filter (level le z)) : xs = ys := by
  induction xs generalizing ys with
  | nil =>
    cases ys with
    | nil => rfl
    | cons y ys =>
      have none := levels y (hy y List.mem_cons_self)
      rw [List.filter_nil, List.filter_cons_of_pos (by simp [level, h.refl (hy y List.mem_cons_self)])]
        at none
      cases none
  | cons x xs ih =>
    have px := hx x List.mem_cons_self
    have self : level le x x = true := by simp [level, h.refl px]
    have first := levels x px
    rw [List.filter_cons_of_pos self] at first
    cases ys with
    | nil => cases first
    | cons y ys =>
      have py := hy y List.mem_cons_self
      -- each of the two first things is found in the other list, behind its first one
      have below : le x y = true := by
        have found : y ∈ (x :: xs).filter (level le y) := by
          rw [levels y py, List.filter_cons_of_pos (by simp [level, h.refl py])]
          exact List.mem_cons_self
        rcases List.mem_cons.1 (List.mem_filter.1 found).1 with rfl | found
        · exact h.refl py
        · exact (List.pairwise_cons.1 sx).1 y found
      have above : le y x = true := by
        have found : x ∈ (y :: ys).filter (level le x) := first ▸ List.mem_cons_self
        rcases List.mem_cons.1 (List.mem_filter.1 found).1 with rfl | found
        · exact h.refl px
        · exact (List.pairwise_cons.1 sy).1 x found
      rw [List.filter_cons_of_pos (by simp [level, below, above])] at first
      obtain ⟨rfl, -⟩ := List.cons.inj first
      congr 1
      refine ih (fun z hz => hx z (List.mem_cons_of_mem _ hz))
        (fun z hz => hy z (List.mem_cons_of_mem _ hz)) (List.pairwise_cons.1 sx).2
        (List.pairwise_cons.1 sy).2 fun z hz => ?_
      have all := levels z hz
      rw [List.filter_cons, List.filter_cons] at all
      split at all
      · exact (List.cons.inj all).2
      · exact all

end OrderOn

/-! ## Sets that are made again -/

namespace Bucket

variable {α : Type} {buckets : List (Bucket α)}

/-- An element that is put in its bucket comes before those of greater hashes, and behind all
others. -/
theorem elements_put_split (hash : UInt64) (ha : Ascending buckets) (x : α) :
    ∃ before after : List (Bucket α), buckets = before ++ after ∧
      elements (put hash (find hash buckets ++ [x]) buckets) =
        elements before ++ x :: elements after ∧ ∀ b ∈ after, hash < b.1 := by
  induction buckets with
  | nil => exact ⟨[], [], rfl, by simp [find, put, elements], List.forall_mem_nil _⟩
  | cons first rest ih =>
    obtain ⟨other, xs⟩ := first
    have above := (List.pairwise_cons.1 ha).1
    by_cases lt : hash < other
    · refine ⟨[], (other, xs) :: rest, rfl, ?_, fun b hb => ?_⟩
      · rw [find_of_lt ha lt]
        simp [put, lt, elements]
      · rcases List.mem_cons.1 hb with rfl | hb
        · exact lt
        · exact UInt64.lt_trans lt (above _ (List.mem_map_of_mem hb))
    by_cases eq : hash = other
    · subst eq
      refine ⟨[(hash, xs)], rest, rfl, ?_, fun b hb => above _ (List.mem_map_of_mem hb)⟩
      rw [find_cons_self]
      simp [put, elements]
    · obtain ⟨before, after, rfl, put_eq, greater⟩ := ih (List.pairwise_cons.1 ha).2
      refine ⟨(other, xs) :: before, after, rfl, ?_, greater⟩
      rw [find_cons_of_ne eq, put, if_neg lt, if_neg eq, elements_cons, put_eq, elements_cons,
        List.append_assoc]

theorem elements_append (before after : List (Bucket α)) :
    elements (before ++ after) = elements before ++ elements after :=
  List.flatMap_append

/-- Some of the elements of a hash, put in place of all of them, leave the others as they are. -/
theorem sublist_put {hash : UInt64} {ys : List α} (ha : Ascending buckets)
    (h : ys.Sublist (find hash buckets)) :
    (elements (put hash ys buckets)).Sublist (elements buckets) := by
  induction buckets with
  | nil =>
    rw [List.sublist_nil.1 h]
    exact .refl _
  | cons first rest ih =>
    obtain ⟨other, xs⟩ := first
    unfold put
    split
    · rename_i lt
      rw [find_of_lt ha lt] at h
      rw [List.sublist_nil.1 h]
      exact .refl _
    split
    · rename_i eq
      rw [eq, find_cons_self] at h
      split
      · exact List.sublist_append_right ..
      · rw [elements_cons, elements_cons]
        exact h.append_right _
    · rename_i ne
      rw [find_cons_of_ne ne] at h
      rw [elements_cons, elements_cons]
      exact (ih (List.pairwise_cons.1 ha).2 h).append_left _

end Bucket

/-- What the order of the rules promises about the elements with a property: it is an order, and
elements that merge take the same place in it. -/
structure Rules.Ordered (ρ : Type) {α : Type} [Rules ρ α] (p : α → Prop) : Prop where
  order : ∀ rules : ρ, OrderOn p fun x y => (Rules.order rules x y).isLE
  merge : ∀ (rules : ρ) {x y : α}, p x → p y → RuleSet.Merge rules x y →
    (Rules.order rules y x).isLE = true

namespace RuleSet

variable {ρ α : Type} [Rules ρ α] {p : α → Prop} {rules : ρ} {s : RuleSet ρ α} {x y : α}

theorem ofList_append_singleton (xs : List α) (x : α) :
    ofList rules (xs ++ [x]) = (ofList rules xs).insert x := by
  simp [ofList]

theorem hashed_ofList (rules : ρ) (xs : List α) : (ofList rules xs).Hashed := by
  induction xs using List.reverseRecOn with
  | nil => exact hashed_empty
  | append_singleton xs x ih =>
    rw [ofList_append_singleton]
    exact ih.insert x

/-- Elements stand by ascending hash. -/
theorem Hashed.ascending_elements (h : s.Hashed) :
    (Bucket.elements s.buckets).Pairwise fun x y =>
      Rules.hash s.rules x ≤ Rules.hash s.rules y := by
  refine List.pairwise_flatMap.2 ⟨fun b hb => ?_, ?_⟩
  · refine List.pairwise_iff_forall_sublist.2 fun {x y} hxy => ?_
    rw [h.hash b hb x (hxy.subset List.mem_cons_self),
      h.hash b hb y (hxy.subset (List.mem_cons_of_mem _ List.mem_cons_self))]
    exact UInt64.le_refl _
  · refine (List.pairwise_map.1 h.ascending).imp_of_mem fun {b c} hb hc lt x hx y hy => ?_
    rw [h.hash b hb x hx, h.hash c hc y hy]
    exact UInt64.le_of_lt lt

/-- A new element comes before those of greater hashes, and behind all others. -/
theorem Hashed.elements_insert_split (h : s.Hashed) (fresh : s.has x = false) :
    ∃ before after, Bucket.elements s.buckets = before ++ after ∧
      Bucket.elements (s.insert x).buckets = before ++ x :: after ∧
      ∀ y ∈ after, Rules.hash s.rules x < Rules.hash s.rules y := by
  obtain ⟨before, after, eq, split, greater⟩ :=
    Bucket.elements_put_split (Rules.hash s.rules x) h.ascending x
  refine ⟨_, _, (congrArg _ eq).trans (Bucket.elements_append _ _), ?_, fun y hy => ?_⟩
  · rw [RuleSet.insert, add_of_not_has fresh]
    exact split
  · obtain ⟨b, hb, hy⟩ := List.mem_flatMap.1 hy
    rw [h.hash b (eq ▸ List.mem_append_right _ hb) y hy]
    exact greater b hb

/-- Elements are in the buckets of their hashes, and none of them merges with an earlier one. -/
structure Tidy (s : RuleSet ρ α) : Prop extends s.Hashed where
  apart : (Bucket.elements s.buckets).Pairwise fun x y => ¬ Merge s.rules x y

theorem tidy_empty (rules : ρ) : (empty rules : RuleSet ρ α).Tidy :=
  ⟨hashed_empty, .nil⟩

theorem Tidy.insert (h : s.Tidy) (x : α) : (s.insert x).Tidy := by
  refine ⟨h.toHashed.insert x, ?_⟩
  rw [rules_insert]
  cases found : s.has x with
  | true =>
    rw [RuleSet.insert, add_of_has found]
    exact h.apart
  | false =>
    obtain ⟨before, after, eq, split, greater⟩ := h.elements_insert_split found
    have fresh : ∀ y ∈ before ++ after, ¬ Merge s.rules y x := by
      intro y hy merge
      rw [h.has_iff.2 ⟨y, eq ▸ hy, merge⟩] at found
      cases found
    have apart := h.apart
    rw [eq, List.pairwise_append] at apart
    rw [split, List.pairwise_append, List.pairwise_cons]
    refine ⟨apart.1, ⟨fun y hy merge => ?_, apart.2.1⟩, fun y hy z hz => ?_⟩
    -- what stands behind the new element has a greater hash, so it merges with none of it
    · exact UInt64.ne_of_lt (greater y hy) merge.1
    · rcases List.mem_cons.1 hz with rfl | hz
      · exact fresh y (List.mem_append_left _ hy)
      · exact apart.2.2 y hy z hz

theorem Tidy.foldl_insert (h : s.Tidy) (xs : List α) : (xs.foldl RuleSet.insert s).Tidy := by
  induction xs generalizing s with
  | nil => exact h
  | cons x xs ih => exact ih (h.insert x)

theorem tidy_ofList (rules : ρ) (xs : List α) : (ofList rules xs).Tidy :=
  (tidy_empty rules).foldl_insert xs

/-- What is left when an element is taken out stands as it stood. -/
theorem Tidy.remove {removed : α} {rest : RuleSet ρ α} (h : s.Tidy)
    (hr : s.remove? x = some (removed, rest)) : rest.Tidy := by
  obtain ⟨-, before, after, split, rfl⟩ := remove?_eq_some hr
  have some : (before ++ after).Sublist (s.bucket (Rules.hash s.rules x)) := by
    rw [split]
    exact (List.sublist_cons_self removed after).append_left before
  refine ⟨⟨Bucket.ascending_put _ h.ascending, fun b hb y hy => ?_⟩,
    h.apart.sublist (Bucket.sublist_put h.ascending some)⟩
  rcases Bucket.mem_put hb with ⟨rfl, -⟩ | hb
  · obtain ⟨ys, hm, hy⟩ := Bucket.mem_of_mem_find (some.subset hy)
    exact h.hash _ hm y hy
  · exact h.hash b hb y hy

/-- Elements of one hash that do not merge stay in their order. -/
theorem filter_elements {xs : List α} (apart : xs.Pairwise fun x y => ¬ Merge rules x y)
    {q : α → Bool} (hq : ∀ x y, q x = true → q y = true → Rules.hash rules x = Rules.hash rules y) :
    (Bucket.elements (ofList rules xs).buckets).filter q = xs.filter q := by
  induction xs using List.reverseRecOn with
  | nil => rfl
  | append_singleton xs x ih =>
    obtain ⟨earlier, -, last⟩ := List.pairwise_append.1 apart
    have hashed := hashed_ofList rules xs
    have fresh : (ofList rules xs).has x = false := by
      rw [← Bool.not_eq_true, hashed.has_iff]
      rintro ⟨y, hy, merge⟩
      rw [rules_ofList] at merge
      exact last y ((perm_ofList earlier).mem_iff.1 (mem_values.2 hy)) x
        (List.mem_singleton_self x) merge
    obtain ⟨before, after, eq, split, greater⟩ := hashed.elements_insert_split fresh
    rw [rules_ofList] at greater
    have kept := ih earlier
    rw [eq, List.filter_append] at kept
    rw [ofList_append_singleton, split, List.filter_append, List.filter_append, ← kept]
    cases hx : q x with
    | false => simp [hx]
    | true =>
      have none : after.filter q = [] := by
        refine List.filter_eq_nil_iff.2 fun y hy qy => ?_
        exact UInt64.ne_of_lt (greater y hy) (hq x y hx qy)
      simp [hx, none]

/-- The order in which elements are listed: by the rules, and then by hash. -/
def before (rules : ρ) (x y : α) : Bool :=
  (Rules.order rules x y).isLE &&
    (!(Rules.order rules y x).isLE || decide (Rules.hash rules x ≤ Rules.hash rules y))

theorem before_iff : before rules x y = true ↔ (Rules.order rules x y).isLE = true ∧
    ((Rules.order rules y x).isLE = true → Rules.hash rules x ≤ Rules.hash rules y) := by
  simp only [before, Bool.and_eq_true, Bool.or_eq_true, Bool.not_eq_true', decide_eq_true_eq,
    ← Bool.not_eq_true, imp_iff_not_or]

theorem level_before (h : OrderOn.level (before rules) x y = true) :
    (Rules.order rules x y).isLE = true ∧ (Rules.order rules y x).isLE = true ∧
      Rules.hash rules x = Rules.hash rules y := by
  rw [OrderOn.level, Bool.and_eq_true, before_iff, before_iff] at h
  exact ⟨h.1.1, h.2.1, UInt64.le_antisymm (h.1.2 h.2.1) (h.2.2 h.1.1)⟩

theorem within_elements (rules : ρ) {xs : List α} (hx : ∀ x ∈ xs, p x) :
    ∀ x ∈ Bucket.elements (ofList rules xs).buckets, p x :=
  fun _ h => hx _ (mem_of_mem_ofList (mem_values.2 h))

section

variable (ordered : Rules.Ordered ρ p)
include ordered

theorem order_before (rules : ρ) : OrderOn p (before rules) where
  trans {x y z} hx hy hz h h' := by
    rw [before_iff] at h h' ⊢
    have order := ordered.order rules
    refine ⟨order.trans hx hy hz h.1 h'.1, fun back => ?_⟩
    exact UInt64.le_trans (h.2 (order.trans hy hz hx h'.1 back))
      (h'.2 (order.trans hz hx hy back h.1))
  total {x y} hx hy := by
    rw [before_iff, before_iff]
    rcases (ordered.order rules).total hx hy with le | le <;>
      rcases UInt64.le_total (Rules.hash rules x) (Rules.hash rules y) with hash | hash <;> grind

/-- Elements of one place in the order are listed as they are stored. -/
theorem filter_values (hp : ∀ x ∈ Bucket.elements s.buckets, p x) {q : α → Bool}
    (level : ∀ x ∈ Bucket.elements s.buckets, ∀ y ∈ Bucket.elements s.buckets,
      q x = true → q y = true → (Rules.order s.rules x y).isLE = true) :
    s.values.filter q = (Bucket.elements s.buckets).filter q :=
  (ordered.order s.rules).filter_mergeSort hp level

/-- Two elements of one place in the order are listed as they are stored. -/
theorem sublist_elements (hp : ∀ x ∈ Bucket.elements s.buckets, p x)
    (listed : [x, y].Sublist s.values) (back : (Rules.order s.rules y x).isLE = true) :
    [x, y].Sublist (Bucket.elements s.buckets) := by
  have order := ordered.order s.rules
  have px := hp x (mem_values.1 (listed.subset List.mem_cons_self))
  have le := List.pairwise_iff_forall_sublist.1 (order.pairwise_mergeSort hp) listed
  have inside := listed.filter (OrderOn.level (fun x y => (Rules.order s.rules x y).isLE) x)
  rw [filter_values ordered hp, List.filter_cons_of_pos (by simp [OrderOn.level, order.refl px]),
    List.filter_cons_of_pos (by simp [OrderOn.level, le, back])] at inside
  · exact inside.trans List.filter_sublist
  · intro a ha b hb qa qb
    rw [OrderOn.level, Bool.and_eq_true] at qa qb
    exact order.trans (hp a ha) px (hp b hb) qa.2 qb.1

theorem Hashed.values_before (h : s.Hashed) (hp : ∀ x ∈ Bucket.elements s.buckets, p x) :
    s.values.Pairwise fun x y => before s.rules x y = true := by
  have sorted := (ordered.order s.rules).pairwise_mergeSort hp
  refine List.pairwise_iff_forall_sublist.2 fun {x y} listed => ?_
  refine before_iff.2 ⟨List.pairwise_iff_forall_sublist.1 sorted listed, fun back => ?_⟩
  -- elements of one place in the order of the rules are still sorted by hash
  exact List.pairwise_iff_forall_sublist.1 h.ascending_elements
    (sublist_elements ordered hp listed back)

/-- No element of a set merges with one that is listed earlier. -/
theorem Tidy.apart_values (h : s.Tidy) (hp : ∀ x ∈ Bucket.elements s.buckets, p x) :
    s.values.Pairwise fun x y => ¬ Merge s.rules x y := by
  refine List.pairwise_iff_forall_sublist.2 fun {x y} listed merge => ?_
  have px := hp x (mem_values.1 (listed.subset List.mem_cons_self))
  have py := hp y (mem_values.1 (listed.subset (List.mem_cons_of_mem _ List.mem_cons_self)))
  have stored := sublist_elements ordered hp listed (ordered.merge s.rules px py merge)
  exact List.pairwise_iff_forall_sublist.1 h.apart stored merge

/-- The elements of a set, made a set again, are listed in the same order. -/
theorem Tidy.values_ofList (h : s.Tidy) (hp : ∀ x ∈ Bucket.elements s.buckets, p x) :
    (ofList s.rules s.values).values = s.values := by
  have listed : ∀ x ∈ s.values, p x := fun x hx => hp x (mem_values.1 hx)
  have hp' := within_elements s.rules listed
  have before := order_before ordered s.rules
  have sorted := h.toHashed.values_before ordered hp
  have sorted' := (hashed_ofList s.rules s.values).values_before ordered hp'
  rw [rules_ofList] at sorted'
  refine before.eq_of_levels (fun x hx => hp' x (mem_values.1 hx)) listed sorted' sorted
    fun z hz => ?_
  rw [filter_values ordered hp' fun x hx y hy qx qy => ?_]
  · refine filter_elements (h.apart_values ordered hp) fun x y qx qy => ?_
    exact (level_before qx).2.2.symm.trans (level_before qy).2.2
  · rw [rules_ofList]
    exact (ordered.order s.rules).trans (hp' x hx) hz (hp' y hy) (level_before qx).2.1
      (level_before qy).1

theorem apart_values (rules : ρ) {xs : List α} (hx : ∀ x ∈ xs, p x) :
    (ofList rules xs).values.Pairwise fun x y => ¬ Merge rules x y := by
  have apart := (tidy_ofList rules xs).apart_values ordered (within_elements rules hx)
  rwa [rules_ofList] at apart

theorem values_ofList (rules : ρ) {xs : List α} (hx : ∀ x ∈ xs, p x) :
    (ofList rules (ofList rules xs).values).values = (ofList rules xs).values := by
  have values := (tidy_ofList rules xs).values_ofList ordered (within_elements rules hx)
  rwa [rules_ofList] at values

end

end RuleSet

/-! ## Sets of values of one type -/

theorem compare_isLE_total {α : Type} [Ord α] [Std.OrientedOrd α] (x y : α) :
    (compare x y).isLE = true ∨ (compare y x).isLE = true := by
  have swap : compare y x = (compare x y).swap := Std.OrientedCmp.eq_swap
  rw [swap]
  cases compare x y <;> simp

theorem MarkSet.unions_of_empty {sets : List MarkSet} (h : ∀ marks ∈ sets, marks = .empty) :
    unions sets = .empty := by
  induction sets with
  | nil => rfl
  | cons marks sets ih =>
    rw [h marks List.mem_cons_self]
    exact ih fun other ho => h other (List.mem_cons_of_mem _ ho)

theorem Number.order_isLE {a b : Number} : (a.order b).isLE = true ↔ a ≤ b := by
  unfold order
  split
  · rename_i lt
    exact iff_of_true rfl (le_of_lt lt)
  split
  · rename_i lt
    exact iff_of_false (by decide) lt
  · rename_i not_lt
    exact iff_of_true rfl (Classical.not_not.1 not_lt)

namespace Value

theorem present_of_setRank {a : Value} (h : a.setRank = 0) : a.Present := by
  obtain ⟨m, c⟩ := a
  cases c <;> first | exact ⟨rfl, rfl⟩ | cases h

theorem setRank_of_present {a : Value} (h : a.Present) : a.setRank = 0 := by
  obtain ⟨m, c⟩ := a
  cases c with
  | unknown => cases h.1
  | null => cases h.2
  | _ => rfl

variable [Host] {a b c : Value} {e : Ty}

/-- How known values compare that are not null. -/
def presentOrder (a b : Value) : Ordering :=
  match a.content, b.content with
  | .string x, .string y => compare x y
  | .number x, .number y => x.order y
  | .bool x, .bool y => compare x y
  | _, _ => compare a.hash b.hash

theorem setOrder_isLE : (setOrder a b).isLE = true ↔ a.setRank < b.setRank ∨
    a.setRank = b.setRank ∧ (a.setRank = 0 → (presentOrder a b).isLE = true) := by
  unfold setOrder
  split
  · rename_i ne
    rw [Nat.isLE_compare]
    omega
  rename_i eq
  rw [Classical.not_not] at eq
  split
  · rename_i zero
    exact iff_of_true rfl (.inr ⟨eq, fun h => absurd h zero⟩)
  · rename_i zero
    rw [Classical.not_not] at zero
    change (presentOrder a b).isLE = true ↔ _
    constructor
    · exact fun h => .inr ⟨eq, fun _ => h⟩
    · rintro (lt | ⟨-, h⟩)
      · omega
      · exact h zero

theorem presentOrder_total (h : a.content.Alike b.content) :
    (presentOrder a b).isLE = true ∨ (presentOrder b a).isLE = true := by
  unfold presentOrder
  generalize a.content = x at h
  generalize b.content = y at h
  cases h with
  | number x y =>
    simp only [Number.order_isLE]
    exact Number.le_total x y
  | _ => exact compare_isLE_total _ _

theorem presentOrder_trans (h : a.content.Alike b.content) (h' : b.content.Alike c.content)
    (hab : (presentOrder a b).isLE = true) (hbc : (presentOrder b c).isLE = true) :
    (presentOrder a c).isLE = true := by
  unfold presentOrder at *
  generalize a.content = x at h hab
  generalize b.content = y at h h' hab hbc
  generalize c.content = z at h' hbc
  cases h with
  | number =>
    cases h'
    simp only [Number.order_isLE] at *
    exact Number.le_trans hab hbc
  | _ =>
    cases h'
    dsimp only at hab hbc ⊢
    exact Std.TransCmp.isLE_trans hab hbc

/-- Equal elements of one hash take the same place in the order. -/
theorem setOrder_of_merged (h : Merged a b) : (setOrder b a).isLE = true := by
  obtain ⟨hash, equal⟩ := h
  rw [setOrder_isLE]
  rw [Equal, equalsBare_eq] at equal
  cases early : equalsEarly? a b with
  | some answer =>
    rw [early, Option.getD_some, isKnownTrue_equalsEarly? early, isNull_iff, isNull_iff] at equal
    obtain ⟨⟨t, ha⟩, u, hb⟩ := equal
    obtain ⟨m, x⟩ := a
    obtain ⟨n, y⟩ := b
    cases ha
    cases hb
    exact .inr ⟨rfl, fun h => by cases h⟩
  | none =>
    obtain ⟨da, db, types⟩ := equalsEarly?_eq_none.1 early
    rw [early, Option.getD_none] at equal
    refine .inr ⟨(setRank_of_present db.1).trans (setRank_of_present da.1).symm, fun _ => ?_⟩
    have alike := alike_of_present da.1 db.1 types
    unfold presentOrder
    generalize a.content = x at alike equal
    generalize b.content = y at alike equal
    cases alike with
    | number x y =>
      rw [compareContents, isKnownTrue_bool, beq_iff_eq] at equal
      rw [equal]
      exact Number.order_isLE.2 Number.le_rfl
    | string x y | bool x y =>
      rw [compareContents, isKnownTrue_bool, beq_iff_eq] at equal
      rw [equal]
      exact (compare_isLE_total y y).elim id id
    | _ =>
      simp only [hash]
      exact (compare_isLE_total b.hash b.hash).elim id id

/-- The elements that a set of a type has. -/
def ElementOf (e : Ty) (v : Value) : Prop :=
  v.ty = e ∧ v.containsMarked = false

/-- The order of set elements is one on the values of each type. -/
theorem orderOn_setOrder (e : Ty) :
    OrderOn (fun v : Value => v.ty = e) fun a b => (setOrder a b).isLE where
  trans := by
    intro a b c ha hb hc hab hbc
    rw [setOrder_isLE] at hab hbc ⊢
    rcases hab with lt | ⟨eq, le⟩ <;> rcases hbc with lt' | ⟨eq', le'⟩
    · exact .inl (Nat.lt_trans lt lt')
    · exact .inl (eq' ▸ lt)
    · exact .inl (eq ▸ lt')
    · refine .inr ⟨eq.trans eq', fun zero => ?_⟩
      have zero' := eq.symm.trans zero
      have pa := present_of_setRank zero
      have pb := present_of_setRank zero'
      have pc := present_of_setRank (eq'.symm.trans zero')
      exact presentOrder_trans (alike_of_present pa pb (ha.trans hb.symm))
        (alike_of_present pb pc (hb.trans hc.symm)) (le zero) (le' zero')
  total := by
    intro a b ha hb
    rw [setOrder_isLE, setOrder_isLE]
    rcases Nat.lt_trichotomy a.setRank b.setRank with lt | eq | lt
    · exact .inl (.inl lt)
    · by_cases zero : a.setRank = 0
      · have alike := alike_of_present (present_of_setRank zero)
          (present_of_setRank (eq.symm.trans zero)) (ha.trans hb.symm)
        exact (presentOrder_total alike).imp (fun le => .inr ⟨eq, fun _ => le⟩)
          fun le => .inr ⟨eq.symm, fun _ => le⟩
      · exact .inl (.inr ⟨eq, fun h => absurd h zero⟩)
    · exact .inr (.inl lt)

/-- The rules of sets of values list the elements of a type in an order. -/
theorem ordered_setOrder (e : Ty) : Rules.Ordered ValueRules (ElementOf e) where
  order _ := (orderOn_setOrder e).imp And.left
  merge _ a b ha hb h := by
    obtain ⟨hash, equal⟩ := h
    simp only [Rules.equivalent, equals_of_unmarked ha.2 hb.2] at equal
    exact setOrder_of_merged ⟨hash, equal⟩

/-- Elements that a set of them lists as they stand are made a set of them in this order. -/
theorem set_of_listed {items : List Value} (hne : items ≠ []) (elements : ∀ x ∈ items, ElementOf e x)
    (listed : (RuleSet.ofList (ValueRules.mk e) items).values = items) :
    Value.set items = .ok (bare (.set e items)) := by
  have unmarked : items.map unmarkDeep = items := by
    rw [List.map_congr_left fun x hx => (unmarkDeep_of_unmarked (elements x hx).2).1, List.map_id']
  have marks : MarkSet.unions (items.map deepMarks) = .empty := by
    refine MarkSet.unions_of_empty fun marks hm => ?_
    obtain ⟨x, hx, rfl⟩ := List.mem_map.1 hm
    exact (unmarkDeep_of_unmarked (elements x hx).2).2
  rw [set_of_common hne (commonType?_of_all hne fun x hx => (elements x hx).1), setOf,
    map_conformTo_of_ty fun x hx => (elements x hx).1, unmarked, marks, ofRuleSet,
    RuleSet.rules_ofList, listed]
  rfl

end Value

end ValueAlgebra
