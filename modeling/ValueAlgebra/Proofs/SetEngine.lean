import Mathlib
import ValueAlgebra.Proofs.SetElements

/-!
# Sets under lawful rules

The rules of a set are lawful among some elements if equivalence is symmetric and transitive there
and equivalent elements have one hash. Equivalence need not be reflexive, so an element may be in a
set that does not find it. What a set of such elements keeps up is `RuleSet.Sound`: elements are in
the bucket of their hash, no bucket is empty, no two of the elements are equivalent, and the size is
their number.

Main statements:

* `RuleSet.Sound.add`, `RuleSet.Sound.remove`: what one step preserves.
* `RuleSet.Reachable.sound`: all sets that are made by the operations are sound.
* `RuleSet.reachable_laws`: what the operations do on the sets that are made by them.
-/

namespace ValueAlgebra

/-- A relation is symmetric and transitive among the things with a property. -/
structure PartialEquivalence {α : Type} (p : α → Prop) (r : α → α → Prop) : Prop where
  symm : ∀ {x y : α}, p x → p y → r x y → r y x
  trans : ∀ {x y z : α}, p x → p y → p z → r x y → r y z → r x z

/-- What the rules of a set promise about the elements with a property. -/
structure Rules.Lawful (ρ : Type) {α : Type} [Rules ρ α] (p : α → Prop) : Prop where
  equivalence : ∀ rules : ρ, PartialEquivalence p fun x y => Rules.equivalent rules x y = true
  hash : ∀ (rules : ρ) {x y : α}, p x → p y →
    Rules.equivalent rules x y = true → Rules.hash rules x = Rules.hash rules y

namespace RuleSet

variable {ρ α : Type} [Rules ρ α] {p : α → Prop} {s t rest : RuleSet ρ α} {x y removed : α}

/-- Neither of two elements is equivalent to the other one. -/
def Apart (rules : ρ) (x y : α) : Prop :=
  Rules.equivalent rules x y = false ∧ Rules.equivalent rules y x = false

theorem apart_symm {rules : ρ} (h : Apart rules x y) : Apart rules y x :=
  ⟨h.2, h.1⟩

/-- The elements are in the buckets of their hashes, buckets are not empty, elements at different
places are not equivalent, and the size is the number of elements. -/
structure Sound (p : α → Prop) (s : RuleSet ρ α) : Prop extends s.Hashed where
  within : ∀ x ∈ Bucket.elements s.buckets, p x
  filled : ∀ b ∈ s.buckets, b.2 ≠ []
  apart : (Bucket.elements s.buckets).Pairwise (Apart s.rules)
  counted : s.size = (Bucket.elements s.buckets).length

theorem values_perm (s : RuleSet ρ α) : s.values.Perm (Bucket.elements s.buckets) :=
  List.mergeSort_perm _ _

theorem sound_empty (rules : ρ) : (empty rules : RuleSet ρ α).Sound p :=
  ⟨hashed_empty, List.forall_mem_nil _, List.forall_mem_nil _, List.Pairwise.nil, rfl⟩

/-- A sound set stays so when the elements of a hash are exchanged for others of this hash that are
apart from each other and from the rest. -/
theorem Sound.put (h : s.Sound p) {hash : UInt64} {xs : List α} {n : Nat}
    (hx : ∀ x ∈ xs, Rules.hash s.rules x = hash)
    (within : ∀ x ∈ Bucket.elements (Bucket.put hash xs s.buckets), p x)
    (apart : (Bucket.elements (Bucket.put hash xs s.buckets)).Pairwise (Apart s.rules))
    (counted : n = (Bucket.elements (Bucket.put hash xs s.buckets)).length) :
    Sound p ⟨s.rules, Bucket.put hash xs s.buckets, n⟩ := by
  refine ⟨⟨Bucket.ascending_put xs h.ascending, ?_⟩, within, ?_, apart, counted⟩
  · intro b hb
    rcases Bucket.mem_put hb with ⟨rfl, -⟩ | hb
    · exact hx
    · exact h.hash b hb
  · intro b hb
    rcases Bucket.mem_put hb with ⟨rfl, nonempty⟩ | hb
    · exact nonempty
    · exact h.filled b hb

/-- The elements found under a hash have this hash. -/
theorem Sound.hash_of_mem_bucket (h : s.Sound p) {hash : UInt64} (hx : x ∈ s.bucket hash) :
    Rules.hash s.rules x = hash := by
  obtain ⟨xs, hb, hx⟩ := Bucket.mem_of_mem_find hx
  exact h.hash _ hb x hx

theorem Sound.of_mem_values (h : s.Sound p) (hx : x ∈ s.values) : p x :=
  h.within x (mem_values.1 hx)

/-! ## Finding -/

section

variable (lawful : Rules.Lawful ρ p)
include lawful

/-- An element is found where an equivalent one is stored. -/
theorem Sound.has_iff (h : s.Sound p) (hx : p x) :
    s.has x = true ↔ ∃ y ∈ s.values, Rules.equivalent s.rules y x = true := by
  rw [h.toHashed.has_iff]
  constructor
  · rintro ⟨y, hy, -, same⟩
    exact ⟨y, mem_values.2 hy, same⟩
  · rintro ⟨y, hy, same⟩
    exact ⟨y, mem_values.1 hy, lawful.hash _ (h.of_mem_values hy) hx same, same⟩

theorem Sound.not_has_iff (h : s.Sound p) (hx : p x) :
    s.has x = false ↔ ∀ y ∈ s.values, Rules.equivalent s.rules y x = false := by
  rw [← Bool.not_eq_true, h.has_iff lawful hx]
  simp

end

/-! ## Adding -/

theorem add_fst (s : RuleSet ρ α) (x : α) : (s.add x).1 = !s.has x := by
  cases h : s.has x with
  | true => rw [add_of_has h, Bool.not_true]
  | false => rw [add_of_not_has h, Bool.not_false]

theorem Sound.add (lawful : Rules.Lawful ρ p) (h : s.Sound p) (hx : p x) : (s.add x).2.Sound p := by
  cases found : s.has x with
  | true =>
    rw [add_of_has found]
    exact h
  | false =>
    have fresh := (h.not_has_iff lawful hx).1 found
    have perm := Bucket.elements_put (Rules.hash s.rules x) h.ascending x
    rw [add_of_not_has found]
    refine h.put ?_ ?_ ?_ ?_
    · intro y hy
      rcases List.mem_append.1 hy with hy | hy
      · exact h.hash_of_mem_bucket hy
      · rw [List.mem_singleton.1 hy]
    · intro y hy
      rcases List.mem_cons.1 (perm.mem_iff.1 hy) with rfl | hy
      · exact hx
      · exact h.within y hy
    · rw [bucket, perm.pairwise_iff apart_symm, List.pairwise_cons]
      refine ⟨fun y hy => ?_, h.apart⟩
      have differ := fresh y (mem_values.2 hy)
      refine ⟨?_, differ⟩
      by_contra same
      rw [Bool.not_eq_false] at same
      rw [(lawful.equivalence _).symm hx (h.within y hy) same] at differ
      cases differ
    · rw [bucket, perm.length_eq, List.length_cons, h.counted]

theorem Sound.foldl_insert (lawful : Rules.Lawful ρ p) {xs : List α} (hx : ∀ x ∈ xs, p x)
    (h : s.Sound p) : (xs.foldl insert s).Sound p := by
  induction xs generalizing s with
  | nil => exact h
  | cons x xs ih =>
    exact ih (fun y hy => hx y (List.mem_cons_of_mem _ hy)) (h.add lawful (hx x List.mem_cons_self))

theorem sound_ofList (lawful : Rules.Lawful ρ p) (rules : ρ) {xs : List α} (hx : ∀ x ∈ xs, p x) :
    (ofList rules xs).Sound p :=
  (sound_empty rules).foldl_insert lawful hx

/-! ## Removing -/

theorem remove?_isSome (s : RuleSet ρ α) (x : α) : (s.remove? x).isSome = s.has x := by
  unfold remove? has
  simp only
  cases found : (s.bucket (Rules.hash s.rules x)).findIdx?
      fun existing => Rules.equivalent s.rules existing x with
  | none =>
    rw [List.findIdx?_eq_none_iff] at found
    rw [Option.isSome_none, Eq.comm, List.any_eq_false]
    intro y hy
    rw [found y hy]
    simp
  | some i =>
    obtain ⟨hi, same, -⟩ := List.findIdx?_eq_some_iff_getElem.1 found
    simp only [List.getElem?_eq_getElem hi, Option.map_some, Option.isSome_some]
    exact (List.any_eq_true.2 ⟨_, List.getElem_mem hi, same⟩).symm

/-- The first element equivalent to `x` in its bucket is taken out. -/
theorem remove?_eq_some (h : s.remove? x = some (removed, rest)) :
    Rules.equivalent s.rules removed x = true ∧
    ∃ before after, s.bucket (Rules.hash s.rules x) = before ++ removed :: after ∧
      rest = ⟨s.rules, Bucket.put (Rules.hash s.rules x) (before ++ after) s.buckets,
        s.size - 1⟩ := by
  unfold remove? at h
  simp only at h
  split at h
  · cases h
  · rename_i i found
    obtain ⟨hi, same, -⟩ := List.findIdx?_eq_some_iff_getElem.1 found
    rw [List.getElem?_eq_getElem hi, Option.map_some] at h
    cases h
    refine ⟨same, (s.bucket (Rules.hash s.rules x)).take i,
      (s.bucket (Rules.hash s.rules x)).drop (i + 1), ?_, ?_⟩
    · rw [List.getElem_cons_drop, List.take_append_drop]
    · rw [List.eraseIdx_eq_take_drop_succ]

/-- Without a removed element there are all the others. -/
theorem Sound.perm_remove (h : s.Sound p) (hr : s.remove? x = some (removed, rest)) :
    (Bucket.elements s.buckets).Perm (removed :: Bucket.elements rest.buckets) := by
  obtain ⟨-, before, after, split, rfl⟩ := remove?_eq_some hr
  have perm := Bucket.perm_put (Rules.hash s.rules x) h.ascending (before ++ after)
  rw [← bucket, split] at perm
  have front : (before ++ removed :: after).Perm (removed :: (before ++ after)) := List.perm_middle
  have front := front.append_right
    (Bucket.elements (Bucket.put (Rules.hash s.rules x) (before ++ after) s.buckets))
  have same := front.symm.trans perm
  rw [List.cons_append] at same
  exact ((List.perm_append_left_iff _).1 (List.perm_middle.trans same)).symm

theorem Sound.remove (h : s.Sound p) (hr : s.remove? x = some (removed, rest)) : rest.Sound p := by
  have perm := h.perm_remove hr
  obtain ⟨-, before, after, split, rfl⟩ := remove?_eq_some hr
  refine h.put ?_ ?_ ?_ ?_
  · intro y hy
    apply h.hash_of_mem_bucket
    rw [split]
    exact ((List.sublist_cons_self removed after).append_left before).subset hy
  · intro y hy
    exact h.within y (perm.mem_iff.2 (List.mem_cons_of_mem _ hy))
  · have apart := h.apart
    rw [perm.pairwise_iff apart_symm] at apart
    exact (List.pairwise_cons.1 apart).2
  · rw [h.counted, perm.length_eq]
    rfl

/-- An element is not found after an equivalent one was removed. -/
theorem Sound.not_has_remove (lawful : Rules.Lawful ρ p) (h : s.Sound p) (hx : p x)
    (hr : s.remove? x = some (removed, rest)) : rest.has x = false := by
  have rules : rest.rules = s.rules := by
    obtain ⟨-, before, after, -, rfl⟩ := remove?_eq_some hr
    rfl
  have perm := h.perm_remove hr
  have apart := h.apart
  rw [perm.pairwise_iff apart_symm] at apart
  rw [(h.remove hr).not_has_iff lawful hx, rules]
  intro y hy
  have differ := ((List.pairwise_cons.1 apart).1 y (mem_values.1 hy)).1
  have first := h.within removed (perm.mem_iff.2 List.mem_cons_self)
  have second := (h.remove hr).of_mem_values hy
  by_contra same
  rw [Bool.not_eq_false] at same
  have back := (lawful.equivalence _).symm second hx same
  rw [(lawful.equivalence _).trans first hx second (remove?_eq_some hr).1 back] at differ
  cases differ

/-! ## Combining -/

section

variable (lawful : Rules.Lawful ρ p) (hs : s.Sound p)
include lawful hs

theorem Sound.union (ht : t.Sound p) : (s.union t).Sound p :=
  hs.foldl_insert lawful fun _ hx => ht.of_mem_values hx

theorem Sound.filter (q : α → Bool) : (ofList s.rules (s.values.filter q)).Sound p :=
  sound_ofList lawful _ fun _ hx => hs.of_mem_values (List.mem_of_mem_filter hx)

theorem Sound.symmetricDifference (ht : t.Sound p) : (s.symmetricDifference t).Sound p :=
  (hs.filter lawful _).foldl_insert lawful fun _ hx => ht.of_mem_values (List.mem_of_mem_filter hx)

end

/-! ## Runs of operations -/

/-- The sets that are made by operations on sets of elements with a property. -/
inductive Reachable (p : α → Prop) : RuleSet ρ α → Prop
  | empty (rules : ρ) : Reachable p (empty rules)
  | ofList (rules : ρ) {xs : List α} (hx : ∀ x ∈ xs, p x) : Reachable p (ofList rules xs)
  | add {s : RuleSet ρ α} {x : α} (hs : Reachable p s) (hx : p x) : Reachable p (s.add x).2
  | remove {s rest : RuleSet ρ α} {x removed : α} (hs : Reachable p s)
      (h : s.remove? x = some (removed, rest)) : Reachable p rest
  | combine {f : RuleSet ρ α → RuleSet ρ α → RuleSet ρ α} {s t c : RuleSet ρ α}
      (hf : f = union ∨ f = intersection ∨ f = subtract ∨ f = symmetricDifference)
      (hs : Reachable p s) (ht : Reachable p t) (h : combine f s t = some c) : Reachable p c

theorem Reachable.sound (lawful : Rules.Lawful ρ p) (h : s.Reachable p) : s.Sound p := by
  induction h with
  | empty rules => exact sound_empty rules
  | ofList rules hx => exact sound_ofList lawful rules hx
  | add _ hx ih => exact ih.add lawful hx
  | remove _ hr ih => exact ih.remove hr
  | combine hf _ _ hc ihs iht =>
    unfold RuleSet.combine at hc
    split at hc
    · cases hc
      rcases hf with rfl | rfl | rfl | rfl
      · exact ihs.union lawful iht
      · exact ihs.filter lawful _
      · exact ihs.filter lawful _
      · exact ihs.symmetricDifference lawful iht
    · cases hc

/-- Sets that are made by the operations are sound. An element is found if an equivalent one is
stored; it is added, as one more element, if it is not found; and if it is found, then one
equivalent to it is removed, after which it is not found and all other elements are there. -/
theorem reachable_laws (lawful : Rules.Lawful ρ p) {s : RuleSet ρ α} (h : s.Reachable p) :
    s.Sound p ∧ ∀ x : α, p x →
      (s.has x = true ↔ ∃ y ∈ s.values, Rules.equivalent s.rules y x = true) ∧
      ((s.add x).1 = true ↔ s.has x = false) ∧
      ((s.add x).1 = true → (s.add x).2.size = s.size + 1 ∧
        (s.add x).2.values.Perm (x :: s.values)) ∧
      ((s.add x).1 = false → (s.add x).2 = s) ∧
      ((s.remove? x).isSome = true ↔ s.has x = true) ∧
      ∀ removed rest, s.remove? x = some (removed, rest) →
        Rules.equivalent s.rules removed x = true ∧ rest.has x = false ∧
        s.values.Perm (removed :: rest.values) ∧ rest.size + 1 = s.size ∧
        ∀ y ∈ s.values, Rules.equivalent s.rules y x = false → y ∈ rest.values := by
  have sound := h.sound lawful
  refine ⟨sound, fun x hx => ⟨sound.has_iff lawful hx, ?_, ?_, ?_, ?_, ?_⟩⟩
  · rw [add_fst, Bool.not_eq_true']
  · intro added
    rw [add_fst, Bool.not_eq_true'] at added
    rw [add_of_not_has added]
    have perm := Bucket.elements_put (Rules.hash s.rules x) sound.ascending x
    exact ⟨rfl, (values_perm _).trans (perm.trans ((values_perm s).symm.cons x))⟩
  · intro kept
    rw [add_fst, Bool.not_eq_false'] at kept
    rw [add_of_has kept]
  · rw [remove?_isSome]
  · intro removed rest hr
    have same := (remove?_eq_some hr).1
    have perm := sound.perm_remove hr
    have listed : s.values.Perm (removed :: rest.values) :=
      (values_perm s).trans (perm.trans ((values_perm rest).symm.cons removed))
    refine ⟨same, sound.not_has_remove lawful hx hr, listed, ?_, ?_⟩
    · rw [sound.counted, (sound.remove hr).counted, perm.length_eq, List.length_cons]
    · intro y hy differ
      rcases List.mem_cons.1 (listed.mem_iff.1 hy) with rfl | hy
      · rw [same] at differ
        cases differ
      · exact hy

/-- Numbers are told apart by their remainders. What is not a number is equivalent to nothing. -/
structure Residues where
  divisor : Nat

instance : Rules Residues (Option Nat) where
  hash rules x := .ofNat (x.getD 0 % rules.divisor)
  equivalent rules x y :=
    x.isSome && y.isSome && x.getD 0 % rules.divisor == y.getD 0 % rules.divisor
  same a b := a.divisor == b.divisor

theorem lawful_residues : Rules.Lawful Residues fun _ => True where
  equivalence rules := by
    constructor
    · intro x y _ _ h
      simp only [Rules.equivalent, Bool.and_eq_true, beq_iff_eq] at h ⊢
      exact ⟨⟨h.1.2, h.1.1⟩, h.2.symm⟩
    · intro x y z _ _ _ h h'
      simp only [Rules.equivalent, Bool.and_eq_true, beq_iff_eq] at h h' ⊢
      exact ⟨⟨h.1.1, h'.1.2⟩, h.2.trans h'.2⟩
  hash rules x y _ _ h := by
    simp only [Rules.equivalent, Rules.hash, Bool.and_eq_true, beq_iff_eq] at h ⊢
    rw [h.2]

/-- The remainders 1 and 2 and two elements that are equivalent to nothing. -/
def residues : RuleSet Residues (Option Nat) :=
  ofList ⟨3⟩ [some 1, none, some 4, none, some 5]

/-- The element `1` is found as `7` and removed as such. -/
theorem reachable_laws_residues :
    (Rules.Lawful Residues fun _ => True) ∧ residues.Reachable (fun _ => True) ∧
    residues.Sound (fun _ => True) ∧ residues.size = 4 ∧
    residues.has none = false ∧ (residues.add none).2.size = 5 ∧
    residues.has (some 7) = true ∧
    ∃ rest, residues.remove? (some 7) = some (some 1, rest) ∧ rest.has (some 7) = false ∧
      rest.size = 3 := by
  have made : residues.Reachable (fun _ => True) := by
    unfold residues
    exact .ofList _ fun _ _ => trivial
  obtain ⟨sound, laws⟩ := reachable_laws lawful_residues made
  obtain ⟨-, -, grown, -, -, -⟩ := laws none trivial
  obtain ⟨-, -, -, -, -, taken⟩ := laws (some 7) trivial
  obtain ⟨rest, hr⟩ : ∃ rest, residues.remove? (some 7) = some (some 1, rest) := ⟨_, rfl⟩
  obtain ⟨-, gone, -, size, -⟩ := taken _ rest hr
  refine ⟨lawful_residues, made, sound, by decide, by decide, ?_, by decide, rest, hr, gone, ?_⟩
  · exact (grown (by decide)).1
  · have four : residues.size = 4 := by decide
    omega

end RuleSet

end ValueAlgebra
