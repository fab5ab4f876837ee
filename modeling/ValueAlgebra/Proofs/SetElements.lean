import Mathlib
import ValueAlgebra.RuleSet

/-!
# Elements of sets under a rule

A set under a rule keeps an element where it finds no equivalent one in the bucket of its hash. To
find it there, each element has to be in the bucket of its own hash, and there is one bucket for a
hash. This is what adding an element preserves.

Main statements:

* `RuleSet.Hashed.insert`: adding an element preserves the order of the buckets.
* `RuleSet.exists_kept`: a set of some elements lists those that are not equivalent to an earlier one.
-/

namespace ValueAlgebra

variable {ρ α β : Type} [Rules ρ α]

/-! ## Buckets -/

namespace Bucket

/-- The elements of all buckets. -/
def elements (buckets : List (Bucket α)) : List α :=
  buckets.flatMap (·.2)

/-- The hashes of buckets ascend, so that there is one bucket for a hash. -/
def Ascending (buckets : List (Bucket α)) : Prop :=
  (buckets.map (·.1)).Pairwise (· < ·)

variable {hash : UInt64} {buckets : List (Bucket α)}

theorem find_cons_self {xs : List α} : find hash ((hash, xs) :: buckets) = xs := by
  simp [find]

theorem find_cons_of_ne {other : UInt64} {xs : List α} (h : hash ≠ other) :
    find hash ((other, xs) :: buckets) = find hash buckets := by
  rw [find, List.lookup_cons, beq_eq_false_iff_ne.2 h]
  rfl

theorem mem_of_mem_find {x : α} (h : x ∈ find hash buckets) :
    ∃ xs, (hash, xs) ∈ buckets ∧ x ∈ xs := by
  induction buckets with
  | nil => cases h
  | cons b buckets ih =>
    obtain ⟨other, xs⟩ := b
    by_cases eq : hash = other
    · subst eq
      rw [find_cons_self] at h
      exact ⟨xs, List.mem_cons_self, h⟩
    · rw [find_cons_of_ne eq] at h
      obtain ⟨ys, hy, hx⟩ := ih h
      exact ⟨ys, List.mem_cons_of_mem _ hy, hx⟩

theorem find_eq_nil (h : ∀ b ∈ buckets, hash ≠ b.1) : find hash buckets = [] := by
  induction buckets with
  | nil => rfl
  | cons b buckets ih =>
    rw [find_cons_of_ne (h b List.mem_cons_self)]
    exact ih fun b hb => h b (List.mem_cons_of_mem _ hb)

/-- In ascending buckets a bucket is found by its hash. -/
theorem find_of_mem {xs : List α} (ha : Ascending buckets) (h : (hash, xs) ∈ buckets) :
    find hash buckets = xs := by
  induction buckets with
  | nil => cases h
  | cons b buckets ih =>
    obtain ⟨below, ha⟩ := List.pairwise_cons.1 ha
    rcases List.mem_cons.1 h with rfl | h
    · exact find_cons_self
    · have lt : b.1 < hash := below _ (List.mem_map_of_mem h)
      rw [find_cons_of_ne (UInt64.ne_of_lt lt).symm]
      exact ih ha h

/-- A bucket below all others has no place among them. -/
theorem find_of_lt {other : UInt64} {xs : List α} (ha : Ascending ((other, xs) :: buckets))
    (h : hash < other) : find hash ((other, xs) :: buckets) = [] := by
  obtain ⟨below, -⟩ := List.pairwise_cons.1 ha
  refine find_eq_nil fun b hb => ?_
  rcases List.mem_cons.1 hb with rfl | hb
  · exact UInt64.ne_of_lt h
  · exact UInt64.ne_of_lt (UInt64.lt_trans h (below _ (List.mem_map_of_mem hb)))

theorem mem_put {elements : List α} {b : Bucket α} (h : b ∈ put hash elements buckets) :
    b = (hash, elements) ∧ elements ≠ [] ∨ b ∈ buckets := by
  have added {rest : List (Bucket α)} (hn : ¬ elements.isEmpty = true)
      (h : b ∈ (hash, elements) :: rest) : b = (hash, elements) ∧ elements ≠ [] ∨ b ∈ rest := by
    rw [List.isEmpty_iff] at hn
    exact (List.mem_cons.1 h).imp_left fun eq => ⟨eq, hn⟩
  induction buckets with
  | nil =>
    unfold put at h
    split at h
    · cases h
    · exact added ‹_› h
  | cons first buckets ih =>
    obtain ⟨other, xs⟩ := first
    unfold put at h
    split at h
    · split at h
      · exact .inr h
      · exact added ‹_› h
    split at h
    · split at h
      · exact .inr (List.mem_cons_of_mem _ h)
      · exact (added ‹_› h).imp_right (List.mem_cons_of_mem _)
    · rcases List.mem_cons.1 h with rfl | h
      · exact .inr List.mem_cons_self
      · exact (ih h).imp_right (List.mem_cons_of_mem _)

theorem ascending_put (elements : List α) (ha : Ascending buckets) :
    Ascending (put hash elements buckets) := by
  induction buckets with
  | nil =>
    unfold put
    split
    · exact List.Pairwise.nil
    · exact List.pairwise_singleton _ _
  | cons first buckets ih =>
    obtain ⟨other, xs⟩ := first
    obtain ⟨below, rest⟩ := List.pairwise_cons.1 ha
    unfold put
    split
    · rename_i lt
      split
      · exact ha
      · refine List.pairwise_cons.2 ⟨fun h hh => ?_, ha⟩
        rcases List.mem_cons.1 hh with rfl | hh
        · exact lt
        · exact UInt64.lt_trans lt (below h hh)
    split
    · rename_i eq
      split
      · exact rest
      · exact List.pairwise_cons.2 ⟨eq ▸ below, rest⟩
    · rename_i not_lt ne
      have above : other < hash := UInt64.lt_of_le_of_ne (UInt64.not_lt.1 not_lt) (Ne.symm ne)
      refine List.pairwise_cons.2 ⟨fun h hh => ?_, ih rest⟩
      obtain ⟨b, hb, rfl⟩ := List.mem_map.1 hh
      rcases mem_put hb with ⟨rfl, -⟩ | hb
      · exact above
      · exact below _ (List.mem_map_of_mem hb)

theorem elements_cons (b : Bucket α) (buckets : List (Bucket α)) :
    elements (b :: buckets) = b.2 ++ elements buckets :=
  List.flatMap_cons

/-- Putting elements of a hash replaces the elements of this hash. -/
theorem perm_put (hash : UInt64) (ha : Ascending buckets) (xs : List α) :
    (find hash buckets ++ elements (put hash xs buckets)).Perm (xs ++ elements buckets) := by
  induction buckets with
  | nil => cases xs <;> simp [put, find, elements]
  | cons first buckets ih =>
    obtain ⟨other, ys⟩ := first
    have rest := (List.pairwise_cons.1 ha).2
    unfold put
    split
    · rename_i lt
      rw [find_of_lt ha lt]
      cases xs <;> simp [elements_cons]
    split
    · rename_i eq
      rw [← eq, find_cons_self]
      cases xs with
      | nil => simp [elements_cons]
      | cons x xs =>
        simp only [List.isEmpty_cons, Bool.false_eq_true, if_false, elements_cons]
        exact List.perm_append_comm_assoc ..
    · rename_i ne
      rw [find_cons_of_ne ne, elements_cons, elements_cons]
      have swapped := (ih rest).append_left ys
      exact (List.perm_append_comm_assoc ..).trans
        (swapped.trans (List.perm_append_comm_assoc ..))

/-- Putting one more element of a hash adds this element. -/
theorem elements_put (hash : UInt64) (ha : Ascending buckets) (x : α) :
    (elements (put hash (find hash buckets ++ [x]) buckets)).Perm (x :: elements buckets) := by
  have perm := perm_put hash ha (find hash buckets ++ [x])
  rw [List.append_assoc] at perm
  exact (List.perm_append_left_iff _).1 perm

end Bucket

/-! ## Sets -/

namespace RuleSet

/-- The buckets of a set ascend and hold elements of their hash. -/
structure Hashed (s : RuleSet ρ α) : Prop where
  ascending : Bucket.Ascending s.buckets
  hash : ∀ b ∈ s.buckets, ∀ x ∈ b.2, Rules.hash s.rules x = b.1

/-- Two elements of which the second is not kept where the first one is. -/
def Merge (rules : ρ) (x y : α) : Prop :=
  Rules.hash rules x = Rules.hash rules y ∧ Rules.equivalent rules x y = true

variable {rules : ρ} {s : RuleSet ρ α} {x : α}

theorem hashed_empty : (empty rules : RuleSet ρ α).Hashed :=
  ⟨List.Pairwise.nil, List.forall_mem_nil _⟩

theorem add_of_has (h : s.has x = true) : s.add x = (false, s) := by
  unfold has at h
  simp only [add, h, if_true]

theorem add_of_not_has (h : s.has x = false) :
    s.add x = (true, { s with
      buckets := Bucket.put (Rules.hash s.rules x) (s.bucket (Rules.hash s.rules x) ++ [x]) s.buckets
      size := s.size + 1 }) := by
  unfold has at h
  simp only [add, h, Bool.false_eq_true, if_false]

@[simp] theorem rules_insert : (s.insert x).rules = s.rules := by
  cases h : s.has x with
  | true => rw [insert, add_of_has h]
  | false => rw [insert, add_of_not_has h]

theorem rules_foldl_insert (xs : List α) (s : RuleSet ρ α) : (xs.foldl insert s).rules = s.rules := by
  induction xs generalizing s with
  | nil => rfl
  | cons y ys ih => rw [List.foldl_cons, ih, rules_insert]

theorem rules_ofList (rules : ρ) (xs : List α) : (ofList rules xs).rules = rules :=
  rules_foldl_insert xs _

theorem mem_values : x ∈ s.values ↔ x ∈ Bucket.elements s.buckets :=
  (List.mergeSort_perm _ _).mem_iff

/-- An element is found where one that it merges with is in the set. -/
theorem Hashed.has_iff (h : s.Hashed) :
    s.has x = true ↔ ∃ y ∈ Bucket.elements s.buckets, Merge s.rules y x := by
  simp only [has, bucket, List.any_eq_true, Bucket.elements, List.mem_flatMap, Merge]
  constructor
  · rintro ⟨y, hy, he⟩
    obtain ⟨ys, hb, hy⟩ := Bucket.mem_of_mem_find hy
    exact ⟨y, ⟨_, hb, hy⟩, h.hash _ hb y hy, he⟩
  · rintro ⟨y, ⟨b, hb, hy⟩, eq, he⟩
    refine ⟨y, ?_, he⟩
    rw [← eq, h.hash b hb y hy, Bucket.find_of_mem h.ascending hb]
    exact hy

theorem Hashed.insert (h : s.Hashed) (x : α) : (s.insert x).Hashed := by
  cases found : s.has x with
  | true =>
    rw [RuleSet.insert, add_of_has found]
    exact h
  | false =>
    rw [RuleSet.insert, add_of_not_has found]
    refine ⟨Bucket.ascending_put _ h.ascending, fun b hb y hy => ?_⟩
    rcases Bucket.mem_put hb with ⟨rfl, -⟩ | hb
    · rcases List.mem_append.1 hy with hy | hy
      · obtain ⟨ys, hm, hy⟩ := Bucket.mem_of_mem_find hy
        exact h.hash _ hm y hy
      · rw [List.mem_singleton.1 hy]
    · exact h.hash b hb y hy

/-- Adding an element keeps it unless it merges with one that is there. -/
theorem Hashed.elements_insert (h : s.Hashed) (x : α) :
    ((∃ y ∈ Bucket.elements s.buckets, Merge s.rules y x) ∧
      Bucket.elements (s.insert x).buckets = Bucket.elements s.buckets) ∨
    ((∀ y ∈ Bucket.elements s.buckets, ¬ Merge s.rules y x) ∧
      (Bucket.elements (s.insert x).buckets).Perm (x :: Bucket.elements s.buckets)) := by
  cases found : s.has x with
  | true =>
    rw [RuleSet.insert, add_of_has found]
    exact .inl ⟨h.has_iff.1 found, rfl⟩
  | false =>
    rw [RuleSet.insert, add_of_not_has found]
    refine .inr ⟨fun y hy merge => ?_, Bucket.elements_put _ h.ascending x⟩
    rw [h.has_iff.2 ⟨y, hy, merge⟩] at found
    cases found

/-- A set of the images of some things lists the images of those that do not merge with the image of
an earlier one. -/
theorem exists_kept (rules : ρ) (f : β → α) (qs : List β) :
    ∃ ps : List β, ps.Sublist qs ∧ (ofList rules (qs.map f)).values.Perm (ps.map f) ∧
      (ps.Pairwise fun p q => ¬ Merge rules (f p) (f q)) ∧
      ∀ q ∈ qs, q ∈ ps ∨ ∃ p ∈ ps, Merge rules (f p) (f q) := by
  suffices h : (ofList rules (qs.map f)).rules = rules ∧ (ofList rules (qs.map f)).Hashed ∧
      ∃ ps : List β, ps.Sublist qs ∧
        (Bucket.elements (ofList rules (qs.map f)).buckets).Perm (ps.map f) ∧
        (ps.Pairwise fun p q => ¬ Merge rules (f p) (f q)) ∧
        ∀ q ∈ qs, q ∈ ps ∨ ∃ p ∈ ps, Merge rules (f p) (f q) by
    obtain ⟨-, -, ps, sublist, perm, rest⟩ := h
    exact ⟨ps, sublist, (List.mergeSort_perm _ _).trans perm, rest⟩
  -- elements are added at the end
  induction qs using List.reverseRecOn with
  | nil => exact ⟨rfl, hashed_empty, [], .refl _, .refl _, .nil, by simp⟩
  | append_singleton qs q ih =>
    obtain ⟨hr, hashed, ps, sublist, perm, distinct, covered⟩ := ih
    have step : ofList rules ((qs ++ [q]).map f) = (ofList rules (qs.map f)).insert (f q) := by
      simp [ofList]
    rw [step]
    refine ⟨by rw [rules_insert, hr], hashed.insert _, ?_⟩
    have elements := hashed.elements_insert (f q)
    rw [hr] at elements
    rcases elements with ⟨⟨y, hy, merge⟩, eq⟩ | ⟨apart, added⟩
    · obtain ⟨p, hp, rfl⟩ := List.mem_map.1 (perm.mem_iff.1 hy)
      refine ⟨ps, sublist.trans (List.sublist_append_left ..), eq ▸ perm, distinct,
        fun x hx => ?_⟩
      rcases List.mem_append.1 hx with hx | hx
      · exact covered x hx
      · rw [List.mem_singleton.1 hx]
        exact .inr ⟨p, hp, merge⟩
    · refine ⟨ps ++ [q], sublist.append (.refl _), ?_, ?_, fun x hx => ?_⟩
      · rw [List.map_append]
        exact added.trans ((perm.cons _).trans (List.perm_append_singleton ..).symm)
      · refine List.pairwise_append.2 ⟨distinct, List.pairwise_singleton _ _, fun p hp x hx => ?_⟩
        rw [List.mem_singleton.1 hx]
        exact apart _ (perm.mem_iff.2 (List.mem_map_of_mem hp))
      · rcases List.mem_append.1 hx with hx | hx
        · refine (covered x hx).imp (List.mem_append_left _) ?_
          rintro ⟨p, hp, merge⟩
          exact ⟨p, List.mem_append_left _ hp, merge⟩
        · exact .inl (List.mem_append_right _ hx)

/-- A set of elements of which none merges with an earlier one lists all of them. -/
theorem perm_ofList {xs : List α} (h : xs.Pairwise fun x y => ¬ Merge rules x y) :
    (ofList rules xs).values.Perm xs := by
  suffices all : (ofList rules xs).Hashed ∧ (Bucket.elements (ofList rules xs).buckets).Perm xs from
    (List.mergeSort_perm _ _).trans all.2
  induction xs using List.reverseRecOn with
  | nil => exact ⟨hashed_empty, .refl _⟩
  | append_singleton xs x ih =>
    obtain ⟨earlier, -, apart⟩ := List.pairwise_append.1 h
    obtain ⟨hashed, perm⟩ := ih earlier
    have step : ofList rules (xs ++ [x]) = (ofList rules xs).insert x := by simp [ofList]
    rw [step]
    refine ⟨hashed.insert x, ?_⟩
    rcases hashed.elements_insert x with ⟨⟨y, hy, merge⟩, -⟩ | ⟨-, added⟩
    · rw [rules_ofList] at merge
      exact absurd merge (apart y (perm.mem_iff.1 hy) x (List.mem_singleton_self x))
    · exact added.trans ((perm.cons x).trans (List.perm_append_singleton x xs).symm)

/-- A set made of a list has no other elements than the list. -/
theorem mem_of_mem_ofList {xs : List α} (h : x ∈ (ofList rules xs).values) : x ∈ xs := by
  obtain ⟨ps, sublist, perm, -⟩ := exists_kept rules id xs
  rw [List.map_id, List.map_id] at perm
  exact sublist.subset (perm.mem_iff.1 h)

/-- A set made of a list is empty only if the list is. -/
theorem values_ofList_ne_nil (rules : ρ) {xs : List α} (h : xs ≠ []) :
    (ofList rules xs).values ≠ [] := by
  obtain ⟨ps, -, perm, -, covered⟩ := exists_kept rules id xs
  rw [List.map_id, List.map_id] at perm
  obtain ⟨x, hx⟩ := List.exists_mem_of_ne_nil _ h
  obtain ⟨p, hp⟩ : ∃ p, p ∈ ps := (covered x hx).elim (⟨x, ·⟩) fun ⟨p, hp, _⟩ => ⟨p, hp⟩
  exact List.ne_nil_of_mem (perm.mem_iff.2 hp)

end RuleSet

end ValueAlgebra
