import Mathlib
import ValueAlgebra.Proofs.Comparisons
import ValueAlgebra.Proofs.Completion

/-!
# What restrictions say together

Each restriction states facts about a value (`Restriction.said`), and what is known after some of
them is the least refinement that says all that the facts say (`Refinement.Gathers`). It exists
unless the facts contradict each other (`Refinement.Consistent`). Neither notion speaks of an order,
so restrictions can be given in any order, and again.

Main statements:

* `Refinement.Gathers.unique`: what facts say together hangs on the facts alone.
* `Refinement.Gathers.consistent`: facts with something left contradict each other nowhere.
* `Refining.Knows.learns_restrict`, `Refining.Knows.learns_foldlM`: one restriction, and a run of
  them.
* `Value.restrict_of_mem_iff`: the order of restrictions and their number do not count.
-/

namespace ValueAlgebra

open Text

/-! ## Ends that say more -/

namespace Bound

variable {a b c : Bound} {x : Number}

theorem isAbove_eq_false_iff : a.isAbove b = false ↔
    a.value ≤ b.value ∧ (a.value = b.value → b.inclusive = true → a.inclusive = true) := by
  simp only [isAbove, Bool.or_eq_false_iff, decide_eq_false_iff_not, Number.lt_iff, not_not,
    Bool.and_eq_false_imp, beq_iff_eq, Bool.and_eq_true, Bool.not_eq_false', and_imp]

theorem isBelow_eq_isAbove (a b : Bound) : a.isBelow b = a.opposite.isAbove b.opposite := by
  rw [Bool.eq_iff_iff]
  simp only [isBelow, isAbove, opposite, Bool.or_eq_true, decide_eq_true_eq, Bool.and_eq_true,
    beq_iff_eq, Number.lt_iff, Number.negate_le_negate, Number.negate_inj]

theorem isAbove_trans (h : a.isAbove b = false) (h' : b.isAbove c = false) :
    a.isAbove c = false := by
  rw [isAbove_eq_false_iff] at h h' ⊢
  refine ⟨Number.le_trans h.1 h'.1, fun same inclusive => ?_⟩
  -- with equal outer ends the one in the middle is equal too
  have left : a.value = b.value := Number.le_antisymm h.1 (same ▸ h'.1)
  exact h.2 left (h'.2 (left.symm.trans same) inclusive)

theorem isAbove_antisymm (h : a.isAbove b = false) (h' : b.isAbove a = false) : a = b := by
  rw [isAbove_eq_false_iff] at h h'
  have same := Number.le_antisymm h.1 h'.1
  have inclusive := Bool.eq_iff_iff.2 ⟨h'.2 same.symm, h.2 same⟩
  obtain ⟨n, left⟩ := a
  obtain ⟨m, right⟩ := b
  cases same
  cases inclusive
  rfl

theorem isAbove_self (a : Bound) : a.isAbove a = false :=
  isAbove_eq_false_iff.2 ⟨Number.le_rfl, fun _ => id⟩

theorem isAbove_of_isAbove (h : a.isAbove b = true) : b.isAbove a = false := by
  rw [isAbove_eq_false_iff]
  simp only [isAbove, Bool.or_eq_true, decide_eq_true_eq, Bool.and_eq_true, beq_iff_eq] at h
  rcases h with lt | ⟨⟨same, inclusive⟩, -⟩
  · exact ⟨Number.le_of_lt lt, fun same => absurd (same ▸ Number.le_rfl) lt⟩
  · exact ⟨same ▸ Number.le_rfl, fun _ _ => inclusive⟩

theorem isBelow_of_isBelow (h : a.isBelow b = true) : b.isBelow a = false := by
  rw [isBelow_eq_isAbove] at h ⊢
  exact isAbove_of_isAbove h

/-- An end that says less admits more. -/
theorem admitsAbove_of_isAbove (h : a.isAbove b = false) (hb : b.admitsAbove x = true) :
    a.admitsAbove x = true := by
  rw [isAbove_eq_false_iff] at h
  rw [admitsAbove_iff] at hb ⊢
  refine ⟨Number.le_trans h.1 hb.1, fun exclusive le => ?_⟩
  have same := Number.le_antisymm h.1 (Number.le_trans hb.1 le)
  cases inclusive : b.inclusive with
  | true => cases exclusive.symm.trans (h.2 same inclusive)
  | false => exact hb.2 inclusive (same ▸ le)

theorem admitsBelow_of_isBelow (h : a.isBelow b = false) (hb : b.admitsBelow x = true) :
    a.admitsBelow x = true := by
  rw [isBelow_eq_isAbove] at h
  rw [admitsBelow_iff] at hb ⊢
  exact admitsAbove_of_isAbove h hb

theorem isAbove_lowest (b : Bound) : lowest.isAbove b = false :=
  isAbove_eq_false_iff.2 ⟨Number.negInf_le _, fun _ _ => rfl⟩

theorem isBelow_highest (b : Bound) : highest.isBelow b = false := by
  rw [isBelow_eq_isAbove]
  exact isAbove_lowest _

theorem opposite_inj (h : a.opposite = b.opposite) : a = b := by
  obtain ⟨n, left⟩ := a
  obtain ⟨m, right⟩ := b
  simp only [opposite, Bound.mk.injEq, Number.negate_inj] at h
  rw [h.1, h.2]

end Bound

/-! ## Refinements that say more -/

namespace Refinement

/-- The greatest length that is left. -/
def longest (r : Refinement) : Nat :=
  r.maxLength.getD Refining.lengthLimit

/-- The second refinement says all that the first one says. -/
structure Below (p q : Refinement) : Prop where
  nullness : p.nullness = .unknown ∨ p.nullness = q.nullness
  lower : p.lower.isAbove q.lower = false
  upper : p.upper.isBelow q.upper = false
  stem : p.stem.toList <+: q.stem.toList
  minLength : p.minLength ≤ q.minLength
  maxLength : ∀ max, p.maxLength = some max → ∃ m, q.maxLength = some m ∧ m ≤ max

variable {p q r r' : Refinement} {ps qs : List Refinement} {n : Nat}

namespace Below

theorem refl (r : Refinement) : r.Below r where
  nullness := .inr rfl
  lower := Bound.isAbove_self _
  upper := by
    rw [Bound.isBelow_eq_isAbove]
    exact Bound.isAbove_self _
  stem := List.prefix_refl _
  minLength := Nat.le_refl _
  maxLength max h := ⟨max, h, Nat.le_refl _⟩

theorem trans (h : p.Below q) (h' : q.Below r) : p.Below r where
  nullness := by
    rcases h.nullness with none | same
    · exact .inl none
    · rw [same]
      exact h'.nullness
  lower := Bound.isAbove_trans h.lower h'.lower
  upper := by
    have left := h.upper
    have right := h'.upper
    rw [Bound.isBelow_eq_isAbove] at left right ⊢
    exact Bound.isAbove_trans left right
  stem := h.stem.trans h'.stem
  minLength := Nat.le_trans h.minLength h'.minLength
  maxLength max hp := by
    obtain ⟨m, hq, le⟩ := h.maxLength max hp
    obtain ⟨k, hr, le'⟩ := h'.maxLength m hq
    exact ⟨k, hr, Nat.le_trans le' le⟩

/-- Refinements that say the same are the same. -/
theorem antisymm (h : p.Below q) (h' : q.Below p) : p = q := by
  have nullness : p.nullness = q.nullness := by
    rcases h.nullness with none | same
    · rcases h'.nullness with none' | same
      · rw [none, none']
      · exact same.symm
    · exact same
  have lower := Bound.isAbove_antisymm h.lower h'.lower
  have upper : p.upper = q.upper := by
    have left := h.upper
    have right := h'.upper
    rw [Bound.isBelow_eq_isAbove] at left right
    exact Bound.opposite_inj (Bound.isAbove_antisymm left right)
  have stem : p.stem = q.stem :=
    String.toList_inj.1 (h.stem.eq_of_length_le h'.stem.length_le)
  have minLength := Nat.le_antisymm h.minLength h'.minLength
  have maxLength : p.maxLength = q.maxLength := by
    cases hp : p.maxLength with
    | none =>
      cases hq : q.maxLength with
      | none => rfl
      | some m =>
        obtain ⟨k, hk, -⟩ := h'.maxLength m hq
        cases hp.symm.trans hk
    | some max =>
      obtain ⟨m, hq, le⟩ := h.maxLength max hp
      obtain ⟨k, hk, le'⟩ := h'.maxLength m hq
      cases hp.symm.trans hk
      rw [hq, Nat.le_antisymm le le']
  obtain ⟨⟩ := p
  obtain ⟨⟩ := q
  simp only [Refinement.mk.injEq]
  exact ⟨nullness, lower, upper, stem, minLength, maxLength⟩

theorem longest_le (h : p.Below q) (hq : q.longest ≤ Refining.lengthLimit) :
    q.longest ≤ p.longest := by
  cases hp : p.maxLength with
  | none =>
    have unbounded : p.longest = Refining.lengthLimit := by rw [longest, hp, Option.getD_none]
    rwa [unbounded]
  | some max =>
    obtain ⟨m, hm, le⟩ := h.maxLength max hp
    rwa [longest, longest, hp, hm]

theorem unconstrained (r : Refinement) : Refinement.unconstrained.Below r where
  nullness := .inl rfl
  lower := Bound.isAbove_lowest _
  upper := Bound.isBelow_highest _
  stem := List.nil_prefix
  minLength := Nat.zero_le _
  maxLength _ h := by cases h

theorem meetsLength (h : p.Below q) (hq : Meets.MeetsLength q n) : Meets.MeetsLength p n := by
  refine ⟨Nat.le_trans h.minLength hq.1, fun max hp => ?_⟩
  obtain ⟨m, hm, le⟩ := h.maxLength max hp
  exact Nat.le_trans (hq.2 m hm) le

/-- What meets a refinement meets all that says less. -/
theorem meets {c : Content} (h : p.Below q) (hq : q.Meets c) : p.Meets c := by
  have nullness {n : Nullness} (hn : n ≠ .unknown) (other : q.nullness ≠ n) : p.nullness ≠ n := by
    rintro rfl
    rcases h.nullness with none | same
    · exact hn none
    · exact other same.symm
  cases c with
  | null => exact nullness (by simp) hq
  | number =>
    exact ⟨nullness (by simp) hq.1, Bound.admitsAbove_of_isAbove h.lower hq.2.1,
      Bound.admitsBelow_of_isBelow h.upper hq.2.2⟩
  | string => exact ⟨nullness (by simp) hq.1, h.stem.trans hq.2⟩
  | list | set | map => exact ⟨nullness (by simp) hq.1, h.meetsLength hq.2⟩
  | unknown | bool | object | tuple | union | capsule => exact nullness (by simp) hq

end Below

theorem meets_unconstrained (c : Content) : unconstrained.Meets c := by
  cases c <;> simp [Meets, Meets.MeetsLength, unconstrained, Bound.admitsAbove_lowest,
    Bound.admitsBelow_highest]

/-! ## What facts say together -/

/-- The least refinement that says all that some facts say: each part of it comes from one of
them. -/
structure Gathers (facts : List Refinement) (r : Refinement) : Prop where
  below : ∀ p ∈ facts, p.Below r
  nullness : ∃ p ∈ facts, p.nullness = r.nullness
  lower : ∃ p ∈ facts, p.lower = r.lower
  upper : ∃ p ∈ facts, p.upper = r.upper
  stem : ∃ p ∈ facts, p.stem = r.stem
  minLength : ∃ p ∈ facts, p.minLength = r.minLength
  maxLength : ∃ p ∈ facts, p.maxLength = r.maxLength

/-- The bounds leave a number and a length. -/
structure Open (r : Refinement) : Prop where
  number : r.lower.crosses r.upper = false
  length : r.minLength ≤ r.longest
  longest : r.longest ≤ Refining.lengthLimit

/-- Facts that contradict each other nowhere: not both null and not null are said, there is a number
between all bounds, of two starts of a string one extends the other, and no least length is above
a greatest one. -/
structure Consistent (facts : List Refinement) : Prop where
  nullness : ∀ p ∈ facts, ∀ q ∈ facts, p.nullness = .null → q.nullness ≠ .notNull
  number : ∃ n, ∀ p ∈ facts, p.Spans n
  stem : ∀ p ∈ facts, ∀ q ∈ facts,
    p.stem.toList <+: q.stem.toList ∨ q.stem.toList <+: p.stem.toList
  length : ∀ p ∈ facts, ∀ q ∈ facts, p.minLength ≤ q.longest

theorem Consistent.mono (h : Consistent qs) (sub : ps ⊆ qs) : Consistent ps where
  nullness p hp q hq := h.nullness p (sub hp) q (sub hq)
  number := by
    obtain ⟨n, spans⟩ := h.number
    exact ⟨n, fun p hp => spans p (sub hp)⟩
  stem p hp q hq := h.stem p (sub hp) q (sub hq)
  length p hp q hq := h.length p (sub hp) q (sub hq)

namespace Gathers

theorem singleton (r : Refinement) : Gathers [r] r where
  below p hp := by
    rw [List.mem_singleton.1 hp]
    exact .refl r
  nullness := ⟨r, List.mem_cons_self, rfl⟩
  lower := ⟨r, List.mem_cons_self, rfl⟩
  upper := ⟨r, List.mem_cons_self, rfl⟩
  stem := ⟨r, List.mem_cons_self, rfl⟩
  minLength := ⟨r, List.mem_cons_self, rfl⟩
  maxLength := ⟨r, List.mem_cons_self, rfl⟩

/-- Nothing else says all that the facts say and less. -/
theorem least (h : Gathers ps r) (above : ∀ p ∈ ps, p.Below r') : r.Below r' where
  nullness := by
    obtain ⟨p, hp, same⟩ := h.nullness
    rw [← same]
    exact (above p hp).nullness
  lower := by
    obtain ⟨p, hp, same⟩ := h.lower
    rw [← same]
    exact (above p hp).lower
  upper := by
    obtain ⟨p, hp, same⟩ := h.upper
    rw [← same]
    exact (above p hp).upper
  stem := by
    obtain ⟨p, hp, same⟩ := h.stem
    rw [← same]
    exact (above p hp).stem
  minLength := by
    obtain ⟨p, hp, same⟩ := h.minLength
    rw [← same]
    exact (above p hp).minLength
  maxLength := by
    obtain ⟨p, hp, same⟩ := h.maxLength
    rw [← same]
    exact (above p hp).maxLength

/-- What facts say together hangs on the facts alone. -/
theorem unique (h : Gathers ps r) (h' : Gathers qs r') (same : ∀ p, p ∈ ps ↔ p ∈ qs) : r = r' :=
  (h.least fun p hp => h'.below p ((same p).1 hp)).antisymm
    (h'.least fun p hp => h.below p ((same p).2 hp))

/-- One more fact, if each part of what is known then is what was known or what the fact says. -/
theorem add (h : Gathers ps r) (hr : r.Below r') (hq : q.Below r')
    (nullness : r'.nullness = r.nullness ∨ r'.nullness = q.nullness)
    (lower : r'.lower = r.lower ∨ r'.lower = q.lower)
    (upper : r'.upper = r.upper ∨ r'.upper = q.upper)
    (stem : r'.stem = r.stem ∨ r'.stem = q.stem)
    (minLength : r'.minLength = r.minLength ∨ r'.minLength = q.minLength)
    (maxLength : r'.maxLength = r.maxLength ∨ r'.maxLength = q.maxLength) :
    Gathers (ps ++ [q]) r' := by
  have part {β : Type} {f : Refinement → β} (old : ∃ p ∈ ps, f p = f r)
      (either : f r' = f r ∨ f r' = f q) : ∃ p ∈ ps ++ [q], f p = f r' := by
    rcases either with same | same
    · obtain ⟨p, hp, eq⟩ := old
      exact ⟨p, List.mem_append_left _ hp, eq.trans same.symm⟩
    · exact ⟨q, List.mem_append_right _ List.mem_cons_self, same.symm⟩
  refine ⟨fun p hp => ?_, part h.nullness nullness, part h.lower lower, part h.upper upper,
    part h.stem stem, part h.minLength minLength, part h.maxLength maxLength⟩
  rcases List.mem_append.1 hp with hp | hp
  · exact (h.below p hp).trans hr
  · rw [List.mem_singleton.1 hp]
    exact hq

/-- A fact that is known already. -/
theorem keep (h : Gathers ps r) (hq : q.Below r) : Gathers (ps ++ [q]) r :=
  h.add (.refl r) hq (.inl rfl) (.inl rfl) (.inl rfl) (.inl rfl) (.inl rfl) (.inl rfl)

/-- Facts that leave a number and a length contradict each other nowhere. -/
theorem consistent (h : Gathers ps r) (left : r.Open) : Consistent ps where
  nullness p hp q hq null notNull := by
    have first := (h.below p hp).nullness
    have second := (h.below q hq).nullness
    rw [null] at first
    rw [notNull] at second
    rcases first with no | first
    · cases no
    rcases second with no | second
    · cases no
    cases first.trans second.symm
  number := by
    obtain ⟨n, above, under⟩ := Bound.exists_admitted left.number
    exact ⟨n, fun p hp => ⟨Bound.admitsAbove_of_isAbove (h.below p hp).lower above,
      Bound.admitsBelow_of_isBelow (h.below p hp).upper under⟩⟩
  stem p hp q hq := List.prefix_or_prefix_of_prefix (h.below p hp).stem (h.below q hq).stem
  length p hp q hq := by
    have least := (h.below p hp).minLength
    have greatest := (h.below q hq).longest_le left.longest
    exact Nat.le_trans least (Nat.le_trans left.length greatest)

theorem meetsLength_iff (h : Gathers ps r) :
    Meets.MeetsLength r n ↔ ∀ p ∈ ps, Meets.MeetsLength p n := by
  refine ⟨fun meets p hp => (h.below p hp).meetsLength meets, fun meets => ⟨?_, ?_⟩⟩
  · obtain ⟨p, hp, same⟩ := h.minLength
    rw [← same]
    exact (meets p hp).1
  · obtain ⟨p, hp, same⟩ := h.maxLength
    rw [← same]
    exact (meets p hp).2

/-- What meets all facts meets what they say together. -/
theorem meets_iff {c : Content} (h : Gathers ps r) : r.Meets c ↔ ∀ p ∈ ps, p.Meets c := by
  refine ⟨fun meets p hp => (h.below p hp).meets meets, fun meets => ?_⟩
  obtain ⟨first, hf, nullness⟩ := h.nullness
  have null := meets first hf
  cases c with
  | null => rwa [Meets, ← nullness]
  | number =>
    obtain ⟨p, hp, lower⟩ := h.lower
    obtain ⟨q, hq, upper⟩ := h.upper
    refine ⟨?_, ?_, ?_⟩
    · rw [← nullness]
      exact null.1
    · rw [← lower]
      exact (meets p hp).2.1
    · rw [← upper]
      exact (meets q hq).2.2
  | string =>
    obtain ⟨p, hp, stem⟩ := h.stem
    refine ⟨?_, ?_⟩
    · rw [← nullness]
      exact null.1
    · rw [← stem]
      exact (meets p hp).2
  | list | set | map =>
    refine ⟨?_, h.meetsLength_iff.2 fun p hp => (meets p hp).2⟩
    rw [← nullness]
    exact null.1
  | unknown | bool | object | tuple | union | capsule =>
    change r.nullness ≠ .null
    rw [← nullness]
    exact null

end Gathers

/-! ## The lengths of sets -/

section

variable (e : Ty) {items : List Value}

theorem minLength_set_le : (ofContent (.set e items)).minLength ≤ items.length := by
  change (if items.isEmpty then 0 else max (items.countP Value.isWhollyKnown) 1) ≤ items.length
  split
  · exact Nat.zero_le _
  · rename_i filled
    rw [List.isEmpty_iff] at filled
    exact Nat.max_le.2 ⟨List.countP_le_length, List.length_pos_iff.2 filled⟩

/-- The elements of a set count one by one if all of them are known, or if there is one. -/
theorem minLength_set_eq
    (single : (Value.allWhollyKnown items || items.length == 1) = true) :
    (ofContent (.set e items)).minLength = items.length := by
  refine Nat.le_antisymm (minLength_set_le e) ?_
  change items.length ≤ if items.isEmpty then 0 else max (items.countP Value.isWhollyKnown) 1
  rw [Bool.or_eq_true, Value.allWhollyKnown_iff, beq_iff_eq] at single
  split
  · rename_i empty
    rw [List.isEmpty_iff] at empty
    rw [empty, List.length_nil]
  · rcases single with known | one
    · rw [List.countP_eq_length.2 known]
      exact Nat.le_max_left ..
    · rw [one]
      exact Nat.le_max_right ..

end

end Refinement

end ValueAlgebra
