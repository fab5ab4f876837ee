import ValueAlgebra.Proofs.TypeParts
import ValueAlgebra.Ty.Generality

/-!
# Generality is the same either way round

A type is as general as itself, and which of two types is the more general one does not hang on the
order in which they are given. Some pairs of kinds have a clause for each order, others are turned
round, and structures follow the majority of their parts; the argument goes by induction over the
parts of the first type, since a majority is turned round where all votes are.

Main statement:

* `Ty.generality_oriented`: generality is reflexive, and turned round for types that are turned
  round.
-/

namespace ValueAlgebra.Ty

/-! ## Votes -/

theorem vote_swap (o : Ordering) : vote o.swap = -vote o := by
  cases o <;> rfl

theorem compare_neg_zero (n : Int) : compare (-n) 0 = (compare n 0).swap := by
  rcases lt_trichotomy n 0 with h | rfl | h
  · rw [compare_lt_iff_lt.2 h, compare_gt_iff_gt.2 (by omega)]
    rfl
  · rfl
  · rw [compare_gt_iff_gt.2 h, compare_lt_iff_lt.2 (by omega)]
    rfl

/-- Votes of named parts are votes of the parts. -/
theorem balanceEntries_eq (as : List (String × Ty)) (bs : List Ty) :
    balanceEntries as bs = balance (Entries.values as) bs := by
  induction as generalizing bs with
  | nil => simp [balanceEntries, balance]
  | cons entry as ih =>
    obtain ⟨name, a⟩ := entry
    cases bs with
    | nil => simp [balanceEntries, balance]
    | cons b bs => rw [balanceEntries, ih, Entries.values_cons, balance]

/-- The votes of parts are turned round where all of them are. -/
theorem balance_swap {as bs : List Ty}
    (h : ∀ a ∈ as, ∀ b, a.generality b = (b.generality a).swap) :
    balance as bs = -balance bs as := by
  induction as generalizing bs with
  | nil => cases bs <;> simp [balance]
  | cons a as ih =>
    cases bs with
    | nil => simp [balance]
    | cons b bs =>
      have first := h a List.mem_cons_self b
      have rest : balance as bs = -balance bs as :=
        ih fun a ha => h a (List.mem_cons_of_mem _ ha)
      rw [balance, balance, first, vote_swap, rest]
      omega

/-! ## Types that are turned round -/

theorem generality_swap (a b : Ty) : a.generality b = (b.generality a).swap := by
  refine induction (motive := fun a => ∀ b, a.generality b = (b.generality a).swap) ?_ a b
  intro a ih b
  cases a with
  | list a =>
    cases b with
    | list b =>
      rw [generality, generality]
      exact ih a List.mem_cons_self b
    | set b => rw [generality, generality, Ordering.swap_swap]
    | _ => simp [generality]
  | set a =>
    cases b with
    | set b =>
      rw [generality, generality]
      exact ih a List.mem_cons_self b
    | list b => rw [generality, generality]
    | _ => simp [generality]
  | map a =>
    cases b with
    | map b =>
      rw [generality, generality]
      exact ih a List.mem_cons_self b
    | _ => simp [generality]
  | object as os =>
    cases b with
    | object bs ps =>
      rw [generality, generality]
      by_cases names : Entries.names as = Entries.names bs
      · have parts : balance (Entries.values as) (Entries.values bs) =
            -balance (Entries.values bs) (Entries.values as) := balance_swap ih
        rw [if_pos names, if_pos names.symm, balanceEntries_eq, balanceEntries_eq, parts,
          compare_neg_zero]
      · rw [if_neg names, if_neg (Ne.symm names)]
        rfl
    | _ => simp [generality]
  | tuple as =>
    cases b with
    | tuple bs =>
      rw [generality, generality]
      by_cases length : as.length = bs.length
      · have parts : balance as bs = -balance bs as := balance_swap ih
        rw [if_pos length, if_pos length.symm, parts, compare_neg_zero]
      · rw [if_neg length, if_neg (Ne.symm length)]
        rfl
    | _ => simp [generality]
  | _ => cases b <;> simp [generality]

instance : Std.OrientedCmp generality where
  eq_swap := generality_swap _ _

/-- Generality is reflexive, and turned round for types that are turned round. -/
theorem generality_oriented (a b : Ty) :
    a.generality a = .eq ∧ a.generality b = (b.generality a).swap :=
  ⟨Std.ReflCmp.compare_self, generality_swap a b⟩

end ValueAlgebra.Ty
