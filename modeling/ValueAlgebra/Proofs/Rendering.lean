import Mathlib
import ValueAlgebra.Number.Decimal
import ValueAlgebra.Text.Normalize

/-!
# Rendered numbers

A rendered number has no exponent, so it can be read again without an exponent that is out of
range.

Main statements:

* `Number.noExponent_render`: rendered numbers are without an exponent.
* `Number.parse_ne_exponentOverflow`: an exponent can overflow only if there is one.
-/

namespace ValueAlgebra.Number

open Text

/-- No character starts an exponent. -/
def NoExponent (cs : List Char) : Prop :=
  ∀ c ∈ cs, (c == 'e' || c == 'E') = false

theorem splitAtFirst_none {sep : Char → Bool} {cs : List Char} (h : ∀ c ∈ cs, sep c = false) :
    splitAtFirst sep cs = (cs, none) := by
  have : cs.dropWhile (fun c => !sep c) = [] := by
    rw [List.dropWhile_eq_nil_iff]
    exact fun c hc => by rw [h c hc]; rfl
  rw [splitAtFirst, this]

/-! ## Reading without an exponent -/

theorem takeSign_subset (cs : List Char) : (takeSign cs).2 ⊆ cs := by
  unfold takeSign
  split
  · exact List.subset_cons_self ..
  · exact List.subset_cons_self ..
  · exact List.Subset.refl _

theorem parseUnsigned_ne_exponentOverflow {text : String} {negative : Bool} {cs : List Char}
    (h : NoExponent cs) : parseUnsigned text negative cs ≠ .error .exponentOverflow := by
  unfold parseUnsigned
  rw [splitAtFirst_none h]
  simp only
  split <;> intro h <;> cases h

/-- A text without an exponent does not have one that overflows. -/
theorem parse_ne_exponentOverflow {text : String} (h : NoExponent text.toList) :
    parse text ≠ .error .exponentOverflow := by
  unfold parse
  split
  · intro h
    cases h
  · simp only
    split
    · intro h
      cases h
    · exact parseUnsigned_ne_exponentOverflow fun c hc => h c (takeSign_subset _ hc)

/-! ## Writing -/

/-- The characters of a rendered fraction. -/
def Plain (c : Char) : Prop :=
  c.isDigit = true ∨ c = '-' ∨ c = '.'

theorem Plain.toNat_lt {c : Char} (h : Plain c) : c.toNat < 0x300 := by
  rcases h with h | rfl | rfl
  · rw [Char.isDigit, Bool.and_eq_true, decide_eq_true_eq, decide_eq_true_eq] at h
    have low : c.toNat ≤ 57 := by simpa [UInt32.le_iff_toNat_le] using h.2
    omega
  · decide
  · decide

theorem Plain.noExponent {c : Char} (h : Plain c) : (c == 'e' || c == 'E') = false := by
  by_contra exponent
  rw [Bool.not_eq_false, Bool.or_eq_true, beq_iff_eq, beq_iff_eq] at exponent
  unfold Plain at h
  rcases exponent with rfl | rfl <;> revert h <;> decide

theorem plain_renderScaled (negative : Bool) (magnitude places : Nat) {c : Char}
    (h : c ∈ (renderScaled negative magnitude places).toList) : Plain c := by
  have digit {c : Char} {zeros : Nat}
      (hc : c ∈ List.replicate zeros '0' ++ Nat.toDigits 10 magnitude) : c.isDigit = true := by
    rcases List.mem_append.1 hc with hc | hc
    · rw [List.eq_of_mem_replicate hc]
      rfl
    · exact Nat.isDigit_of_mem_toDigits (b := 10) (by decide) (by decide) hc
  rw [renderScaled, String.toList_ofList] at h
  simp only [List.mem_append] at h
  rcases h with ((h | h) | h) | h
  · split at h
    · exact .inr (.inl (List.mem_singleton.1 h))
    · cases h
  · exact .inl (digit (List.mem_of_mem_take h))
  · split at h
    · cases h
    · exact .inr (.inr (List.mem_singleton.1 h))
  · have h := List.mem_reverse.1 ((List.dropWhile_sublist _).subset (List.mem_reverse.1 h))
    exact .inl (digit (List.mem_of_mem_drop h))

theorem plain_renderFraction {q : Rat} {c : Char} (h : c ∈ (renderFraction q).toList) :
    Plain c := by
  unfold renderFraction at h
  split at h <;> exact plain_renderScaled _ _ _ h

/-- A rendered number is in canonical form. -/
theorem normalize_render (n : Number) : normalize n.render = n.render := by
  refine normalize_of_all_lt ?_
  cases n with
  | negInf => decide
  | posInf => decide
  | finite q =>
    exact List.all_eq_true.2 fun c hc => decide_eq_true (plain_renderFraction hc).toNat_lt

/-- A rendered number is without an exponent. -/
theorem noExponent_render (n : Number) : NoExponent (normalize n.render).toList := by
  rw [normalize_render]
  cases n with
  | negInf => exact List.forall_iff_forall_mem.1 (by decide)
  | posInf => exact List.forall_iff_forall_mem.1 (by decide)
  | finite q => exact fun c hc => (plain_renderFraction hc).noExponent

end ValueAlgebra.Number
