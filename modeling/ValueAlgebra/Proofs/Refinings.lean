import Mathlib
import ValueAlgebra.Proofs.ArithmeticBounds
import ValueAlgebra.Proofs.RunParts

/-!
# What restrictions keep

However a value is restricted, the value and its marks stay what they were, and what is known about
it keeps to its type and leaves something possible (`Refining.Follows`). The result of refining is
the value itself, the one value that is left (`Refining.Only`), or an unknown.

Main statements:

* `Bound.exists_admitted`: two ends that do not cross have a number between them.
* `Refining.follows_restrict`, `Refining.follows_foldlM`: one restriction, and a sequence of them.
* `Refining.result_eq_ok`: the three ways to a result.
-/

namespace ValueAlgebra

open Text

/-! ## Numbers between two ends -/

/-- Between a number and a greater one there is a third. -/
theorem Number.exists_between {a b : Number} (h : a < b) : ∃ n, a < n ∧ n < b := by
  rw [lt_iff] at h
  cases a with
  | negInf =>
    cases b with
    | negInf => exact absurd trivial h
    | finite q => exact ⟨.finite (q - 1), id, not_le_of_gt (sub_one_lt q)⟩
    | posInf => exact ⟨.zero, id, id⟩
  | finite p =>
    cases b with
    | negInf => exact absurd trivial h
    | finite q =>
      obtain ⟨n, hp, hq⟩ := DenselyOrdered.dense p q (lt_of_not_ge h)
      exact ⟨.finite n, not_le_of_gt hp, not_le_of_gt hq⟩
    | posInf => exact ⟨.finite (p + 1), not_le_of_gt (lt_add_one p), id⟩
  | posInf => cases b <;> exact absurd trivial h

/-- Two ends that do not cross have a number between them. -/
theorem Bound.exists_admitted {l u : Bound} (h : l.crosses u = false) :
    ∃ n, l.admitsAbove n = true ∧ u.admitsBelow n = true := by
  simp only [crosses, Bool.or_eq_false_iff, decide_eq_false_iff_not, Bool.and_eq_false_imp,
    beq_iff_eq, Bool.not_eq_false', Bool.and_eq_true] at h
  by_cases same : l.value = u.value
  · obtain ⟨left, right⟩ := h.2 same
    refine ⟨l.value, ?_, ?_⟩
    · rw [admitsAbove, if_pos left, decide_eq_true_eq]
      exact Number.le_rfl
    · rw [admitsBelow, if_pos right, decide_eq_true_eq, same]
      exact Number.le_rfl
  · have lt : l.value < u.value := fun le => h.1 fun ge => same (Number.le_antisymm ge le)
    obtain ⟨n, above, below⟩ := Number.exists_between lt
    refine ⟨n, ?_, ?_⟩
    · rw [admitsAbove]
      split <;> simp only [decide_eq_true_eq, above, Number.le_of_lt above]
    · rw [admitsBelow]
      split <;> simp only [decide_eq_true_eq, below, Number.le_of_lt below]

@[simp] theorem Value.withMarks_empty (v : Value) : v.withMarks .empty = v := by
  obtain ⟨m, c⟩ := v
  rfl

/-! ## What is known about a value of some type -/

namespace Refinement

/-- Only what fits the type is restricted. -/
structure Suits (r : Refinement) (t : Ty) : Prop where
  numeric : t ≠ .number → r.lower = .lowest ∧ r.upper = .highest
  textual : t ≠ .string → r.stem = ""
  sized : t.isCollection = false → r.minLength = 0 ∧ r.maxLength = none

/-- Some number lies between the bounds, the text is the start of a string and there is a length
between the others. -/
structure Possible (r : Refinement) : Prop where
  number : ∃ n, r.lower.admitsAbove n = true ∧ r.upper.admitsBelow n = true
  stem : ∃ s, normalize s = r.stem
  length : r.minLength ≤ r.maxLength.getD Refining.lengthLimit ∧
    r.maxLength.getD Refining.lengthLimit ≤ Refining.lengthLimit

/-- What is known keeps to the type and leaves something possible. -/
structure Apt (r : Refinement) (t : Ty) : Prop extends r.Suits t, r.Possible

theorem apt_unconstrained (t : Ty) : unconstrained.Apt t where
  numeric _ := ⟨rfl, rfl⟩
  textual _ := rfl
  sized _ := ⟨rfl, rfl⟩
  number := ⟨.zero, rfl, rfl⟩
  stem := ⟨"", rfl⟩
  length := ⟨Nat.zero_le _, Nat.le_refl _⟩

end Refinement

namespace Refining

/-! ## Restrictions -/

variable {s s' s'' : Refining}

/-- The second state comes from the first one by restrictions. -/
structure Follows (s s' : Refining) : Prop where
  value : s'.value = s.value
  marks : s'.marks = s.marks
  untold : s.refinement = none → s'.refinement = none
  apt : (∀ r, s.refinement = some r → r.Apt s.value.ty) →
    ∀ r, s'.refinement = some r → r.Apt s.value.ty

theorem Follows.refl (s : Refining) : s.Follows s :=
  ⟨rfl, rfl, id, id⟩

theorem Follows.trans (h : s.Follows s') (h' : s'.Follows s'') : s.Follows s'' where
  value := h'.value.trans h.value
  marks := h'.marks.trans h.marks
  untold none := h'.untold (h.untold none)
  apt hs := by
    have apt := h'.apt
    rw [h.value] at apt
    exact apt (h.apt hs)

/-- A restriction that keeps what is known apt. -/
theorem follows_narrow {f : Refinement → Except Fault Refinement}
    (hf : ∀ r r', r.Apt s.value.ty → f r = .ok r' → r'.Apt s.value.ty) (h : s.narrow f = .ok s') :
    s.Follows s' := by
  rw [narrow] at h
  cases hr : s.refinement with
  | none =>
    rw [hr] at h
    cases h
    exact .refl s
  | some r =>
    rw [hr] at h
    obtain ⟨r', hr', rfl⟩ := map_eq_ok h
    refine ⟨rfl, rfl, fun none => ?_, fun apt r'' told => ?_⟩
    · rw [hr] at none
      cases none
    · cases told
      exact hf r r' (apt r hr) hr'

theorem follows_notNull (h : s.notNull = .ok s') : s.Follows s' := by
  refine follows_narrow (fun r r' apt hr => ?_) h
  split at hr
  · cases hr
  · cases hr
    exact ⟨⟨apt.numeric, apt.textual, apt.sized⟩, apt.number, apt.stem, apt.length⟩

theorem follows_null (h : s.null = .ok s') : s.Follows s' := by
  refine follows_narrow (fun r r' apt hr => ?_) h
  split at hr
  · cases hr
  · cases hr
    exact ⟨⟨apt.numeric, apt.textual, apt.sized⟩, apt.number, apt.stem, apt.length⟩

theorem follows_raiseLower {lower : Bound} (h : s.raiseLower lower = .ok s') : s.Follows s' := by
  refine follows_narrow (fun r r' apt hr => ?_) h
  split at hr
  · cases hr
  rename_i numeric
  rw [not_not] at numeric
  split at hr
  · cases hr
    exact apt
  split at hr
  · cases hr
  · rename_i crosses
    cases hr
    exact ⟨⟨fun other => absurd numeric other, apt.textual, apt.sized⟩,
      Bound.exists_admitted (eq_false_of_ne_true crosses), apt.stem, apt.length⟩

theorem follows_cutUpper {upper : Bound} (h : s.cutUpper upper = .ok s') : s.Follows s' := by
  refine follows_narrow (fun r r' apt hr => ?_) h
  split at hr
  · cases hr
  rename_i numeric
  rw [not_not] at numeric
  split at hr
  · cases hr
    exact apt
  split at hr
  · cases hr
  · rename_i crosses
    cases hr
    exact ⟨⟨fun other => absurd numeric other, apt.textual, apt.sized⟩,
      Bound.exists_admitted (eq_false_of_ne_true crosses), apt.stem, apt.length⟩

theorem follows_atLeast {bound : Value} {inclusive : Bool}
    (h : s.atLeast bound inclusive = .ok s') :
    s.Follows s' := by
  obtain ⟨n, -, h⟩ := bind_eq_ok h
  cases n with
  | none =>
    cases h
    exact .refl s
  | some n => exact follows_raiseLower h

theorem follows_atMost {bound : Value} {inclusive : Bool} (h : s.atMost bound inclusive = .ok s') :
    s.Follows s' := by
  obtain ⟨n, -, h⟩ := bind_eq_ok h
  cases n with
  | none =>
    cases h
    exact .refl s
  | some n => exact follows_cutUpper h

theorem follows_startsWith {stem : String} (h : s.startsWith stem = .ok s') : s.Follows s' := by
  refine follows_narrow (fun r r' apt hr => ?_) h
  simp only at hr
  split at hr
  · cases hr
  rename_i textual
  rw [not_not] at textual
  split at hr
  · cases hr
    exact apt
  split at hr
  · cases hr
  · cases hr
    exact ⟨⟨apt.numeric, fun other => absurd textual other, apt.sized⟩, apt.number, ⟨stem, rfl⟩,
      apt.length⟩

theorem follows_lengthAtLeast {min : Nat} (h : s.lengthAtLeast min = .ok s') : s.Follows s' := by
  refine follows_narrow (fun r r' apt hr => ?_) h
  split at hr
  · cases hr
  rename_i collection
  rw [Bool.not_eq_true, Bool.not_eq_false'] at collection
  split at hr
  · cases hr
    exact apt
  split at hr
  · cases hr
  · rename_i fits
    cases hr
    refine ⟨⟨apt.numeric, apt.textual, fun other => ?_⟩, apt.number, apt.stem,
      Nat.le_of_not_lt fits, apt.length.2⟩
    rw [collection] at other
    cases other

theorem follows_lengthAtMost {max : Nat} (h : s.lengthAtMost max = .ok s') : s.Follows s' := by
  refine follows_narrow (fun r r' apt hr => ?_) h
  split at hr
  · cases hr
  rename_i collection
  rw [Bool.not_eq_true, Bool.not_eq_false'] at collection
  split at hr
  · cases hr
    exact apt
  rename_i less
  split at hr
  · cases hr
  · rename_i fits
    cases hr
    refine ⟨⟨apt.numeric, apt.textual, fun other => ?_⟩, apt.number, apt.stem,
      Nat.le_of_not_lt fits, ?_⟩
    · rw [collection] at other
      cases other
    · exact Nat.le_trans (Nat.le_of_not_le less) apt.length.2

/-- A restriction changes nothing but what is known, and keeps it apt. -/
theorem follows_restrict {x : Restriction} (h : s.restrict x = .ok s') : s.Follows s' := by
  cases x with
  | notNull => exact follows_notNull h
  | null => exact follows_null h
  | atLeast => exact follows_atLeast h
  | atMost => exact follows_atMost h
  | between =>
    obtain ⟨middle, first, second⟩ := bind_eq_ok h
    exact (follows_atLeast first).trans (follows_atMost second)
  | startsWith => exact follows_startsWith h
  | startsWithOpen => exact follows_startsWith h
  | lengthAtLeast => exact follows_lengthAtLeast h
  | lengthAtMost => exact follows_lengthAtMost h
  | length =>
    obtain ⟨middle, first, second⟩ := bind_eq_ok h
    exact (follows_lengthAtLeast first).trans (follows_lengthAtMost second)

theorem follows_foldlM {xs : List Restriction} (h : xs.foldlM restrict s = .ok s') :
    s.Follows s' := by
  induction xs generalizing s with
  | nil =>
    cases h
    exact .refl _
  | cons x xs ih =>
    rw [List.foldlM_cons] at h
    obtain ⟨middle, first, rest⟩ := bind_eq_ok h
    exact (follows_restrict first).trans (ih rest)

/-! ## Results -/

/-- The values that may be all that is left of an unknown of some type. -/
inductive Only : Ty → Value → Prop
  | null (t : Ty) : Only t (.null t)
  | number (n : Number) : Only .number (.number n)
  | list (e : Ty) (n : Nat) : Only (.list e) (.bare (.list e (List.replicate n (.unknown e))))
  | emptySet (e : Ty) : Only (.set e) (.bare (.set e []))
  | set (e : Ty) : Only (.set e) (.bare (.set e [.unknown e]))
  | map (e : Ty) : Only (.map e) (.bare (.map e []))

theorem only_of_onlyResult? {t : Ty} {r : Refinement} {v : Value}
    (h : onlyResult? t r = .ok (some v)) : Only t v := by
  unfold onlyResult? at h
  split at h
  · cases h
    exact .null _
  · cases h
  · have h := Except.ok.inj h
    split at h <;> cases h
    exact .number _
  · split at h
    · cases h
    split at h <;> cases h
    exact .list _ _
  · have h := Except.ok.inj h
    split at h <;> cases h
    · exact .emptySet _
    · exact .set _
  · have h := Except.ok.inj h
    split at h <;> cases h
    exact .map _
  · cases h

theorem Only.ty {t : Ty} {v : Value} (h : Only t v) : v.ty = t := by
  cases h <;> simp only [Value.null, Value.number, Value.bare, Value.ty]

/-- The result is the value, the one value that is left of an unknown, or an unknown for which there
is no such value. -/
theorem result_eq_ok {w : Value} (h : s.result = .ok w) :
    ∃ v, w = v.withMarks s.marks ∧
      (v = s.value ∧ (s.value.isKnown = true ∨ s.refinement = none) ∨
        s.value.isKnown = false ∧ ∃ r, s.refinement = some r ∧
          (Only s.value.ty v ∨
            v = .refined s.value.ty r ∧ onlyResult? s.value.ty r = .ok none)) := by
  rw [result] at h
  split at h
  · rename_i r unknown told
    obtain ⟨only, ho, h⟩ := bind_eq_ok h
    cases only with
    | some v =>
      cases h
      exact ⟨v, rfl, .inr ⟨unknown, r, told, .inl (only_of_onlyResult? ho)⟩⟩
    | none =>
      cases h
      exact ⟨_, rfl, .inr ⟨unknown, r, told, .inr ⟨rfl, ho⟩⟩⟩
  · rename_i other
    cases h
    refine ⟨s.value, rfl, .inl ⟨rfl, ?_⟩⟩
    cases known : s.value.isKnown with
    | true => exact .inl rfl
    | false =>
      cases told : s.refinement with
      | none => exact .inr rfl
      | some r => exact absurd told (other r known)

/-! ## Unknowns that something is said about -/

/-- What an unknown of some type may be told to be. -/
inductive Told (t : Ty) : Value → Prop
  | untold : Told t (.unknown t)
  | only {v : Value} (h : Only t v) : Told t v
  | narrowed {r : Refinement} (ht : t ≠ .dynamic) (apt : r.Apt t)
      (more : onlyResult? t r = .ok none) : Told t (.refined t r)

/-- Restrictions of an unknown tell an unknown of its type, or the one value that is left. -/
theorem told_of_follows {t : Ty} {w : Value} (follows : (Value.unknown t).refine.Follows s)
    (h : s.result = .ok w) : Told t w := by
  have unknown : s.value = .unknown t := follows.value
  have typed : s.value.ty = t := by
    rw [unknown]
    simp only [Value.unknown, Value.refined, Value.bare, Value.ty]
  obtain ⟨v, rfl, kept⟩ := result_eq_ok h
  rw [show s.marks = .empty from follows.marks, Value.withMarks_empty]
  rcases kept with ⟨rfl, -⟩ | ⟨-, r, told, only | ⟨rfl, more⟩⟩
  · rw [unknown]
    exact .untold
  · exact .only (typed ▸ only)
  · rw [typed] at more ⊢
    have start : (Value.unknown t).refine.refinement =
        if t.isDynamic then none else some .unconstrained := by
      rw [← typed, unknown]
      rfl
    have closed : t ≠ .dynamic := by
      rintro rfl
      rw [follows.untold start] at told
      cases told
    refine .narrowed closed ?_ more
    have apt := follows.apt fun r hr => ?_
    · exact typed ▸ apt r told
    · rw [start] at hr
      split at hr <;> cases hr
      exact Refinement.apt_unconstrained _

end Refining

end ValueAlgebra
