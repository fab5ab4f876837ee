import Mathlib
import ValueAlgebra.Proofs.Narrowing
import ValueAlgebra.Proofs.SameType

/-!
# Runs of restrictions

Each restriction states some facts about a value (`Restriction.said`). As long as these contradict
neither each other nor what is known already, what is known after a run of restrictions is what all
facts say together (`Refining.Knows`). Facts that contradict each other make the run fail, and so
does a restriction that cannot be given to a value of the type. Where an unknown value has no type
yet nothing is kept about it, and only bounds that are no numbers fail.

Nothing in this hangs on the order of restrictions or on how often each of them is given.

Main statements:

* `Refining.Knows.learns_restrict`, `Refining.Knows.learns_foldlM`: one restriction, and a run.
* `Refining.Knows.exists_error_iff`: when a run fails.
* `Value.restrict_of_mem_iff`: order and repetition of restrictions do not count.
-/

namespace ValueAlgebra

open Text

/-! ## What a restriction says -/

namespace Restriction

/-- No number lies below a bound. An unknown bound says nothing. -/
def floor (bound : Value) (inclusive : Bool) : List Refinement :=
  (bound.number?.map fun n => { lower := ⟨n, inclusive⟩ }).toList

/-- No number lies above a bound. -/
def ceiling (bound : Value) (inclusive : Bool) : List Refinement :=
  (bound.number?.map fun n => { upper := ⟨n, inclusive⟩ }).toList

/-- A length that no collection exceeds says nothing. -/
def atMostLong (max : Nat) : Refinement :=
  { maxLength := if max < Refining.lengthLimit then some max else none }

/-- The facts that a restriction states. -/
def said : Restriction → List Refinement
  | .notNull => [.notNull]
  | .null => [{ nullness := .null }]
  | .atLeast bound inclusive => floor bound inclusive
  | .atMost bound inclusive => ceiling bound inclusive
  | .between min max => floor min true ++ ceiling max true
  | .startsWith stem => [{ stem := normalize stem }]
  | .startsWithOpen stem => [{ stem := normalize (dropLastCluster (normalize stem)) }]
  | .lengthAtLeast min => [{ minLength := min }]
  | .lengthAtMost max => [atMostLong max]
  | .length n => [{ minLength := n }, atMostLong n]

/-- A value can be a bound: it is a number or may become one. -/
def Bounding (bound : Value) : Prop :=
  (bound.ty = .dynamic ∨ bound.ty = .number) ∧ bound.isNull = false

/-- The bounds of a restriction are bounds. -/
def Posed : Restriction → Prop
  | .atLeast bound _ | .atMost bound _ => Bounding bound
  | .between min max => Bounding min ∧ Bounding max
  | _ => True

/-- A restriction says something about values of a type, or nothing at all. -/
def Concerns (x : Restriction) (t : Ty) : Prop :=
  match x with
  | .notNull | .null => True
  | .atLeast bound _ | .atMost bound _ => bound.number? ≠ none → t = .number
  | .between min max => min.number? ≠ none ∨ max.number? ≠ none → t = .number
  | .startsWith _ | .startsWithOpen _ => t = .string
  | .lengthAtLeast _ | .lengthAtMost _ | .length _ => t.isCollection = true

end Restriction

namespace Refining

open Refinement Restriction

variable {s s' : Refining} {p q r r' : Refinement} {facts facts' : List Refinement}
  {xs ys : List Restriction}

/-- The whole text of a known string. -/
def whole? (s : Refining) : Option String :=
  match s.value.content with
  | .string text => some text
  | _ => none

/-- Facts that may hold of a value together: they do not contradict each other, and a known string
starts with all that it is said to start with. -/
structure Allows (s : Refining) (facts : List Refinement) : Prop where
  consistent : Consistent facts
  whole : ∀ text, s.whole? = some text → ∀ p ∈ facts, p.stem.toList <+: text.toList

theorem Allows.mono (h : s.Allows facts') (sub : facts ⊆ facts') : s.Allows facts :=
  ⟨h.consistent.mono sub, fun text known p hp => h.whole text known p (sub hp)⟩

/-- What is known is what some facts say together. -/
structure Knows (s : Refining) (facts : List Refinement) (r : Refinement) : Prop where
  told : s.refinement = some r
  gathers : Gathers facts r
  left : r.Open
  whole : ∀ text, s.whole? = some text → r.stem = text

theorem Knows.allows (h : s.Knows facts r) : s.Allows facts := by
  refine ⟨h.gathers.consistent h.left, fun text known p hp => ?_⟩
  rw [← h.whole text known]
  exact (h.gathers.below p hp).stem

/-- A step after which some facts are known of the same value, or that fails since they contradict
each other. -/
def Learns (s : Refining) (facts : List Refinement) : Except Fault Refining → Prop
  | .ok s' => s'.value = s.value ∧ s'.marks = s.marks ∧ ∃ r, s'.Knows facts r
  | .error _ => ¬ s.Allows facts

theorem whole?_of_value (h : s'.value = s.value) : s'.whole? = s.whole? := by
  rw [whole?, whole?, h]

theorem allows_iff_of_value (h : s'.value = s.value) : s'.Allows facts ↔ s.Allows facts := by
  constructor <;> intro allows <;> refine ⟨allows.consistent, fun text known => ?_⟩
  · exact allows.whole text ((whole?_of_value h).trans known)
  · exact allows.whole text ((whole?_of_value h).symm.trans known)

/-- A step after another one. -/
theorem Learns.bind {x : Except Fault Refining} {f : Refining → Except Fault Refining}
    (h : s.Learns facts x) (sub : facts ⊆ facts')
    (next : ∀ (s' : Refining) (r : Refinement), s'.value = s.value → s'.Knows facts r →
      s'.Learns facts' (f s')) :
    s.Learns facts' (x >>= f) := by
  cases x with
  | error => exact fun allows => h (allows.mono sub)
  | ok s' =>
    obtain ⟨value, marks, r, knows⟩ := h
    have step := next s' r value knows
    change s.Learns facts' (f s')
    cases last : f s' with
    | error =>
      rw [last] at step
      exact fun allows => step ((allows_iff_of_value value).2 allows)
    | ok s'' =>
      rw [last] at step
      exact ⟨step.1.trans value, step.2.1.trans marks, step.2.2⟩

/-- A refinement that says what some facts say together, or a fault as they contradict each other. -/
def Gives (s : Refining) (facts : List Refinement) : Except Fault Refinement → Prop
  | .ok r => Gathers facts r ∧ r.Open ∧ ∀ text, s.whole? = some text → r.stem = text
  | .error _ => ¬ s.Allows facts

/-- A step that narrows what is known. -/
theorem Knows.learns_narrow (h : s.Knows facts r) {f : Refinement → Except Fault Refinement}
    (gives : s.Gives facts' (f r)) : s.Learns facts' (s.narrow f) := by
  rw [narrow, h.told]
  change s.Learns facts' ((f r).map _)
  cases hr : f r with
  | error fault =>
    rw [hr] at gives
    exact gives
  | ok r' =>
    rw [hr] at gives
    obtain ⟨gathers, left, whole⟩ := gives
    exact ⟨rfl, rfl, r', rfl, gathers, left, whole⟩

/-- Nothing new is said. -/
theorem Knows.gives_keep (h : s.Knows facts r) (known : p.Below r) :
    s.Gives (facts ++ [p]) (.ok r) :=
  ⟨h.gathers.keep known, h.left, h.whole⟩

/-! ### Whether a value is null -/

theorem Knows.learns_notNull (h : s.Knows facts r) :
    s.Learns (facts ++ [Refinement.notNull]) s.notNull := by
  refine h.learns_narrow ?_
  split
  · rename_i null
    intro allows
    obtain ⟨p, hp, same⟩ := h.gathers.nullness
    exact allows.consistent.nullness p (List.mem_append_left _ hp) .notNull
      (List.mem_append_right _ List.mem_cons_self) (same.trans null) rfl
  · rename_i other
    refine ⟨h.gathers.add ?_ ?_ (.inr rfl) (.inl rfl) (.inl rfl) (.inl rfl) (.inl rfl) (.inl rfl),
      ⟨h.left.number, h.left.length, h.left.longest⟩, h.whole⟩
    · refine { Below.refl r with nullness := ?_ }
      cases hn : r.nullness with
      | unknown => exact .inl rfl
      | null => exact absurd hn other
      | notNull => exact .inr rfl
    · exact { Below.unconstrained r with nullness := .inr rfl }

theorem Knows.learns_null (h : s.Knows facts r) :
    s.Learns (facts ++ [{ nullness := .null }]) s.null := by
  refine h.learns_narrow ?_
  split
  · rename_i notNull
    intro allows
    obtain ⟨p, hp, same⟩ := h.gathers.nullness
    exact allows.consistent.nullness _ (List.mem_append_right _ List.mem_cons_self) p
      (List.mem_append_left _ hp) rfl (same.trans notNull)
  · rename_i other
    refine ⟨h.gathers.add ?_ ?_ (.inr rfl) (.inl rfl) (.inl rfl) (.inl rfl) (.inl rfl) (.inl rfl),
      ⟨h.left.number, h.left.length, h.left.longest⟩, h.whole⟩
    · refine { Below.refl r with nullness := ?_ }
      cases hn : r.nullness with
      | unknown => exact .inl rfl
      | null => exact .inr rfl
      | notNull => exact absurd hn other
    · exact { Below.unconstrained r with nullness := .inr rfl }

/-! ### Bounds of a number -/

/-- Ends that cross leave no number. -/
theorem not_allows_of_crosses (hp : p ∈ facts) (hq : q ∈ facts)
    (crosses : p.lower.crosses q.upper = true) : ¬ s.Allows facts := by
  intro allows
  obtain ⟨n, spans⟩ := allows.consistent.number
  rw [Bound.not_crosses (spans p hp).1 (spans q hq).2] at crosses
  cases crosses

theorem Knows.learns_raiseLower {lower : Bound} (h : s.Knows facts r)
    (numeric : s.value.ty = .number) :
    s.Learns (facts ++ [{ lower := lower }]) (s.raiseLower lower) := by
  refine h.learns_narrow ?_
  simp only [if_neg (not_not.2 numeric)]
  split
  · rename_i kept
    rw [Bool.not_eq_true'] at kept
    exact h.gives_keep { Below.unconstrained r with lower := kept }
  rename_i above
  rw [Bool.not_eq_true, Bool.not_eq_false'] at above
  split
  · rename_i crosses
    obtain ⟨p, hp, same⟩ := h.gathers.upper
    exact not_allows_of_crosses (List.mem_append_right _ List.mem_cons_self)
      (List.mem_append_left _ hp) (same ▸ crosses)
  · rename_i apart
    exact ⟨h.gathers.add { Below.refl r with lower := Bound.isAbove_of_isAbove above }
        { Below.unconstrained r with lower := Bound.isAbove_self _ }
        (.inl rfl) (.inr rfl) (.inl rfl) (.inl rfl) (.inl rfl) (.inl rfl),
      ⟨eq_false_of_ne_true apart, h.left.length, h.left.longest⟩, h.whole⟩

theorem Knows.learns_cutUpper {upper : Bound} (h : s.Knows facts r)
    (numeric : s.value.ty = .number) :
    s.Learns (facts ++ [{ upper := upper }]) (s.cutUpper upper) := by
  refine h.learns_narrow ?_
  simp only [if_neg (not_not.2 numeric)]
  split
  · rename_i kept
    rw [Bool.not_eq_true'] at kept
    exact h.gives_keep { Below.unconstrained r with upper := kept }
  rename_i under
  rw [Bool.not_eq_true, Bool.not_eq_false'] at under
  split
  · rename_i crosses
    obtain ⟨p, hp, same⟩ := h.gathers.lower
    exact not_allows_of_crosses (List.mem_append_left _ hp)
      (List.mem_append_right _ List.mem_cons_self) (same ▸ crosses)
  · rename_i apart
    exact ⟨h.gathers.add { Below.refl r with upper := Bound.isBelow_of_isBelow under }
        { Below.unconstrained r with upper := (Below.refl { r with upper := upper }).upper }
        (.inl rfl) (.inl rfl) (.inr rfl) (.inl rfl) (.inl rfl) (.inl rfl),
      ⟨eq_false_of_ne_true apart, h.left.length, h.left.longest⟩, h.whole⟩

theorem boundNumber_of_bounding {side : Side} {bound : Value} (h : Bounding bound) :
    boundNumber side bound = .ok bound.number? := by
  rw [boundNumber, if_neg (fun other => h.1.elim other.1 other.2),
    if_neg (ne_true_of_eq_false h.2)]

theorem boundNumber_of_not_bounding (side : Side) {bound : Value} (h : ¬ Bounding bound) :
    ∃ fault, boundNumber side bound = .error fault := by
  rw [boundNumber]
  split
  · exact ⟨_, rfl⟩
  split
  · exact ⟨_, rfl⟩
  · rename_i typed present
    exact absurd ⟨by tauto, eq_false_of_ne_true present⟩ h

theorem Knows.learns_atLeast {bound : Value} {inclusive : Bool} (h : s.Knows facts r)
    (posed : Bounding bound) (numeric : bound.number? ≠ none → s.value.ty = .number) :
    s.Learns (facts ++ floor bound inclusive) (s.atLeast bound inclusive) := by
  rw [atLeast, boundNumber_of_bounding posed, floor]
  cases hn : bound.number? with
  | none =>
    rw [Option.map_none, Option.toList_none, List.append_nil]
    exact ⟨rfl, rfl, r, h⟩
  | some n => exact h.learns_raiseLower (numeric (by simp [hn]))

theorem Knows.learns_atMost {bound : Value} {inclusive : Bool} (h : s.Knows facts r)
    (posed : Bounding bound) (numeric : bound.number? ≠ none → s.value.ty = .number) :
    s.Learns (facts ++ ceiling bound inclusive) (s.atMost bound inclusive) := by
  rw [atMost, boundNumber_of_bounding posed, ceiling]
  cases hn : bound.number? with
  | none =>
    rw [Option.map_none, Option.toList_none, List.append_nil]
    exact ⟨rfl, rfl, r, h⟩
  | some n => exact h.learns_cutUpper (numeric (by simp [hn]))

/-! ### The start of a string -/

/-- A known string is known as a whole. -/
theorem exists_whole (textual : s.value.ty = .string) (known : s.value.isKnown = true)
    (present : s.value.isNull = false) : ∃ text, s.whole? = some text := by
  obtain ⟨⟨m, c⟩, marks, refinement⟩ := s
  cases c with
  | string text => exact ⟨text, rfl⟩
  | unknown => cases known
  | null => cases present
  | _ => cases textual

theorem Knows.learns_startsWith {stem : String} (h : s.Knows facts r)
    (textual : s.value.ty = .string) :
    s.Learns (facts ++ [{ stem := normalize stem }]) (s.startsWith stem) := by
  unfold startsWith
  generalize normalize stem = new
  refine h.learns_narrow ?_
  simp only [if_neg (not_not.2 textual), List.isPrefixOf_iff_prefix]
  split
  · rename_i kept
    exact h.gives_keep { Below.unconstrained r with stem := kept }
  rename_i other
  have said : ({ stem := new } : Refinement) ∈ facts ++ [{ stem := new }] :=
    List.mem_append_right _ List.mem_cons_self
  split
  · rename_i refused
    intro allows
    simp only [Bool.or_eq_true, Bool.and_eq_true, Bool.not_eq_true'] at refused
    rcases refused with ⟨known, present⟩ | apart
    · obtain ⟨text, whole⟩ := exists_whole textual known present
      apply other
      rw [h.whole text whole]
      exact allows.whole text whole _ said
    · obtain ⟨p, hp, same⟩ := h.gathers.stem
      rcases allows.consistent.stem p (List.mem_append_left _ hp) _ said with start | start
      · rw [same, ← List.isPrefixOf_iff_prefix, apart] at start
        cases start
      · rw [same] at start
        exact other start
  · rename_i longer
    simp only [Bool.or_eq_true, Bool.and_eq_true, Bool.not_eq_true', not_or, not_and,
      Bool.not_eq_false] at longer
    refine ⟨h.gathers.add { Below.refl r with stem := List.isPrefixOf_iff_prefix.1 longer.2 }
        { Below.unconstrained r with stem := List.prefix_refl _ }
        (.inl rfl) (.inl rfl) (.inl rfl) (.inr rfl) (.inl rfl) (.inl rfl),
      ⟨h.left.number, h.left.length, h.left.longest⟩, fun text whole => ?_⟩
    -- only a value that is not a known string gets here
    rw [whole?] at whole
    obtain ⟨⟨m, c⟩, marks, refinement⟩ := s
    cases c with
    | string => cases longer.1 rfl
    | _ => cases whole

/-! ### The length of a collection -/

/-- A least length above a greatest one leaves no length. -/
theorem not_allows_of_lt (hp : p ∈ facts) (hq : q ∈ facts) (beyond : q.longest < p.minLength) :
    ¬ s.Allows facts :=
  fun allows => Nat.not_le_of_lt beyond (allows.consistent.length p hp q hq)

theorem Knows.learns_lengthAtLeast {min : Nat} (h : s.Knows facts r)
    (sized : s.value.ty.isCollection = true) :
    s.Learns (facts ++ [{ minLength := min }]) (s.lengthAtLeast min) := by
  refine h.learns_narrow ?_
  simp only [sized, Bool.not_true, Bool.false_eq_true, if_false]
  split
  · rename_i kept
    exact h.gives_keep { Below.unconstrained r with minLength := kept }
  rename_i more
  split
  · rename_i beyond
    obtain ⟨p, hp, same⟩ := h.gathers.maxLength
    refine not_allows_of_lt (List.mem_append_right _ List.mem_cons_self)
      (List.mem_append_left _ hp) ?_
    rwa [longest, same]
  · rename_i fits
    exact ⟨h.gathers.add { Below.refl r with minLength := Nat.le_of_not_le more }
        { Below.unconstrained r with minLength := Nat.le_refl _ }
        (.inl rfl) (.inl rfl) (.inl rfl) (.inl rfl) (.inr rfl) (.inl rfl),
      ⟨h.left.number, Nat.le_of_not_lt fits, h.left.longest⟩, h.whole⟩

theorem Knows.learns_lengthAtMost {max : Nat} (h : s.Knows facts r)
    (sized : s.value.ty.isCollection = true) :
    s.Learns (facts ++ [atMostLong max]) (s.lengthAtMost max) := by
  refine h.learns_narrow ?_
  simp only [sized, Bool.not_true, Bool.false_eq_true, if_false]
  split
  · rename_i kept
    refine h.gives_keep { Below.unconstrained r with maxLength := fun m hm => ?_ }
    have small : max < lengthLimit ∧ max = m := by simpa [atMostLong] using hm
    obtain ⟨below, rfl⟩ := small
    cases hr : r.maxLength with
    | none =>
      rw [hr, Option.getD_none] at kept
      exact absurd kept (Nat.not_le_of_lt below)
    | some k =>
      rw [hr, Option.getD_some] at kept
      exact ⟨k, rfl, kept⟩
  rename_i more
  have less : max < r.longest := Nat.lt_of_not_le more
  have limited : (atMostLong max).maxLength = some max :=
    if_pos (Nat.lt_of_lt_of_le less h.left.longest)
  split
  · rename_i beyond
    obtain ⟨p, hp, same⟩ := h.gathers.minLength
    refine not_allows_of_lt (List.mem_append_left _ hp)
      (List.mem_append_right _ List.mem_cons_self) ?_
    rwa [longest, limited, same]
  · rename_i fits
    refine ⟨h.gathers.add { Below.refl r with maxLength := fun m hm => ?_ }
        { Below.unconstrained r with maxLength := fun m hm => ?_ }
        (.inl rfl) (.inl rfl) (.inl rfl) (.inl rfl) (.inl rfl) (.inr limited.symm),
      ⟨h.left.number, Nat.le_of_not_lt fits, Nat.le_trans (Nat.le_of_lt less) h.left.longest⟩,
      h.whole⟩
    · rw [longest, hm, Option.getD_some] at less
      exact ⟨max, rfl, Nat.le_of_lt less⟩
    · rw [limited] at hm
      cases hm
      exact ⟨max, rfl, Nat.le_refl _⟩

/-! ### Any restriction -/

/-- A restriction that concerns the type of a value is learned, or contradicts what is known. -/
theorem Knows.learns_restrict {x : Restriction} (h : s.Knows facts r) (posed : x.Posed)
    (concerns : x.Concerns s.value.ty) : s.Learns (facts ++ x.said) (s.restrict x) := by
  cases x with
  | notNull => exact h.learns_notNull
  | null => exact h.learns_null
  | atLeast => exact h.learns_atLeast posed concerns
  | atMost => exact h.learns_atMost posed concerns
  | between min max =>
    rw [said, ← List.append_assoc]
    refine (h.learns_atLeast posed.1 fun hn => concerns (.inl hn)).bind
      (List.subset_append_left _ _) fun s' r' value knows => ?_
    exact knows.learns_atMost posed.2 fun hn => value ▸ concerns (.inr hn)
  | startsWith => exact h.learns_startsWith concerns
  | startsWithOpen => exact h.learns_startsWith concerns
  | lengthAtLeast => exact h.learns_lengthAtLeast concerns
  | lengthAtMost => exact h.learns_lengthAtMost concerns
  | length n =>
    rw [said, List.append_cons]
    refine (h.learns_lengthAtLeast concerns).bind
      (List.subset_append_left _ _) fun s' r' value knows => ?_
    exact knows.learns_lengthAtMost (value ▸ concerns)

theorem bounding_of_boundNumber {side : Side} {bound : Value} {n : Option Number}
    (h : boundNumber side bound = .ok n) : Bounding bound ∧ n = bound.number? := by
  by_cases bounding : Bounding bound
  · rw [boundNumber_of_bounding bounding] at h
    exact ⟨bounding, (Except.ok.inj h).symm⟩
  · obtain ⟨fault, hf⟩ := boundNumber_of_not_bounding side bounding
    rw [hf] at h
    cases h

theorem atLeast_eq_ok {bound : Value} {inclusive : Bool} (h : s.atLeast bound inclusive = .ok s') :
    Bounding bound ∧ (bound.number? = none ∧ s' = s ∨
      ∃ n, bound.number? = some n ∧ s.raiseLower ⟨n, inclusive⟩ = .ok s') := by
  obtain ⟨n, hn, h⟩ := bind_eq_ok h
  obtain ⟨bounding, rfl⟩ := bounding_of_boundNumber hn
  refine ⟨bounding, ?_⟩
  cases hn : bound.number? with
  | none =>
    rw [hn] at h
    cases h
    exact .inl ⟨rfl, rfl⟩
  | some n =>
    rw [hn] at h
    exact .inr ⟨n, rfl, h⟩

theorem atMost_eq_ok {bound : Value} {inclusive : Bool} (h : s.atMost bound inclusive = .ok s') :
    Bounding bound ∧ (bound.number? = none ∧ s' = s ∨
      ∃ n, bound.number? = some n ∧ s.cutUpper ⟨n, inclusive⟩ = .ok s') := by
  obtain ⟨n, hn, h⟩ := bind_eq_ok h
  obtain ⟨bounding, rfl⟩ := bounding_of_boundNumber hn
  refine ⟨bounding, ?_⟩
  cases hn : bound.number? with
  | none =>
    rw [hn] at h
    cases h
    exact .inl ⟨rfl, rfl⟩
  | some n =>
    rw [hn] at h
    exact .inr ⟨n, rfl, h⟩

/-- Whatever is known, bounds have to be numbers. -/
theorem posed_of_restrict {x : Restriction} (h : s.restrict x = .ok s') : x.Posed := by
  cases x with
  | atLeast => exact (atLeast_eq_ok h).1
  | atMost => exact (atMost_eq_ok h).1
  | between =>
    obtain ⟨middle, first, second⟩ := bind_eq_ok h
    exact ⟨(atLeast_eq_ok first).1, (atMost_eq_ok second).1⟩
  | _ => trivial

/-- Where something is known of a value, a step gets past what it checks first. -/
theorem not_of_narrow {check : Prop} [Decidable check] {fault : Fault}
    {f : Refinement → Except Fault Refinement} (told : s.refinement = some r)
    (h : s.narrow (fun r => if check then .error fault else f r) = .ok s') : ¬ check := by
  intro refused
  simp only [narrow, told, if_pos refused] at h
  cases h

theorem numeric_of_atLeast {bound : Value} {inclusive : Bool} (told : s.refinement = some r)
    (h : s.atLeast bound inclusive = .ok s') (numbered : bound.number? ≠ none) :
    s.value.ty = .number := by
  rcases (atLeast_eq_ok h).2 with ⟨none, -⟩ | ⟨n, -, h⟩
  · exact absurd none numbered
  · exact not_not.1 (not_of_narrow told h)

theorem numeric_of_atMost {bound : Value} {inclusive : Bool} (told : s.refinement = some r)
    (h : s.atMost bound inclusive = .ok s') (numbered : bound.number? ≠ none) :
    s.value.ty = .number := by
  rcases (atMost_eq_ok h).2 with ⟨none, -⟩ | ⟨n, -, h⟩
  · exact absurd none numbered
  · exact not_not.1 (not_of_narrow told h)

theorem textual_of_startsWith {stem : String} (told : s.refinement = some r)
    (h : s.startsWith stem = .ok s') : s.value.ty = .string :=
  not_not.1 (not_of_narrow told h)

theorem sized_of_lengthAtLeast {min : Nat} (told : s.refinement = some r)
    (h : s.lengthAtLeast min = .ok s') : s.value.ty.isCollection = true := by
  simpa using not_of_narrow told h

theorem sized_of_lengthAtMost {max : Nat} (told : s.refinement = some r)
    (h : s.lengthAtMost max = .ok s') : s.value.ty.isCollection = true := by
  simpa using not_of_narrow told h

/-- Where something is known of a value, restrictions have to concern its type. -/
theorem concerns_of_restrict {x : Restriction} (told : s.refinement = some r)
    (h : s.restrict x = .ok s') : x.Concerns s.value.ty := by
  cases x with
  | notNull | null => trivial
  | atLeast => exact numeric_of_atLeast told h
  | atMost => exact numeric_of_atMost told h
  | between min max =>
    obtain ⟨middle, first, second⟩ := bind_eq_ok h
    rintro (numbered | numbered)
    · exact numeric_of_atLeast told first numbered
    · rcases (atLeast_eq_ok first).2 with ⟨-, rfl⟩ | ⟨n, -, first⟩
      · exact numeric_of_atMost told second numbered
      · exact not_not.1 (not_of_narrow told first)
  | startsWith => exact textual_of_startsWith told h
  | startsWithOpen => exact textual_of_startsWith told h
  | lengthAtLeast => exact sized_of_lengthAtLeast told h
  | lengthAtMost => exact sized_of_lengthAtMost told h
  | length =>
    obtain ⟨middle, first, -⟩ := bind_eq_ok h
    exact sized_of_lengthAtLeast told first

/-! ### Runs of restrictions -/

/-- Restrictions of which each one concerns the type of a value are learned together, or contradict
what is known. -/
theorem Knows.learns_foldlM (h : s.Knows facts r)
    (applies : ∀ x ∈ xs, x.Posed ∧ x.Concerns s.value.ty) :
    s.Learns (facts ++ xs.flatMap said) (xs.foldlM restrict s) := by
  induction xs generalizing s facts r with
  | nil =>
    rw [List.flatMap_nil, List.append_nil]
    exact ⟨rfl, rfl, r, h⟩
  | cons x xs ih =>
    obtain ⟨⟨posed, concerns⟩, rest⟩ := List.forall_mem_cons.1 applies
    rw [List.foldlM_cons, List.flatMap_cons, ← List.append_assoc]
    refine (h.learns_restrict posed concerns).bind (List.subset_append_left _ _)
      fun s' r' value knows => ?_
    exact ih knows (value ▸ rest)

theorem Knows.applies_of_foldlM (h : s.Knows facts r) (run : xs.foldlM restrict s = .ok s') :
    ∀ x ∈ xs, x.Posed ∧ x.Concerns s.value.ty := by
  induction xs generalizing s facts r with
  | nil => exact List.forall_mem_nil _
  | cons x xs ih =>
    rw [List.foldlM_cons] at run
    obtain ⟨middle, first, rest⟩ := bind_eq_ok run
    have posed := posed_of_restrict first
    have concerns := concerns_of_restrict h.told first
    have learned := h.learns_restrict posed concerns
    rw [first] at learned
    obtain ⟨value, -, r', knows⟩ := learned
    exact List.forall_mem_cons.2 ⟨⟨posed, concerns⟩, value ▸ ih knows rest⟩

/-- What is known after a run. -/
theorem Knows.knows_foldlM (h : s.Knows facts r) (run : xs.foldlM restrict s = .ok s') :
    s'.value = s.value ∧ s'.marks = s.marks ∧ ∃ r', s'.Knows (facts ++ xs.flatMap said) r' := by
  have learned := h.learns_foldlM (h.applies_of_foldlM run)
  rwa [run] at learned

/-- A run of restrictions fails if one of them cannot be given to a value of the type, or if they
contradict each other or what is known already. -/
theorem Knows.exists_error_iff (h : s.Knows facts r) :
    (∃ fault, xs.foldlM restrict s = .error fault) ↔
      (∃ x ∈ xs, ¬ (x.Posed ∧ x.Concerns s.value.ty)) ∨
        ¬ s.Allows (facts ++ xs.flatMap said) := by
  constructor
  · rintro ⟨fault, run⟩
    by_cases applies : ∀ x ∈ xs, x.Posed ∧ x.Concerns s.value.ty
    · have learned := h.learns_foldlM applies
      rw [run] at learned
      exact .inr learned
    · exact .inl (by simpa only [not_forall, exists_prop] using applies)
  · intro refused
    cases run : xs.foldlM restrict s with
    | error fault => exact ⟨fault, rfl⟩
    | ok s' =>
      rcases refused with ⟨x, hx, apart⟩ | refused
      · exact absurd (h.applies_of_foldlM run x hx) apart
      · obtain ⟨value, -, r', knows⟩ := h.knows_foldlM run
        exact absurd ((allows_iff_of_value value).1 knows.allows) refused

/-- A run with fewer restrictions does not fail either. -/
theorem Knows.exists_ok_of_subset (h : s.Knows facts r) (run : xs.foldlM restrict s = .ok s')
    (sub : ys ⊆ xs) : ∃ s'', ys.foldlM restrict s = .ok s'' := by
  cases other : ys.foldlM restrict s with
  | ok s'' => exact ⟨s'', rfl⟩
  | error fault =>
    obtain ⟨value, -, r', knows⟩ := h.knows_foldlM run
    rcases h.exists_error_iff.1 ⟨fault, other⟩ with ⟨x, hx, apart⟩ | refused
    · exact absurd (h.applies_of_foldlM run x (sub hx)) apart
    · refine absurd (((allows_iff_of_value value).1 knows.allows).mono ?_) refused
      refine List.append_subset.2 ⟨List.subset_append_left _ _, fun p hp => ?_⟩
      obtain ⟨x, hx, hp⟩ := List.mem_flatMap.1 hp
      exact List.mem_append_right _ (List.mem_flatMap.2 ⟨x, sub hx, hp⟩)

/-- The order of restrictions and their number do not count. -/
theorem Knows.foldlM_of_mem_iff (h : s.Knows facts r) (same : ∀ x, x ∈ xs ↔ x ∈ ys) :
    (xs.foldlM restrict s).toOption = (ys.foldlM restrict s).toOption := by
  cases left : xs.foldlM restrict s with
  | error fault =>
    cases right : ys.foldlM restrict s with
    | error fault' => rfl
    | ok t =>
      obtain ⟨s', run⟩ := h.exists_ok_of_subset right fun x hx => (same x).1 hx
      cases left.symm.trans run
  | ok s' =>
    obtain ⟨t, right⟩ := h.exists_ok_of_subset left fun x hx => (same x).2 hx
    rw [right]
    obtain ⟨value, marks, r', knows⟩ := h.knows_foldlM left
    obtain ⟨value', marks', q, knows'⟩ := h.knows_foldlM right
    have facts_iff (p : Refinement) :
        p ∈ facts ++ xs.flatMap said ↔ p ∈ facts ++ ys.flatMap said := by
      simp only [List.mem_append, List.mem_flatMap, same]
    have refinement := knows.gathers.unique knows'.gathers facts_iff
    have told := knows.told
    have told' := knows'.told
    obtain ⟨⟩ := s'
    obtain ⟨⟩ := t
    simp only at value marks told value' marks' told'
    rw [value, marks, told, value', marks', told', refinement]

/-! ### Unknowns of unknown type -/

theorem restrict_untold {x : Restriction} (untold : s.refinement = none) (posed : x.Posed) :
    s.restrict x = .ok s := by
  have kept (f : Refinement → Except Fault Refinement) : s.narrow f = .ok s := by
    rw [narrow, untold]
  have above {bound : Value} {inclusive : Bool} (hb : Bounding bound) :
      s.atLeast bound inclusive = .ok s := by
    rw [atLeast, boundNumber_of_bounding hb]
    cases bound.number? with
    | none => rfl
    | some n => exact kept _
  have below {bound : Value} {inclusive : Bool} (hb : Bounding bound) :
      s.atMost bound inclusive = .ok s := by
    rw [atMost, boundNumber_of_bounding hb]
    cases bound.number? with
    | none => rfl
    | some n => exact kept _
  cases x with
  | notNull | null | startsWith | startsWithOpen | lengthAtLeast | lengthAtMost => exact kept _
  | atLeast => exact above posed
  | atMost => exact below posed
  | between =>
    rw [restrict, between, above posed.1]
    exact below posed.2
  | length n =>
    rw [restrict, length, lengthAtLeast, kept]
    exact kept _

theorem foldlM_untold (untold : s.refinement = none) (posed : ∀ x ∈ xs, x.Posed) :
    xs.foldlM restrict s = .ok s := by
  induction xs with
  | nil => rfl
  | cons x xs ih =>
    rw [List.foldlM_cons, restrict_untold untold (posed x List.mem_cons_self)]
    exact ih fun y hy => posed y (List.mem_cons_of_mem _ hy)

theorem posed_of_foldlM (run : xs.foldlM restrict s = .ok s') : ∀ x ∈ xs, x.Posed := by
  induction xs generalizing s with
  | nil => exact List.forall_mem_nil _
  | cons x xs ih =>
    rw [List.foldlM_cons] at run
    obtain ⟨middle, first, rest⟩ := bind_eq_ok run
    exact List.forall_mem_cons.2 ⟨posed_of_restrict first, ih rest⟩

theorem foldlM_of_mem_iff_of_untold (untold : s.refinement = none)
    (same : ∀ x, x ∈ xs ↔ x ∈ ys) :
    (xs.foldlM restrict s).toOption = (ys.foldlM restrict s).toOption := by
  have run {xs ys : List Restriction} (same : ∀ x, x ∈ xs ↔ x ∈ ys)
      (ok : ∃ s', xs.foldlM restrict s = .ok s') : ys.foldlM restrict s = .ok s := by
    obtain ⟨s', ok⟩ := ok
    exact foldlM_untold untold fun x hx => posed_of_foldlM ok x ((same x).2 hx)
  cases left : xs.foldlM restrict s with
  | ok s' =>
    rw [run same ⟨s', left⟩, ← left, foldlM_untold untold (posed_of_foldlM left)]
  | error fault =>
    cases right : ys.foldlM restrict s with
    | error fault' => rfl
    | ok t => cases left.symm.trans (run (fun x => (same x).symm) ⟨t, right⟩)

end Refining

/-! ## Values that restrictions start from -/

namespace Value

open Refinement

variable {v : Value} {xs ys : List Restriction}

/-- The range of a value leaves what the value is. A value never has more parts than a length can
count. -/
theorem WellMade.open_range (hv : v.WellMade)
    (room : v.content.parts.length ≤ Refining.lengthLimit) : (ofContent v.content).Open := by
  have inside (n : Number) : Bound.crosses ⟨n, true⟩ ⟨n, true⟩ = false :=
    Bound.not_crosses (x := n) (by simp [Bound.admitsAbove, Number.le_rfl])
      (by simp [Bound.admitsBelow, Number.le_rfl])
  obtain ⟨m, c⟩ := v
  refine ⟨?_, ?_, ?_⟩
  · cases c with
    | unknown t r =>
      obtain ⟨n, above, below⟩ := hv.apt.1.number
      exact Bound.not_crosses above below
    | number n => exact inside n
    | _ => rfl
  · cases c with
    | unknown t r => exact hv.apt.1.length.1
    | set e items => exact minLength_set_le e
    | list | map => exact Nat.le_refl _
    | _ => exact Nat.zero_le _
  · cases c with
    | unknown t r => exact hv.apt.1.length.2
    | list | set => exact room
    | map e entries =>
      rw [content, Content.parts, Entries.values, List.length_map] at room
      exact room
    | _ => exact Nat.le_refl _

/-- An unknown of unknown type is told nothing. -/
theorem refine_refinement (v : Value) :
    v.refine.refinement = none ∨ v.refine.refinement = some (ofContent v.content) := by
  rw [refine]
  split
  · exact .inl rfl
  · exact .inr rfl

/-- What is known when a value starts to be refined is its range. -/
theorem WellMade.knows_refine (hv : v.WellMade)
    (room : v.content.parts.length ≤ Refining.lengthLimit)
    (told : v.refine.refinement = some (ofContent v.content)) :
    v.refine.Knows [ofContent v.content] (ofContent v.content) where
  told := told
  gathers := .singleton _
  left := hv.open_range room
  whole text whole := by
    obtain ⟨m, c⟩ := v
    cases c with
    | string text' => exact Option.some.inj whole
    | _ => cases whole

/-- However restrictions are ordered and repeated, they fail alike, and they lead to the same result
if they do not fail. -/
theorem restrict_of_mem_iff (hv : v.WellMade)
    (room : v.content.parts.length ≤ Refining.lengthLimit) (same : ∀ x, x ∈ xs ↔ x ∈ ys) :
    (xs.foldlM Refining.restrict v.refine).toOption =
        (ys.foldlM Refining.restrict v.refine).toOption ∧
      (v.restrict xs).toOption = (v.restrict ys).toOption := by
  have runs : (xs.foldlM Refining.restrict v.refine).toOption =
      (ys.foldlM Refining.restrict v.refine).toOption := by
    rcases v.refine_refinement with untold | told
    · exact Refining.foldlM_of_mem_iff_of_untold untold same
    · exact (hv.knows_refine room told).foldlM_of_mem_iff same
  refine ⟨runs, ?_⟩
  rw [restrict, restrict]
  cases left : xs.foldlM Refining.restrict v.refine <;>
    cases right : ys.foldlM Refining.restrict v.refine <;> rw [left, right] at runs <;> cases runs
  · rfl
  · rfl

/-- A number at least one and below two, told in two orders. -/
theorem restrict_between_one_and_two :
    ((unknown .number).restrict
        [.notNull, .atLeast (number (.finite 1)) true, .atMost (number (.finite 2)) false]).toOption =
      ((unknown .number).restrict
        [.atMost (number (.finite 2)) false, .notNull, .atMost (number (.finite 2)) false,
          .atLeast (number (.finite 1)) true]).toOption :=
  (restrict_of_mem_iff (wellMade_unknown .number) (Nat.zero_le _) fun x => by
    simp only [List.mem_cons, List.not_mem_nil]
    tauto).2

end Value

end ValueAlgebra
