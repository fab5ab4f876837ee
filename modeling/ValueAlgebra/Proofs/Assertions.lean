import Mathlib
import ValueAlgebra.Proofs.Collapse
import ValueAlgebra.Proofs.Membership

/-!
# Assertions about known values

The same restrictions can be asserted of a known value, and told of an unknown of its type, of which
the range is asked about the value then. Both ways accept the same wholly known values
(`Value.assert_iff_tell`): those that meet what the restrictions say together. There is one exception.
An unknown collection of known length may be replaced by a collection of unknowns, and equality, which
answers for its range then, looks at lengths last: it leaves the answer open for sets with unknown
elements and where types have open parts (`Value.DiffersUnseen`).

Main statements:

* `Value.meets_of_allows`, `Value.allows_of_meets`: what can be asserted of a wholly known value.
* `Value.ruledOut_iff_of_leaves`, `Value.ruledOut_iff_of_unknown`: what results rule out.
* `Value.assert_iff_tell`: assertions of known values and restrictions of unknowns.
-/

namespace ValueAlgebra

open Entries Refinement

/-- What is asked of a result is asked of the one there is. -/
theorem exists_error_or_ok_iff {ε α : Type} {x : Except ε α} {a : α} {P : α → Prop}
    (h : x = .ok a) : ((∃ e, x = .error e) ∨ ∃ b, x = .ok b ∧ P b) ↔ P a := by
  subst h
  constructor
  · rintro (⟨e, no⟩ | ⟨b, same, hb⟩)
    · cases no
    · cases same
      exact hb
  · exact fun ha => .inr ⟨a, rfl, ha⟩

/-! ## What a known value allows -/

namespace Refinement

variable {o p : Refinement} {ps : List Refinement} {n : Nat}

/-- One more fact that contradicts none of the others. -/
theorem Consistent.cons (h : Consistent ps) (own : o.minLength ≤ o.longest)
    (nullness : ∀ p ∈ ps, (o.nullness = .null → p.nullness ≠ .notNull) ∧
      (p.nullness = .null → o.nullness ≠ .notNull))
    (number : ∃ n, o.Spans n ∧ ∀ p ∈ ps, p.Spans n)
    (stem : ∀ p ∈ ps, o.stem.toList <+: p.stem.toList ∨ p.stem.toList <+: o.stem.toList)
    (length : ∀ p ∈ ps, o.minLength ≤ p.longest ∧ p.minLength ≤ o.longest) :
    Consistent (o :: ps) where
  nullness p hp q hq := by
    rcases List.mem_cons.1 hp with rfl | mp <;> rcases List.mem_cons.1 hq with rfl | mq
    · intro null
      simp [null]
    · exact (nullness q mq).1
    · exact (nullness p mp).2
    · exact h.nullness p mp q mq
  number := by
    obtain ⟨n, own, others⟩ := number
    exact ⟨n, List.forall_mem_cons.2 ⟨own, others⟩⟩
  stem p hp q hq := by
    rcases List.mem_cons.1 hp with rfl | mp <;> rcases List.mem_cons.1 hq with rfl | mq
    · exact .inl (List.prefix_refl _)
    · exact stem q mq
    · exact (stem p mp).symm
    · exact h.stem p mp q mq
  length p hp q hq := by
    rcases List.mem_cons.1 hp with rfl | mp <;> rcases List.mem_cons.1 hq with rfl | mq
    · exact own
    · exact (length q mq).1
    · exact (length p mp).2
    · exact h.length p mp q mq

/-- A length that is known exactly is a length of all facts. -/
theorem Consistent.meetsLength (h : Consistent ps) (ho : o ∈ ps) (hp : p ∈ ps)
    (min : o.minLength = n) (max : o.maxLength = some n) : Meets.MeetsLength p n := by
  have least := h.length p hp o ho
  have greatest := h.length o ho p hp
  rw [longest, max, Option.getD_some] at least
  refine ⟨least, fun m same => ?_⟩
  rwa [longest, same, Option.getD_some, min] at greatest

theorem le_longest (h : Meets.MeetsLength p n) (room : n ≤ Refining.lengthLimit) :
    n ≤ p.longest := by
  rw [longest]
  cases max : p.maxLength with
  | none => exact room
  | some m => exact h.2 m max

end Refinement

namespace Value

variable {v : Value} {facts : List Refinement}

/-- Facts that contradict neither each other nor a wholly known value are met by it. -/
theorem meets_of_allows (known : v.isWhollyKnown = true)
    (allows : v.refine.Allows (ofContent v.content :: facts)) : ∀ p ∈ facts, p.Meets v.content := by
  intro p hp
  have own : ofContent v.content ∈ ofContent v.content :: facts := List.mem_cons_self
  have said : p ∈ ofContent v.content :: facts := List.mem_cons_of_mem _ hp
  have consistent := allows.consistent
  have notNull (h : (ofContent v.content).nullness = .notNull) : p.nullness ≠ .null :=
    fun null => consistent.nullness p said _ own null h
  have parts := (isWhollyKnown_iff.1 known).2
  obtain ⟨m, c⟩ := v
  cases c with
  | unknown => cases (isWhollyKnown_iff.1 known).1
  | null => exact consistent.nullness _ own p said rfl
  | number n =>
    obtain ⟨x, spans⟩ := consistent.number
    have here := spans _ own
    have same : x = n :=
      Number.le_antisymm (of_decide_eq_true here.2) (of_decide_eq_true here.1)
    exact ⟨notNull rfl, same ▸ spans p said⟩
  | string s => exact ⟨notNull rfl, allows.whole s rfl p said⟩
  | list e items => exact ⟨notNull rfl, consistent.meetsLength own said rfl rfl⟩
  | map e entries => exact ⟨notNull rfl, consistent.meetsLength own said rfl rfl⟩
  | set e items =>
    have single : (allWhollyKnown items || items.length == 1) = true := by
      rw [Bool.or_eq_true]
      exact .inl (allWhollyKnown_iff.2 parts)
    exact ⟨notNull rfl, consistent.meetsLength own said (minLength_set_eq e single) rfl⟩
  | bool | object | tuple | union | capsule => exact notNull rfl

theorem allows_of_meets (known : v.isWhollyKnown = true)
    (room : v.content.parts.length ≤ Refining.lengthLimit)
    (consistent : Consistent (unconstrained :: facts)) (meets : ∀ p ∈ facts, p.Meets v.content) :
    v.refine.Allows (ofContent v.content :: facts) := by
  have others : Consistent facts := consistent.mono (List.subset_cons_self _ _)
  have short (p : Refinement) (hp : p ∈ facts) : p.minLength ≤ Refining.lengthLimit :=
    consistent.length p (List.mem_cons_of_mem _ hp) _ List.mem_cons_self
  have parts := (isWhollyKnown_iff.1 known).2
  obtain ⟨x, spans⟩ := others.number
  have all (x : Number) : unconstrained.Spans x :=
    ⟨Bound.admitsAbove_lowest x, Bound.admitsBelow_highest x⟩
  have start (p : Refinement) : unconstrained.stem.toList <+: p.stem.toList := List.nil_prefix
  have present {p : Refinement} (h : p.nullness ≠ .null) :
      (Nullness.notNull = .null → p.nullness ≠ .notNull) ∧
        (p.nullness = .null → Nullness.notNull ≠ .notNull) :=
    ⟨fun same => (by cases same), fun null => absurd null h⟩
  have sized {n min : Nat} (room : n ≤ Refining.lengthLimit) (same : min = n)
      (h : ∀ p ∈ facts, Meets.MeetsLength p n) :
      ∀ p ∈ facts, min ≤ p.longest ∧ p.minLength ≤ n :=
    fun p hp => ⟨same ▸ le_longest (h p hp) room, (h p hp).1⟩
  obtain ⟨m, c⟩ := v
  cases c with
  | unknown => cases (isWhollyKnown_iff.1 known).1
  | null =>
    refine ⟨others.cons (Nat.zero_le _) (fun p hp => ⟨fun _ => meets p hp, fun _ => ?_⟩)
      ⟨x, all x, spans⟩ (fun p _ => .inl (start p)) fun p hp => ⟨Nat.zero_le _, short p hp⟩,
      fun text whole => by cases whole⟩
    change Nullness.null ≠ .notNull
    simp
  | number n =>
    refine ⟨others.cons (Nat.zero_le _) (fun p hp => present (meets p hp).1)
      ⟨n, ?_, fun p hp => (meets p hp).2⟩ (fun p _ => .inl (start p))
      fun p hp => ⟨Nat.zero_le _, short p hp⟩, fun text whole => by cases whole⟩
    exact ⟨decide_eq_true Number.le_rfl, decide_eq_true Number.le_rfl⟩
  | string s =>
    refine ⟨others.cons (Nat.zero_le _) (fun p hp => present (meets p hp).1) ⟨x, all x, spans⟩
      (fun p hp => .inr (meets p hp).2) fun p hp => ⟨Nat.zero_le _, short p hp⟩,
      fun text whole => ?_⟩
    cases whole
    exact List.forall_mem_cons.2 ⟨List.prefix_refl _, fun p hp => (meets p hp).2⟩
  | list e items =>
    exact ⟨others.cons (Nat.le_refl _) (fun p hp => present (meets p hp).1) ⟨x, all x, spans⟩
      (fun p _ => .inl (start p)) (sized room rfl fun p hp => (meets p hp).2),
      fun text whole => by cases whole⟩
  | map e entries =>
    have room : entries.length ≤ Refining.lengthLimit := by
      rwa [content, Content.parts, Entries.values, List.length_map] at room
    exact ⟨others.cons (Nat.le_refl _) (fun p hp => present (meets p hp).1) ⟨x, all x, spans⟩
      (fun p _ => .inl (start p)) (sized room rfl fun p hp => (meets p hp).2),
      fun text whole => by cases whole⟩
  | set e items =>
    have single : (allWhollyKnown items || items.length == 1) = true := by
      rw [Bool.or_eq_true]
      exact .inl (allWhollyKnown_iff.2 parts)
    exact ⟨others.cons (minLength_set_le e) (fun p hp => present (meets p hp).1) ⟨x, all x, spans⟩
      (fun p _ => .inl (start p))
      (sized room (minLength_set_eq e single) fun p hp => (meets p hp).2),
      fun text whole => by cases whole⟩
  | bool | object | tuple | union | capsule =>
    exact ⟨others.cons (Nat.zero_le _) (fun p hp => present (meets p hp)) ⟨x, all x, spans⟩
      (fun p _ => .inl (start p)) (fun p hp => ⟨Nat.zero_le _, short p hp⟩),
      fun text whole => by cases whole⟩

variable {w : Value} {t e : Ty} {r : Refinement}

/-- There is no room for a list of the length that is left, nor does a value with fewer elements meet
it. -/
theorem not_meets_of_overlong {facts : List Refinement} (gathers : Gathers facts r)
    (overlong : Overlong t facts) (typed : v.ty = t) (known : v.isKnown = true)
    (room : v.content.parts.length ≤ Refining.listCapacity) : ¬ r.Meets v.content := by
  obtain ⟨e, n, rfl, large, ⟨p, hp, notNull⟩, ⟨q, hq, min⟩, -⟩ := overlong
  intro meets
  cases null : v.isNull with
  | true =>
    obtain ⟨s, hc⟩ := isNull_iff.1 null
    have other := gathers.meets_iff.1 meets p hp
    rw [hc] at other
    exact other notNull
  | false =>
    obtain ⟨e', items, hc⟩ :=
      Present.content_of_type ⟨known, null⟩ (Ty.instantiates_of_eq typed)
    have other := gathers.meets_iff.1 meets q hq
    rw [hc] at other room
    exact absurd (Nat.le_trans (min ▸ other.2.1) room) (Nat.not_le_of_lt large)

/-- Facts that do not contradict a value do not contradict each other. -/
theorem consistent_of_allows {facts : List Refinement} (hv : v.WellMade)
    (room : v.content.parts.length ≤ Refining.lengthLimit)
    (allows : v.refine.Allows (ofContent v.content :: facts)) :
    Consistent (unconstrained :: facts) := by
  have others := allows.consistent
  obtain ⟨x, spans⟩ := others.number
  refine (others.mono (List.subset_cons_self _ _)).cons (Nat.zero_le _)
    (fun p _ => ⟨fun same => (by cases same), fun _ same => (by cases same)⟩)
    ⟨x, ⟨Bound.admitsAbove_lowest x, Bound.admitsBelow_highest x⟩,
      fun p hp => spans p (List.mem_cons_of_mem _ hp)⟩
    (fun p _ => .inl List.nil_prefix) fun p hp => ⟨Nat.zero_le _, ?_⟩
  exact Nat.le_trans (others.length p (List.mem_cons_of_mem _ hp) _ List.mem_cons_self)
    (hv.open_range room).longest

/-! ## Comparisons with what is left -/

/-- Collections of different length of which equality does not tell that they differ: a part of a
type is open, or the first one is a set of which not all elements are known. -/
structure DiffersUnseen (w v : Value) : Prop where
  left : w.Present
  right : v.Present
  sized : w.ty.isCollection = true
  length : w.content.parts.length ≠ v.content.parts.length
  unseen : w.hasWhollyKnownType = false ∨ v.hasWhollyKnownType = false ∨
    w.ty.isSet = true ∧ w.isWhollyKnown = false

section

variable [Host]

/-- The range of a known value includes what is equal to the value. -/
theorem content_includes_present (hw : w.Present) :
    (w.range.includes v).content = (equalsBare w v).content := by
  have present : w.unmark.Present :=
    ⟨(isKnown_of_content (content_unmark w)).trans hw.1,
      (isNull_of_content (content_unmark w)).trans hw.2⟩
  have answer : (w.range.includes v).content = (w.range.includesBare v.unmarkDeep).content := rfl
  have raw : w.range.raw = w.unmark := rfl
  rw [answer, Range.includesBare_present (raw ▸ present), content_equals, raw,
    ← equalsBare_unmarkDeep, unmarkDeep_unmark, unmarkDeep_unmarkDeep, equalsBare_unmarkDeep]

/-- Collections of one type are ruled out by their lengths, or are not told apart though their
lengths differ, if their contents are compared by their lengths. -/
theorem ruledOut_iff_length (hw : w.Present) (hv : v.Present) (same : w.ty = v.ty)
    (conforms : v.ty.conforms v.ty = true) (sized : w.ty.isCollection = true)
    (compared : (compareContents w.content v.content).content = .bool false ↔
      w.content.parts.length ≠ v.content.parts.length ∧
        ¬ (w.ty.isSet = true ∧ w.isWhollyKnown = false)) :
    (w.range.includes v).content = .bool false ∨ w.DiffersUnseen v ↔
      w.content.parts.length ≠ v.content.parts.length := by
  have unsettled : undecided.content ≠ .bool false := fun same => by cases same
  rw [content_includes_present hw, equalsBare_eq, equalsEarly?_present hw hv, same, conforms]
  by_cases settled : w.hasWhollyKnownType = true ∧ v.hasWhollyKnownType = true
  · obtain ⟨left, right⟩ := settled
    simp only [left, right, Bool.not_true, Bool.or_self, Bool.false_eq_true, if_false, ne_eq,
      not_true_eq_false, Option.getD_none]
    rw [compared]
    constructor
    · rintro (⟨differ, -⟩ | unseen)
      · exact differ
      · exact unseen.length
    · intro differ
      by_cases set : w.ty.isSet = true ∧ w.isWhollyKnown = false
      · exact .inr ⟨hw, hv, sized, differ, .inr (.inr set)⟩
      · exact .inl ⟨differ, set⟩
  · have opened : (!w.hasWhollyKnownType || !v.hasWhollyKnownType) = true := by
      rw [Bool.or_eq_true, Bool.not_eq_true', Bool.not_eq_true']
      rw [not_and_or, Bool.not_eq_true, Bool.not_eq_true] at settled
      exact settled
    rw [opened, if_pos rfl, Option.getD_some, Bool.or_self, if_pos rfl]
    constructor
    · rintro (ruledOut | unseen)
      · exact absurd ruledOut unsettled
      · exact unseen.length
    · intro differ
      rw [not_and_or, Bool.not_eq_true, Bool.not_eq_true] at settled
      exact .inr ⟨hw, hv, sized, differ, settled.imp id .inl⟩

/-- A known value of the element type is not told from an unknown. -/
theorem not_isKnownFalse_unknown {y : Value} (known : y.isKnown = true) (typed : y.ty = e) :
    (equalsBare (unknown e) y).isKnownFalse = false := by
  have admitted : Refinement.unconstrained.admits y.content = true := by
    generalize y.content = c
    cases c <;> simp [Refinement.admits, Refinement.admits.admitsLength, Refinement.unconstrained,
      Bound.admitsAbove_lowest, Bound.admitsBelow_highest]
  rw [equalsBare_eq, equalsEarly?_unknown_known rfl known, Option.getD_some, equalsUnknown, typed,
    admitted]
  simp [Refinement.unconstrained]

/-! ## What is left rules out -/

/-- A value that is left and null. -/
theorem ruledOut_of_null (notNull : r.nullness = .notNull) (hw : w.Present)
    (hv : v.isNull = true) :
    ((w.range.includes v).content = .bool false ∨ w.DiffersUnseen v) ↔ ¬ r.Meets v.content := by
  obtain ⟨t, hc⟩ := isNull_iff.1 hv
  refine iff_of_true (.inl ?_) fun meets => ?_
  · rw [content_includes_present hw, equalsBare_eq, equalsEarly?_present_null hw hc,
      Option.getD_some]
    rfl
  · rw [hc] at meets
    exact meets notNull

section

variable (notNull : r.nullness = .notNull) (length : r.maxLength = some r.minLength)
  (hv : v.WellMade) (known : v.isWhollyKnown = true) (conforms : v.ty.conforms v.ty = true)

include notNull length known conforms

/-- A collection that is left. -/
theorem ruledOut_collection (hw : w.Present) (same : w.ty = v.ty)
    (sized : w.ty.isCollection = true) (long : w.content.parts.length = r.minLength)
    (compared : v.Present →
      ((compareContents w.content v.content).content = .bool false ↔
        w.content.parts.length ≠ v.content.parts.length ∧
          ¬ (w.ty.isSet = true ∧ w.isWhollyKnown = false))) :
    ((w.range.includes v).content = .bool false ∨ w.DiffersUnseen v) ↔ ¬ r.Meets v.content := by
  cases null : v.isNull with
  | true => exact ruledOut_of_null notNull hw null
  | false =>
    have hv : v.Present := ⟨(isWhollyKnown_iff.1 known).1, null⟩
    rw [ruledOut_iff_length hw hv same conforms sized (compared hv),
      meets_iff_length hv (same ▸ sized) notNull, meetsLength_iff_eq length, long, ne_comm]

include hv in
theorem ruledOut_list (typed : v.ty = .list e) :
    ((bare (.list e (List.replicate r.minLength (unknown e)))).range.includes v).content =
          .bool false ∨
        (bare (.list e (List.replicate r.minLength (unknown e)))).DiffersUnseen v ↔
      ¬ r.Meets v.content := by
  refine ruledOut_collection notNull length known conforms ⟨rfl, rfl⟩
    (by rw [typed, bare, ty]) rfl List.length_replicate fun present => ?_
  obtain ⟨e', items, hc⟩ := present.content_of_type (Ty.instantiates_of_eq typed)
  rw [ty_of_content (w := bare (.list e' items)) hc, bare, ty] at typed
  cases typed
  have elements := hv.here
  have parts := (isWhollyKnown_iff.1 known).2
  rw [hc] at elements parts ⊢
  have notSet : (bare (.list e (List.replicate r.minLength (unknown e)))).ty.isSet = false := by
    rw [bare, ty]
    rfl
  have answer := isAnswer_allEqual
    (List.zipWith equalsBare (List.replicate r.minLength (unknown e)) items)
  have unsettled : ¬ (allEqual (List.zipWith equalsBare (List.replicate r.minLength (unknown e))
      items)).content = .bool false := by
    rw [← answer.isKnownBool_iff, ← isKnownFalse, allEqual_isKnownFalse]
    rintro ⟨x, hx, no⟩
    have open_ := forall_zipWith (p := fun x => x.isKnownFalse = false) (fun x hx y hy => by
      rw [List.eq_of_mem_replicate hx]
      exact not_isKnownFalse_unknown (isWhollyKnown_iff.1 (parts y hy)).1 (elements y hy)) x hx
    cases no.symm.trans open_
  change (ite (List.length _ = List.length _) _ _ : Value).content = _ ↔ _
  rw [notSet]
  split
  · rename_i long
    exact iff_of_false unsettled fun differ => differ.1 long
  · rename_i differ
    exact iff_of_true rfl ⟨differ, by simp⟩

theorem ruledOut_emptySet (none : r.minLength = 0) (typed : v.ty = .set e) :
    ((bare (.set e [])).range.includes v).content = .bool false ∨
        (bare (.set e [])).DiffersUnseen v ↔ ¬ r.Meets v.content := by
  refine ruledOut_collection notNull length known conforms ⟨rfl, rfl⟩
    (by rw [typed, bare, ty]) rfl none.symm fun present => ?_
  obtain ⟨e', items, hc⟩ := present.content_of_type (Ty.instantiates_of_eq typed)
  have parts := (isWhollyKnown_iff.1 known).2
  rw [hc] at parts ⊢
  have whole : (allWhollyKnown [] && allWhollyKnown items) = true := by
    rw [Bool.and_eq_true]
    exact ⟨rfl, allWhollyKnown_iff.2 parts⟩
  have seen : ¬ ((bare (.set e [])).ty.isSet = true ∧ (bare (.set e [])).isWhollyKnown = false) :=
    fun unseen => by cases unseen.2
  rw [and_iff_left seen, show (bare (.set e [])).content = .set e [] from rfl, compareContents,
    whole, if_pos rfl]
  cases items with
  | nil => exact iff_of_false (fun same => by cases same) fun differ => differ rfl
  | cons x items => exact iff_of_true rfl (by simp [Content.parts])

/-- Sets are not told apart from a set of one unknown. -/
theorem ruledOut_set (one : r.minLength = 1) (typed : v.ty = .set e) :
    ((bare (.set e [unknown e])).range.includes v).content = .bool false ∨
        (bare (.set e [unknown e])).DiffersUnseen v ↔ ¬ r.Meets v.content := by
  refine ruledOut_collection notNull length known conforms ⟨rfl, rfl⟩
    (by rw [typed, bare, ty]) rfl one.symm fun present => ?_
  obtain ⟨e', items, hc⟩ := present.content_of_type (Ty.instantiates_of_eq typed)
  have undecided : (bare (.set e [unknown e])).isWhollyKnown = false :=
    isWhollyKnown_eq_false_of_unknown (e := e) List.mem_cons_self
  have isSet : (bare (.set e [unknown e])).ty.isSet = true := by
    rw [bare, ty]
    rfl
  rw [hc]
  refine iff_of_false (fun same => ?_) fun differ => differ.2 ⟨isSet, undecided⟩
  rw [show (bare (.set e [unknown e])).content = .set e [unknown e] from rfl, compareContents,
    if_neg (by simp [allWhollyKnown, unknown, refined, bare, isWhollyKnown])] at same
  cases same

theorem ruledOut_emptyMap (none : r.minLength = 0) (typed : v.ty = .map e) :
    ((bare (.map e [])).range.includes v).content = .bool false ∨
        (bare (.map e [])).DiffersUnseen v ↔ ¬ r.Meets v.content := by
  refine ruledOut_collection notNull length known conforms ⟨rfl, rfl⟩
    (by rw [typed, bare, ty]) rfl none.symm fun present => ?_
  obtain ⟨e', entries, hc⟩ := present.content_of_type (Ty.instantiates_of_eq typed)
  rw [hc]
  have seen : ¬ ((bare (.map e [])).ty.isSet = true ∧ (bare (.map e [])).isWhollyKnown = false) :=
    fun unseen => by cases unseen.2
  rw [and_iff_left seen, show (bare (.map e [])).content = .map e [] from rfl, compareContents]
  cases entries with
  | nil => exact iff_of_false (fun same => by cases same) fun differ => differ rfl
  | cons entry entries => exact iff_of_true rfl (by simp [Content.parts, values])

end

/-- The one value that is left of an unknown rules out a wholly known value of its type, or is not
told apart from it, if the value does not meet what is known. -/
theorem ruledOut_iff_of_leaves (left : Refining.Leaves t r w) (hv : v.WellMade)
    (known : v.isWhollyKnown = true) (typed : v.ty = t) (conforms : v.ty.conforms v.ty = true) :
    ((w.range.includes v).content = .bool false ∨ w.DiffersUnseen v) ↔ ¬ r.Meets v.content := by
  have isKnown := (isWhollyKnown_iff.1 known).1
  cases left with
  | null null =>
    have answer : ((Value.null t).range.includes v).content = .bool v.isNull := by
      change ((Value.null t).range.includesBare v.unmarkDeep).content = _
      rw [Range.includesBare_null (t := t) rfl ((isKnown_unmarkDeep v).trans isKnown),
        isNull_unmarkDeep]
      rfl
    rw [answer, or_iff_left (fun unseen => by cases unseen.left.2), Content.bool.injEq,
      ← Bool.not_eq_true, isNull_iff]
    refine not_congr ⟨?_, fun meets => exists_null_of_meets meets null⟩
    rintro ⟨s, hc⟩
    rw [hc]
    change r.nullness ≠ .notNull
    simp [null]
  | number notNull pinned =>
    cases null : v.isNull with
    | true => exact ruledOut_of_null notNull ⟨rfl, rfl⟩ null
    | false =>
      have present : v.Present := ⟨isKnown, null⟩
      have unsized : ¬ (number r.lower.value).DiffersUnseen v := fun unseen => by
        have sized := unseen.sized
        rw [number, bare, ty] at sized
        cases sized
      obtain ⟨n, hc⟩ := present.content_of_type (Ty.instantiates_of_eq typed)
      have closed : v.hasWhollyKnownType = true := by
        rw [hasWhollyKnownType_of_content (w := bare (.number n)) hc]
        rfl
      have same : (number r.lower.value).ty = v.ty := by rw [typed, number, bare, ty]
      rw [or_iff_left unsized, content_includes_present ⟨rfl, rfl⟩, equalsBare_eq,
        equalsEarly?_eq_none.2 ⟨⟨⟨rfl, rfl⟩, rfl⟩, ⟨present, closed⟩, same⟩, Option.getD_none, hc,
        show (number r.lower.value).content = .number r.lower.value from rfl, compareContents]
      change Content.bool (r.lower.value == n) = .bool false ↔ ¬ (r.nullness ≠ .null ∧ r.Spans n)
      have some : r.nullness ≠ .null := by simp [notNull]
      rw [Content.bool.injEq, and_iff_right some, pinned, beq_eq_false_iff_ne, ne_comm]
  | list notNull length => exact ruledOut_list notNull length hv known conforms typed
  | emptySet notNull length none => exact ruledOut_emptySet notNull length known conforms none typed
  | set notNull length one => exact ruledOut_set notNull length known conforms one typed
  | emptyMap notNull length none => exact ruledOut_emptyMap notNull length known conforms none typed

/-- An unknown that is left rules out what does not meet what is known. -/
theorem ruledOut_iff_of_unknown (hw : w.content = .unknown t r) (some : r.nullness ≠ .null)
    (closed : t ≠ .dynamic) (known : v.isWhollyKnown = true) (typed : v.ty = t) :
    (w.range.includes v).content = .bool false ↔ ¬ r.Meets v.content := by
  obtain ⟨isKnown, parts⟩ := isWhollyKnown_iff.1 known
  rw [Range.includes_unknown_eq_false_iff hw isKnown]
  cases null : v.isNull with
  | true =>
    obtain ⟨s, hc⟩ := isNull_iff.1 null
    rw [hc]
    change _ ↔ ¬ r.nullness ≠ .notNull
    simp
  | false =>
    have present : v.Present := ⟨isKnown, null⟩
    have admitted : r.Meets v.content ↔ r.admits v.content = true :=
      ⟨fun meets => admits_of_mayMeet (mayMeet_of_meets meets),
        meets_of_admits parts (fun t => present.not_null) some⟩
    simp [admitted, closed, typed]

/-! ## Assertions and restrictions -/

/-- Telling an unknown fails, or the result rules a value out, if the value does not meet what was
told. -/
theorem ruledOut_iff_of_result {s : Refining} {facts : List Refinement} (knows : s.Knows facts r)
    (unknown : s.value.isKnown = false) (unmarked : s.marks = .empty) (hv : v.WellMade)
    (known : v.isWhollyKnown = true) (formed : v.ty.WellFormed) (closed : v.ty ≠ .dynamic)
    (typed : v.ty = s.value.ty) (room : v.content.parts.length ≤ Refining.listCapacity) :
    ((∃ fault, s.result = .error fault) ∨
        ∃ w, s.result = .ok w ∧
          ((w.range.includes v).content = .bool false ∨ w.DiffersUnseen v)) ↔
      ¬ r.Meets v.content := by
  have conforms : v.ty.conforms v.ty = true :=
    (Ty.instantiates_refl v.ty).conforms (Ty.instantiates_refl v.ty) formed
  rw [Refining.result_of_told unknown knows.told, unmarked, ← typed]
  cases only : Refining.onlyResult? v.ty r with
  | error fault =>
    obtain rfl := Refining.fault_of_onlyResult? only
    have overlong := (overlong_iff knows.gathers knows.left).2 only
    refine iff_of_true (.inl ⟨_, rfl⟩) ?_
    exact not_meets_of_overlong knows.gathers overlong rfl (isWhollyKnown_iff.1 known).1 room
  | ok only? =>
    refine (exists_error_or_ok_iff rfl).trans ?_
    simp only [withMarks_empty]
    cases only? with
    | none =>
      have some : r.nullness ≠ .null := fun null => by
        simp [Refining.onlyResult?, null] at only
      rw [Option.getD_none, or_iff_left (fun unseen => by cases unseen.left.1)]
      exact ruledOut_iff_of_unknown rfl some closed known rfl
    | some w =>
      rw [Option.getD_some]
      exact ruledOut_iff_of_leaves (Refining.leaves_of_onlyResult? only) hv known rfl conforms

/-- Asserting something about a wholly known value fails exactly if telling it of an unknown of the
type fails, or if the result rules the value out. Only collections of which equality does not tell
that their lengths differ are not ruled out. What is in memory has no more parts than there is room
for. -/
theorem assert_iff_tell (hv : v.WellMade) (known : v.isWhollyKnown = true)
    (formed : v.ty.WellFormed) (typed : v.ty ≠ .dynamic)
    (room : v.content.parts.length ≤ Refining.listCapacity) (xs : List Restriction) :
    (∃ fault, xs.foldlM Refining.restrict v.refine = .error fault) ↔
      (∃ fault, (unknown v.ty).restrict xs = .error fault) ∨
        ∃ w, (unknown v.ty).restrict xs = .ok w ∧
          ((w.range.includes v).content = .bool false ∨ w.DiffersUnseen v) := by
  have limited := Nat.le_trans room (show Refining.listCapacity ≤ Refining.lengthLimit by decide)
  have told : v.refine.refinement = some (ofContent v.content) := by
    simp only [refine, (isWhollyKnown_iff.1 known).1, Bool.not_true, Bool.false_and,
      Bool.false_eq_true, if_false]
  have asserted : (∃ fault, xs.foldlM Refining.restrict v.refine = .error fault) ↔ _ :=
    (hv.knows_refine limited told).exists_error_iff
  have start := (wellMade_unknown v.ty).knows_refine_unknown rfl typed
  have narrowed : (∃ fault, xs.foldlM Refining.restrict (unknown v.ty).refine = .error fault) ↔ _ :=
    start.exists_error_iff
  rw [show v.refine.value.ty = v.ty from ty_unmark v, List.singleton_append] at asserted
  rw [show (unknown v.ty).refine.value.ty = v.ty from ty_unknown v.ty, List.singleton_append]
    at narrowed
  cases run : xs.foldlM Refining.restrict (unknown v.ty).refine with
  | error fault =>
    have fails : (unknown v.ty).restrict xs = .error fault := by
      rw [restrict, run]
      rfl
    refine iff_of_true (asserted.2 ?_) (.inl ⟨fault, fails⟩)
    refine (narrowed.1 ⟨fault, run⟩).imp id fun refused allows => refused ?_
    exact ⟨consistent_of_allows hv limited allows, fun text whole => by cases whole⟩
  | ok s =>
    obtain ⟨value, marks, r, knows⟩ := start.knows_foldlM run
    have applies := start.applies_of_foldlM run
    rw [show (unknown v.ty).refine.value.ty = v.ty from ty_unknown v.ty] at applies
    have result : (unknown v.ty).restrict xs = s.result := by
      rw [restrict, run]
      rfl
    rw [List.singleton_append] at knows
    rw [result, ruledOut_iff_of_result knows (value ▸ rfl) marks hv known formed typed
      (value ▸ (ty_unknown v.ty).symm) room, asserted, knows.gathers.meets_iff,
      List.forall_mem_cons]
    constructor
    · rintro (⟨x, hx, apart⟩ | refused) ⟨-, meets⟩
      · exact apart (applies x hx)
      · refine refused (allows_of_meets known limited ?_ meets)
        exact knows.gathers.consistent knows.left
    · intro refused
      exact .inr fun allows => refused ⟨meets_unconstrained _, meets_of_allows known allows⟩

end

/-- A number that is not at least two is ruled out by numbers that are. -/
theorem assert_iff_tell_one :
    letI := Host.plain
    ∃ w, (unknown .number).restrict [.notNull, .atLeast (number (.finite 2)) true] = .ok w ∧
      ((w.range.includes (number (.finite 1))).content = .bool false ∨
        w.DiffersUnseen (number (.finite 1))) := by
  let := Host.plain
  have formed : (number (.finite 1)).ty.WellFormed := by
    rw [number, bare, ty]
    exact (Ty.everywhere_leaf rfl).2 ⟨Names.proper_nil, by simp⟩
  have told := (assert_iff_tell (wellMade_number (.finite 1)) rfl formed (by decide)
    (Nat.zero_le _) [.notNull, .atLeast (number (.finite 2)) true]).1 ⟨_, rfl⟩
  refine told.resolve_left ?_
  rintro ⟨fault, fails⟩
  cases fails

/-- An empty set is not ruled out by sets of one element. -/
theorem assert_tell_emptySet :
    ¬ ∀ (_ : Host) (v : Value) (xs : List Restriction), v.WellMade → v.isWhollyKnown = true →
      v.ty ≠ .dynamic →
      ((∃ fault, xs.foldlM Refining.restrict v.refine = .error fault) ↔
        (∃ fault, xs.foldlM Refining.restrict (unknown v.ty).refine = .error fault) ∨
          ∃ w, (unknown v.ty).restrict xs = .ok w ∧
            (w.range.includes v).content = .bool false) := by
  intro claim
  rcases (claim Host.plain (emptySet .number) [.notNull, .length 1] (wellMade_emptySet _) rfl
    (by decide)).1 ⟨_, rfl⟩ with ⟨fault, fails⟩ | ⟨w, left, ruledOut⟩
  · cases fails
  · have result : (unknown (emptySet .number).ty).restrict [.notNull, .length 1] =
        .ok (bare (.set .number [unknown .number])) := rfl
    obtain rfl := Except.ok.inj (left.symm.trans result)
    let := Host.plain
    have same : (bare (.set .number [unknown .number])).ty = (emptySet .number).ty := by
      rw [emptySet, bare, bare, ty, ty]
    rw [content_includes_present ⟨rfl, rfl⟩, equalsBare_eq,
      equalsEarly?_eq_none.2 ⟨⟨⟨rfl, rfl⟩, rfl⟩, ⟨⟨rfl, rfl⟩, rfl⟩, same⟩] at ruledOut
    cases ruledOut

end Value

end ValueAlgebra
