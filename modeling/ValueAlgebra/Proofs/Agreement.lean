import ValueAlgebra.Proofs.MarkRoundTrip
import ValueAlgebra.Proofs.SetRules
import ValueAlgebra.Proofs.TypeInstances
import ValueAlgebra.Proofs.WellMadeResults

/-!
# The two notions of equality

`Value.rawEquals` compares what values are made of and is always decided. `Value.equals` answers
what can be said so far. The two are meant not to contradict each other: values of the same
representation are equal, or it is left open. They go by the same parts, but not where sets are
compared. There `rawEquals` goes through the elements in order, and `equals` looks each element up
and takes a lookup that is not known to succeed for a difference, as long as the elements are wholly
known. So an element must be known to be equal to its counterpart. It is if no null in it leaves its
type open and its capsules are known to be equal (`Value.merged_of_same`). What its capsules answer
may be undecided outside of sets, but not inside of them (`Value.SetsSettled`).

Main statements:

* `Value.merged_of_same`: what is known to be equal to a value of the same representation.
* `Value.equals_of_rawEquals`: equality does not deny what has the same representation.
* `Value.equals_self`: what a wholly known value answers about itself.
-/

namespace ValueAlgebra

open Entries

/-! ## Answers of parts -/

namespace Value

variable {vs : List Value}

theorem allEqual_of_isKnownTrue (h : ∀ v ∈ vs, v.isKnownTrue = true) :
    (allEqual vs).isKnownTrue = true := by
  have no : vs.any isKnownFalse = false := List.any_eq_false.2 fun v hv => by
    rw [not_isKnownFalse_of_isKnownTrue (h v hv)]
    exact Bool.false_ne_true
  have known : vs.all isKnown = true :=
    List.all_eq_true.2 fun v hv => isKnown_of_isKnownTrue (h v hv)
  rw [allEqual, no, known]
  rfl

theorem eq_of_isKnownTrue {v : Value} (h : v.isKnownTrue = true) : v = bool true := by
  obtain ⟨m, c⟩ := v
  cases c with
  | bool b =>
    rw [isKnownTrue, isKnownBool, Bool.and_eq_true, beq_iff_eq] at h
    obtain ⟨unmarked, rfl⟩ := h
    rw [MarkSet.eq_empty unmarked]
    rfl
  | _ => cases h

end Value

/-- Contents that are known to be equal are answered to be. -/
theorem Value.isKnownTrue_of_agree [Host] {c d : Content} (h : c.Agree d) :
    (compareContents c d).isKnownTrue = true := by
  have each {xs ys : List Value} (h : List.Forall₂ Equal xs ys) :
      (allEqual (List.zipWith equalsBare xs ys)).isKnownTrue = true :=
    allEqual_of_isKnownTrue ((forall_zipWith_iff h.length_eq).2 h)
  cases h with
  | matched h =>
    cases h with
    | number | string | bool => simp [compareContents]
    | list h | tuple h =>
      rw [compareContents, if_pos h.length_eq]
      exact each h
    | map hn h | object hn h =>
      rw [compareContents, if_pos hn]
      exact each h
    | union h =>
      rw [compareContents, if_pos rfl]
      exact h
  | set hx hy length found =>
    rw [compareContents, hx, hy, if_pos (Bool.and_self true), isKnownTrue_bool, decide_eq_true_iff]
    exact ⟨length, found⟩
  | capsule h => exact h

/-! ## Capsules -/

namespace CapsuleType

variable [Host]

/-- Whatever is the same as a payload is known to be equal to it and hashes like it. -/
def Settles (c : CapsuleType) (p : Payload) : Prop :=
  ∀ q, c.rawEquals p q = true →
    (c.equals p q).isKnownTrue = true ∧ c.hashTokens p = c.hashTokens q

end CapsuleType

/-! ## Contents that are alike -/

namespace Content.Same

open Value

variable [Host] {R : Value → Value → Prop} {a b : Value}

/-- Contents that are alike agree where the parts of the one are merged with their counterparts, and
all of them are known. -/
theorem agree (h : Same R a.content b.content) (present : a.Present)
    (hR : ∀ x ∈ a.content.parts, ∀ y ∈ b.content.parts, R x y → x.Merged y)
    (ha : ∀ x ∈ a.content.parts, x.isWhollyKnown = true)
    (hb : ∀ y ∈ b.content.parts, y.isWhollyKnown = true)
    (settled : a.content.Capsules CapsuleType.Settles) : a.content.Agree b.content := by
  have absent := fun t => present.not_null (t := t)
  have unknown := fun t r => present.not_unknown (t := t) (r := r)
  generalize a.content = c at *
  generalize b.content = d at *
  cases h with
  | null t => exact absurd rfl (absent t)
  | unknown t r => exact absurd rfl (unknown t r)
  | matched same => exact .matched (same.mono fun x hx y hy same => (hR x hx y hy same).2)
  | set same =>
    refine .set (allWhollyKnown_iff.2 ha) (allWhollyKnown_iff.2 hb) same.length_eq fun x hx => ?_
    obtain ⟨y, hy, same⟩ := exists_right_of_forall₂ same hx
    exact ⟨y, hy, hR x hx y hy same⟩
  | capsule same => exact .capsule (settled _ _ rfl _ same).1

end Content.Same

namespace Value

variable [Host] {a b v : Value}

omit [Host] in
theorem capsules_true (v : Value) : v.Capsules fun _ _ => True := by
  induction v using Value.induction with
  | step v ih => exact .intro (fun _ _ _ => trivial) ih

omit [Host] in
theorem CapsuleFree.capsules {P : CapsuleType → Payload → Prop} (h : v.CapsuleFree) :
    v.Capsules P := by
  refine h.mono fun w free c p hw => ?_
  obtain ⟨m, d⟩ := w
  cases hw
  simp only [ty] at free
  cases free.here

/-! ## Values of the same representation -/

namespace Same

theorem isKnown_and_isNull (h : Same a b) : a.isKnown = b.isKnown ∧ a.isNull = b.isNull := by
  have alike := (same_iff.1 h).2
  obtain ⟨m, c⟩ := a
  obtain ⟨n, d⟩ := b
  cases alike with
  | null | unknown | set | capsule => exact ⟨rfl, rfl⟩
  | matched parts => cases parts <;> exact ⟨rfl, rfl⟩

theorem isKnown (h : Same a b) : a.isKnown = b.isKnown :=
  h.isKnown_and_isNull.1

theorem isNull (h : Same a b) : a.isNull = b.isNull :=
  h.isKnown_and_isNull.2

theorem present (h : Same a b) (ha : a.Present) : b.Present :=
  ⟨h.isKnown.symm.trans ha.1, h.isNull.symm.trans ha.2⟩

theorem exists_left (h : Same a b) {y : Value} (hy : y ∈ b.content.parts) :
    ∃ x ∈ a.content.parts, Same x y :=
  exists_left_of_forall₂ (same_iff.1 h).2.parts hy

theorem isWhollyKnown (h : Same a b) (ha : a.isWhollyKnown = true) : b.isWhollyKnown = true := by
  induction a using Value.induction generalizing b with
  | step a ih =>
    rw [isWhollyKnown_iff] at ha ⊢
    refine ⟨h.isKnown.symm.trans ha.1, fun y hy => ?_⟩
    obtain ⟨x, hx, same⟩ := h.exists_left hy
    exact ih x hx same (ha.2 x hx)

theorem hasWhollyKnownType (h : Same a b) (ha : a.hasWhollyKnownType = true) :
    b.hasWhollyKnownType = true := by
  induction a using Value.induction generalizing b with
  | step a ih =>
    have parts : ∀ y ∈ b.content.parts, y.hasWhollyKnownType = true := fun y hy => by
      obtain ⟨x, hx, same⟩ := h.exists_left hy
      exact ih x hx same (hasWhollyKnownType_of_mem_parts ha hx)
    have alike := (same_iff.1 h).2
    obtain ⟨m, c⟩ := a
    obtain ⟨n, d⟩ := b
    cases alike with
    | null | unknown => exact ha
    | set | capsule => exact hasWhollyKnownType_of_parts rfl rfl parts
    | matched same => cases same <;> exact hasWhollyKnownType_of_parts rfl rfl parts

end Same

/-- A value is known to be equal to those of the same representation, and merged with them in sets,
if it is wholly known, no null in it leaves its type open, and its capsules are settled. -/
theorem merged_of_same (h : Same a b) (known : a.isWhollyKnown = true)
    (closed : a.hasWhollyKnownType = true) (settled : a.Capsules CapsuleType.Settles) :
    Merged a b := by
  induction settled generalizing b with
  | @intro a here inside ih =>
    have hashed : a.hashTokens = b.hashTokens := SameBy.hashTokens_eq
      (fun settled _ same => (settled _ same).2) (.intro here inside) (capsules_true b) h
    refine ⟨hash_eq_of_hashTokens hashed, ?_⟩
    obtain ⟨typed, alike⟩ := same_iff.1 h
    have parts := (isWhollyKnown_iff.1 known).2
    have related : ∀ x ∈ a.content.parts, ∀ y ∈ b.content.parts, Same x y → Merged x y :=
      fun x hx y _ same => ih x hx same (parts x hx) (hasWhollyKnownType_of_mem_parts closed hx)
    rcases cases_present a with ⟨t, r, ha⟩ | ⟨t, ha⟩ | present
    · rw [isWhollyKnown_iff, isKnown_iff.2 ⟨t, r, ha⟩] at known
      cases known.1
    · obtain ⟨u, hb⟩ := isNull_iff.1 (h.isNull.symm.trans (isNull_iff.2 ⟨t, ha⟩))
      rw [Equal, equalsBare_eq, equalsEarly?_nulls ha hb]
      rfl
    · have definite : a.Definite ∧ b.Definite ∧ a.ty = b.ty :=
        ⟨⟨present, closed⟩, ⟨h.present present, h.hasWhollyKnownType closed⟩, typed⟩
      have others := (isWhollyKnown_iff.1 (h.isWhollyKnown known)).2
      rw [Equal, equalsBare_eq, equalsEarly?_eq_none.2 definite, Option.getD_none]
      exact isKnownTrue_of_agree (alike.agree present related parts others here)

end Value

/-! ### Capsules that are left open -/

/-- Whether the integer of a native value is negative. -/
def Native.isNegative : Native → Bool
  | .integer n => n < 0
  | .text _ => false

/-- The host whose capsules are not known to be equal if the integer of one of them is negative. -/
abbrev Host.signs : Host where
  digest tokens := .ofNat tokens.length
  operations _ :=
    { rawEquals := some fun x y => x == y
      equals := some fun x y =>
        if x.isNegative || y.isNegative then .unknown .bool else .bool (x == y)
      hashKey := some fun x => toString x.isNegative }
  nativeName _ := ""

/-- Where no name stands in a type, it is well formed. -/
theorem Ty.wellFormed_of_nameless {t : Ty}
    (h : t.Everywhere fun t => t.partNames = [] ∧ t ≠ .union []) : t.WellFormed :=
  h.mono fun _ h => ⟨h.1 ▸ Names.proper_nil, h.2⟩

namespace Value

section

variable [Host] {a b v : Value}

/-- No null in a value leaves a part of its type open. -/
def NullsTyped (v : Value) : Prop :=
  v.Everywhere fun w => ∀ t, w.content = .null t → t.hasDynamic = false

omit [Host] in
theorem hasWhollyKnownType_iff_nullsTyped (known : v.isWhollyKnown = true) :
    v.hasWhollyKnownType = true ↔ v.NullsTyped := by
  induction v using Value.induction with
  | step v ih =>
    rw [isWhollyKnown_iff] at known
    constructor
    · intro closed
      refine .intro (fun t ht => ?_) fun w hw =>
        (ih w hw (known.2 w hw)).1 (hasWhollyKnownType_of_mem_parts closed hw)
      obtain ⟨m, c⟩ := v
      cases ht
      simpa [Value.hasWhollyKnownType] using closed
    · intro typed
      rcases cases_present v with ⟨t, r, hv⟩ | ⟨t, hv⟩ | present
      · rw [isKnown_iff.2 ⟨t, r, hv⟩] at known
        cases known.1
      · have closed := typed.here t hv
        obtain ⟨m, c⟩ := v
        cases hv
        simpa [Value.hasWhollyKnownType] using closed
      · exact hasWhollyKnownType_of_parts present.1 present.2 fun w hw =>
          (ih w hw (known.2 w hw)).2 (typed.inside hw)

theorem equalsBare_of_open (h : Same a b) (formed : a.ty.WellFormed) (present : a.Present)
    (open_ : a.hasWhollyKnownType = false) : equalsBare a b = undecided := by
  have self := (Ty.instantiates_refl a.ty).conforms (Ty.instantiates_refl a.ty) formed
  have early : equalsEarly? a b = some undecided := by
    rw [equalsEarly?_present present (h.present present), open_, ← (same_iff.1 h).1, self]
    rfl
  rw [equalsBare_eq, early, Option.getD_some]

/-- A wholly known value is known to be equal to itself if it is null or no null in it leaves a part
of its type open. Otherwise it is left undecided. -/
theorem equals_self (formed : v.ty.WellFormed) (free : v.CapsuleFree)
    (known : v.isWhollyKnown = true) :
    (v.isNull = true ∨ v.NullsTyped → v.equals v = (bool true).withMarks v.deepMarks) ∧
    (¬ (v.isNull = true ∨ v.NullsTyped) → v.equals v = undecided.withMarks v.deepMarks) := by
  have same : Same v v := sameBy_refl free.capsules
  have marked {answer : Value} (h : equalsBare v v = answer) :
      v.equals v = answer.withMarks v.deepMarks := by
    rw [equals, equalsBare_unmarkDeep, h]
    refine congrArg (mk · _) (MarkSet.eq_of_mem_iff fun name => ?_)
    simp only [withMarks, marks, MarkSet.mem_union, or_assoc, or_self]
  constructor
  · intro either
    suffices known_true : equalsBare v v = bool true from marked known_true
    by_cases null : v.isNull = true
    · obtain ⟨t, ht⟩ := isNull_iff.1 null
      rw [equalsBare_eq, equalsEarly?_nulls ht ht, Option.getD_some]
    · have closed := (hasWhollyKnownType_iff_nullsTyped known).2 (either.resolve_left null)
      exact eq_of_isKnownTrue (merged_of_same same known closed free.capsules).2
  · intro neither
    rw [not_or, ← hasWhollyKnownType_iff_nullsTyped known, Bool.not_eq_true, Bool.not_eq_true]
      at neither
    have present : v.Present := ⟨(isWhollyKnown_iff.1 known).1, neither.1⟩
    exact marked (equalsBare_of_open same formed present neither.2)

end

/-- A tuple with a null of type number and a bool with a mark is equal to itself, and the answer has
the mark. -/
theorem equals_self_typedNull :
    letI := Host.signs
    let v := tuple [null .number, (bool true).withMarks (.ofList ["m"])]
    v.ty.WellFormed ∧ v.CapsuleFree ∧ v.isWhollyKnown = true ∧ v.NullsTyped ∧
      v.equals v = (bool true).withMarks v.deepMarks := by
  let := Host.signs
  intro v
  have formed : v.ty.WellFormed := Ty.wellFormed_of_nameless (by decide)
  have free : v.CapsuleFree := by
    refine .intro (by decide) (List.forall_mem_cons.2 ⟨?_, List.forall_mem_singleton.2 ?_⟩)
    all_goals exact .intro (by decide) (List.forall_mem_nil _)
  have known : v.isWhollyKnown = true := by cbv
  have typed : v.NullsTyped := by
    refine .intro ?_ (List.forall_mem_cons.2 ⟨?_, List.forall_mem_singleton.2 ?_⟩)
    · rintro t ⟨⟩
    · refine .intro ?_ (List.forall_mem_nil _)
      rintro t ⟨⟩
      rfl
    · refine .intro ?_ (List.forall_mem_nil _)
      rintro t ⟨⟩
  exact ⟨formed, free, known, typed, (equals_self formed free known).1 (.inr typed)⟩

/-- A tuple with a null of no type is wholly known, but it is not known to be equal to itself. -/
theorem equals_self_untypedNull :
    ¬ ∀ (_ : Host) (v : Value), v.WellMade → v.ty.WellFormed → v.containsMarked = false →
      v.CapsuleFree → v.isWhollyKnown = true → (v.equals v).isKnownTrue = true := by
  intro claim
  have made : (tuple [null .dynamic]).WellMade :=
    wellMade_tuple (List.forall_mem_singleton.2 (wellMade_null _))
  have free : (tuple [null .dynamic]).CapsuleFree :=
    .intro (by decide) (List.forall_mem_singleton.2 (.intro (by decide) (List.forall_mem_nil _)))
  have formed := Ty.wellFormed_of_nameless (t := (tuple [null .dynamic]).ty) (by decide)
  have := claim Host.signs _ made formed (by cbv) free (by cbv)
  have left_open : @equals Host.signs (tuple [null .dynamic]) (tuple [null .dynamic]) =
      undecided := by cbv
  rw [left_open] at this
  cases this

end Value

end ValueAlgebra
