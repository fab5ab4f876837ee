import ValueAlgebra.Proofs.CapsuleLaws
import ValueAlgebra.Proofs.ValueParts
import ValueAlgebra.Proofs.WellMade

/-!
# Values of the same representation

`Value.rawEquals` compares the representation of two values without regard to marks, and
`Value.identical` with regard to them. Both are one recursion (`Value.SameBy`): the types have to be
the same, and what the contents hold, with the parts compared one by one (`Content.Same`). Nothing
is left open by it, so the laws of capsules are all that its own laws hang on, and marks are a
matter of the parts that stand at one place in the two values (`Value.partAt?`).

Main statements:

* `Value.sameBy_iff`: the comparison of values out of the comparison of parts.
* `Value.sameBy_refl`, `Value.SameBy.symm`, `Value.SameBy.trans`: its laws.
* `Value.sameBy_true_iff`: what marks add to it.
* `Value.representation_equivalence`: both relations on values whose capsules can be compared.
-/

namespace ValueAlgebra

open Entries

/-! ## Contents -/

/-- Contents of one type that are alike, up to a relation of their parts. -/
inductive Content.Same [Host] (R : Value → Value → Prop) : Content → Content → Prop
  | null (t : Ty) : Same R (.null t) (.null t)
  | unknown (t : Ty) (r : Refinement) : Same R (.unknown t r) (.unknown t r)
  | matched {c d : Content} (h : Matched R c d) : Same R c d
  | set {e : Ty} {xs ys : List Value} (h : List.Forall₂ R xs ys) : Same R (.set e xs) (.set e ys)
  | capsule {c : CapsuleType} {p q : Payload} (h : c.rawEquals p q = true) :
    Same R (.capsule c p) (.capsule c q)

/-- The payload of a capsule has a property. -/
def Content.Capsules (P : CapsuleType → Payload → Prop) (c : Content) : Prop :=
  ∀ k p, c = .capsule k p → P k p

namespace Content.Same

variable [Host] {P : CapsuleType → Payload → Prop} {R S T : Value → Value → Prop}
  {c d e : Content}

/-- The parts of contents that are alike are related one by one. -/
theorem parts (h : Same R c d) : List.Forall₂ R c.parts d.parts := by
  cases h with
  | null | unknown | capsule => exact .nil
  | set h => exact h
  | matched h =>
    cases h with
    | number | string | bool => exact .nil
    | list h | tuple h => exact h
    | map _ h | object _ h => exact h
    | union h => exact .cons h .nil

/-- What else relates the parts of contents that are alike takes the place of the relation. -/
theorem of_parts (h : Same R c d) (hS : List.Forall₂ S c.parts d.parts) : Same S c d := by
  cases h with
  | null t => exact .null t
  | unknown t r => exact .unknown t r
  | capsule h => exact .capsule h
  | set _ => exact .set hS
  | matched h =>
    cases h with
    | number n => exact .matched (.number n)
    | string s => exact .matched (.string s)
    | bool b => exact .matched (.bool b)
    | list _ => exact .matched (.list hS)
    | tuple _ => exact .matched (.tuple hS)
    | map hn _ => exact .matched (.map hn hS)
    | object hn _ => exact .matched (.object hn hS)
    | union _ =>
      cases hS with
      | cons h _ => exact .matched (.union h)

theorem refl (hc : c.Capsules fun k p => k.rawEquals p p = true) (hR : ∀ x ∈ c.parts, R x x) :
    Same R c c := by
  have each : List.Forall₂ R c.parts c.parts := List.forall₂_same.2 hR
  cases c with
  | null t => exact .null t
  | unknown t r => exact .unknown t r
  | number n => exact .matched (.number n)
  | string s => exact .matched (.string s)
  | bool b => exact .matched (.bool b)
  | list => exact .matched (.list each)
  | set => exact .set each
  | map => exact .matched (.map rfl each)
  | object => exact .matched (.object rfl each)
  | tuple => exact .matched (.tuple each)
  | union _ _ inner => exact .matched (.union (hR inner List.mem_cons_self))
  | capsule k p => exact .capsule (hc k p rfl)

section

variable (laws : ∀ k, PartialEquivalence (P k) fun p q => k.rawEquals p q = true)
include laws

theorem symm (hc : c.Capsules P) (hd : d.Capsules P) (h : Same R c d)
    (hS : ∀ x ∈ c.parts, ∀ y ∈ d.parts, R x y → S y x) : Same S d c := by
  cases h with
  | null t => exact .null t
  | unknown t r => exact .unknown t r
  | matched h => exact .matched (h.symm hS)
  | set h => exact .set (forall₂_of_mem h hS).flip
  | capsule h => exact .capsule ((laws _).symm (hc _ _ rfl) (hd _ _ rfl) h)

theorem trans (hc : c.Capsules P) (hd : d.Capsules P) (he : e.Capsules P) (h : Same R c d)
    (h' : Same S d e) (hT : ∀ x ∈ c.parts, ∀ y ∈ d.parts, ∀ z ∈ e.parts, R x y → S y z → T x z) :
    Same T c e := by
  cases h with
  | null t =>
    cases h' with
    | null => exact .null t
    | matched h' => cases h'
  | unknown t r =>
    cases h' with
    | unknown => exact .unknown t r
    | matched h' => cases h'
  | matched h =>
    cases h' with
    | null | unknown | set | capsule => cases h
    | matched h' => exact .matched (h.trans h' hT)
  | set h =>
    cases h' with
    | matched h' => cases h'
    | set h' => exact .set (forall₂_trans h h' hT)
  | capsule h =>
    cases h' with
    | matched h' => cases h'
    | capsule h' => exact .capsule ((laws _).trans (hc _ _ rfl) (hd _ _ rfl) (he _ _ rfl) h h')

end

end Content.Same

/-! ## Values -/

namespace Value

/-- All capsules in a value have a property. -/
def Capsules (P : CapsuleType → Payload → Prop) (v : Value) : Prop :=
  v.Everywhere fun w => w.content.Capsules P

section

variable [Host] {P : CapsuleType → Payload → Prop} {regard : Bool} {a b c v : Value}

/-- Two values have the same representation, with or without regard to marks. -/
def SameBy (regardMarks : Bool) (a b : Value) : Prop :=
  same regardMarks a b = true

theorem sameAll_iff {xs ys : List Value} :
    sameAll regard xs ys = true ↔ List.Forall₂ (SameBy regard) xs ys := by
  induction xs generalizing ys with
  | nil => cases ys <;> simp [sameAll]
  | cons x xs ih =>
    cases ys with
    | nil => simp [sameAll]
    | cons y ys =>
      rw [sameAll, Bool.and_eq_true, List.forall₂_cons, ih]
      rfl

theorem sameEntries_iff {xs ys : List (String × Value)} : sameEntries regard xs ys = true ↔
    names xs = names ys ∧ List.Forall₂ (SameBy regard) (values xs) (values ys) := by
  induction xs generalizing ys with
  | nil => cases ys <;> simp [sameEntries, names, values]
  | cons x xs ih =>
    obtain ⟨k, x⟩ := x
    cases ys with
    | nil => simp [sameEntries]
    | cons y ys =>
      obtain ⟨l, y⟩ := y
      simp only [sameEntries, Bool.and_eq_true, beq_iff_eq, names_cons, values_cons,
        List.cons.injEq, List.forall₂_cons, ih, SameBy]
      exact and_and_and_comm

/-- Values have the same representation if their contents are of one type and have parts of the
same representation. -/
theorem sameBy_iff : SameBy regard a b ↔ (regard = true → a.marks = b.marks) ∧ a.ty = b.ty ∧
    Content.Same (SameBy regard) a.content b.content := by
  obtain ⟨m, c⟩ := a
  obtain ⟨n, d⟩ := b
  rw [SameBy, same.eq_def]
  simp only [content, marks, Bool.and_eq_true, Bool.or_eq_true, Bool.not_eq_true', beq_iff_eq,
    and_assoc]
  refine and_congr (by cases regard <;> simp) (and_congr_right fun ht => ?_)
  constructor
  · intro h
    split at h
    all_goals try simp only [Bool.and_eq_true, beq_iff_eq, sameAll_iff, sameEntries_iff] at h
    all_goals try simp only [ty] at ht
    · cases ht
      exact .null _
    · cases ht
      cases h
      exact .unknown _ _
    · cases h
      exact .matched (.number _)
    · cases h
      exact .matched (.string _)
    · cases h
      exact .matched (.bool _)
    · cases ht
      exact .matched (.list h)
    · exact .matched (.tuple h)
    · cases ht
      exact .set h
    · cases ht
      exact .matched (.map h.1 h.2)
    · exact .matched (.object h.1 h.2)
    · cases ht
      cases h.1
      exact .matched (.union h.2)
    · cases ht
      exact .capsule h
    · cases h
  · intro h
    cases h with
    | null | unknown => simp
    | matched h =>
      cases h with
      | number | string | bool => simp
      | list h | tuple h => exact sameAll_iff.2 h
      | map hn h | object hn h => exact sameEntries_iff.2 ⟨hn, h⟩
      | union h =>
        rw [Bool.and_eq_true, beq_iff_eq]
        exact ⟨rfl, h⟩
    | set h => exact sameAll_iff.2 h
    | capsule h => exact h

/-! ### Laws -/

theorem sameBy_refl (hv : v.Capsules fun k p => k.rawEquals p p = true) : SameBy regard v v := by
  induction hv with
  | intro here _ ih => exact sameBy_iff.2 ⟨fun _ => rfl, rfl, .refl here ih⟩

section

variable (laws : ∀ k, PartialEquivalence (P k) fun p q => k.rawEquals p q = true)
include laws

theorem SameBy.symm (ha : a.Capsules P) (hb : b.Capsules P) (h : SameBy regard a b) :
    SameBy regard b a := by
  induction ha generalizing b with
  | intro here _ ih =>
    obtain ⟨marks, typed, alike⟩ := sameBy_iff.1 h
    refine sameBy_iff.2 ⟨fun r => (marks r).symm, typed.symm, ?_⟩
    exact alike.symm laws here hb.here fun x hx y hy => ih x hx (hb.inside hy)

theorem SameBy.trans (ha : a.Capsules P) (hb : b.Capsules P) (hc : c.Capsules P)
    (h : SameBy regard a b) (h' : SameBy regard b c) : SameBy regard a c := by
  induction ha generalizing b c with
  | intro here _ ih =>
    obtain ⟨marks, typed, alike⟩ := sameBy_iff.1 h
    obtain ⟨marks', typed', alike'⟩ := sameBy_iff.1 h'
    refine sameBy_iff.2 ⟨fun r => (marks r).trans (marks' r), typed.trans typed', ?_⟩
    exact alike.trans laws here hb.here hc.here alike' fun x hx y hy z hz =>
      ih x hx (hb.inside hy) (hc.inside hz)

end

/-- Values of the same representation hash alike if their capsules do. -/
theorem SameBy.hashTokens_eq {Q : CapsuleType → Payload → Prop}
    (keys : ∀ {k p q}, P k p → Q k q → k.rawEquals p q = true → k.hashTokens p = k.hashTokens q)
    (ha : a.Capsules P) (hb : b.Capsules Q) (h : SameBy regard a b) :
    a.hashTokens = b.hashTokens := by
  induction ha generalizing b with
  | @intro a here _ ih =>
    obtain ⟨-, -, alike⟩ := sameBy_iff.1 h
    have related := fun x hx y hy => ih x hx (hb.inside (w := y) hy)
    have there := hb.here
    clear h ih hb
    obtain ⟨m, c⟩ := a
    obtain ⟨n, d⟩ := b
    simp only [content] at alike here there related
    cases alike with
    | null | unknown => simp only [hashTokens]
    | matched parts => exact parts.hashTokens_eq related
    | @set e xs ys items =>
      have sum : hashSum xs = hashSum ys := hashSum_eq_of_forall₂ <|
        forall₂_of_mem items fun x hx y hy same => congrArg Host.digest (related x hx y hy same)
      rw [hashTokens, hashTokens, sum]
    | capsule held => rw [hashTokens, hashTokens, keys (here _ _ rfl) (there _ _ rfl) held]

end

/-! ### Marks -/

/-- The part at a place in a value: one number for each level, which counts the parts there. -/
def partAt? (v : Value) : List Nat → Option Value
  | [] => some v
  | i :: place => (v.content.parts[i]?).bind fun w => w.partAt? place

/-- What stands at one place in two values has the same marks. -/
def MarkedLike (a b : Value) : Prop :=
  ∀ place, (a.partAt? place).map marks = (b.partAt? place).map marks

theorem markedLike_iff {a b : Value} (length : a.content.parts.length = b.content.parts.length) :
    a.MarkedLike b ↔
      a.marks = b.marks ∧ List.Forall₂ MarkedLike a.content.parts b.content.parts := by
  rw [List.forall₂_iff_get]
  constructor
  · intro h
    refine ⟨Option.some.inj (h []), length, fun i hi hj place => ?_⟩
    have inner := h (i :: place)
    rw [partAt?, partAt?, List.getElem?_eq_getElem hi, List.getElem?_eq_getElem hj] at inner
    exact inner
  · rintro ⟨own, -, each⟩ (- | ⟨i, place⟩)
    · exact congrArg some own
    · by_cases hi : i < a.content.parts.length
      · have hj : i < b.content.parts.length := length ▸ hi
        rw [partAt?, partAt?, List.getElem?_eq_getElem hi, List.getElem?_eq_getElem hj]
        exact each i hi hj place
      · have hj : ¬ i < b.content.parts.length := length ▸ hi
        rw [partAt?, partAt?, List.getElem?_eq_none (not_lt.1 hi),
          List.getElem?_eq_none (not_lt.1 hj)]

variable [Host] {a b v : Value}

/-- Values are the same with regard to marks if they are the same without, and what stands at one
place in them has the same marks. -/
theorem sameBy_true_iff : SameBy true a b ↔ SameBy false a b ∧ a.MarkedLike b := by
  induction a using Value.induction generalizing b with
  | step a ih =>
    rw [sameBy_iff, sameBy_iff]
    constructor
    · rintro ⟨own, typed, alike⟩
      have each := forall₂_of_mem alike.parts fun x hx y _ => (ih x hx (b := y)).1
      refine ⟨⟨nofun, typed, alike.of_parts (each.imp fun _ _ h => h.1)⟩, ?_⟩
      exact (markedLike_iff alike.parts.length_eq).2 ⟨own rfl, each.imp fun _ _ h => h.2⟩
    · rintro ⟨⟨-, typed, alike⟩, marked⟩
      obtain ⟨own, each⟩ := (markedLike_iff alike.parts.length_eq).1 marked
      refine ⟨fun _ => own, typed, alike.of_parts (List.forall₂_iff_zip.2 ⟨each.length_eq, ?_⟩)⟩
      intro x y hxy
      have both := And.intro (List.forall₂_zip alike.parts hxy) (List.forall₂_zip each hxy)
      exact (ih x (List.of_mem_zip hxy).1).2 both

/-! ### Values whose capsules can be compared -/

end Value

/-- The raw equality of a capsule type, if one is given, is an equivalence relation on what the
type takes. -/
def CapsuleType.Comparable [Host] (c : CapsuleType) : Prop :=
  ∀ {same : Native → Native → Bool}, c.operations.rawEquals = some same →
    (∀ x, c.Takes x → same x x = true) ∧ PartialEquivalence c.Takes fun x y => same x y = true

namespace Value

variable [Host] {a b v : Value}

/-- The capsules in a value hold what their types take, and the raw equalities of these types are
equivalence relations. -/
def Comparable (v : Value) : Prop :=
  v.Capsules fun c p => c.Comparable ∧ c.Takes p.native

/-- What the constructors make is comparable if the raw equalities of its capsules are equivalence
relations. -/
theorem WellMade.comparable (made : v.WellMade) (h : v.Capsules fun c _ => c.Comparable) :
    v.Comparable := by
  induction made with
  | intro here _ ih =>
    refine .intro (fun c p hw => ⟨h.here c p hw, ?_⟩) fun w hw => ih w hw (h.inside hw)
    rw [hw] at here
    exact here

theorem Comparable.refl (regard : Bool) (h : v.Comparable) : SameBy regard v v := by
  refine sameBy_refl (h.mono fun w held k p hw => ?_)
  obtain ⟨comparable, takes⟩ := held k p hw
  unfold CapsuleType.rawEquals
  cases given : k.operations.rawEquals with
  | some same => exact (comparable given).1 _ takes
  | none => exact beq_self_eq_true _

theorem comparable_laws (c : CapsuleType) :
    PartialEquivalence (fun p : Payload => c.Comparable ∧ c.Takes p.native)
      fun p q => c.rawEquals p q = true where
  symm hp hq := (CapsuleType.rawEquals_laws_of fun given => (hp.1 given).2).symm hp.2 hq.2
  trans hp hq hr :=
    (CapsuleType.rawEquals_laws_of fun given => (hp.1 given).2).trans hp.2 hq.2 hr.2

theorem sameBy_equivalence (regard : Bool) :
    Equivalence fun a b : { v : Value // v.Comparable } => SameBy regard a.1 b.1 where
  refl a := a.2.refl regard
  symm {a b} := .symm comparable_laws a.2 b.2
  trans {a b c} := .trans comparable_laws a.2 b.2 c.2

/-- Both comparisons of the representation are equivalence relations on values whose capsules can be
compared, as they can in values that constructors make (`WellMade.comparable`). Values are identical
if they have the same representation and the same marks at all places in them. -/
theorem representation_equivalence :
    (Equivalence fun a b : { v : Value // v.Comparable } => a.1.rawEquals b.1 = true) ∧
    (Equivalence fun a b : { v : Value // v.Comparable } => a.1.identical b.1 = true) ∧
    ∀ a b : Value, a.identical b = true ↔ a.rawEquals b = true ∧ a.MarkedLike b :=
  ⟨sameBy_equivalence false, sameBy_equivalence true, fun _ _ => sameBy_true_iff⟩

end Value

end ValueAlgebra
