import Mathlib
import ValueAlgebra.Path.Set
import ValueAlgebra.Proofs.Representation
import ValueAlgebra.Proofs.SoundValues

/-!
# The rules of sets of values and of sets of paths

Sets of values tell their elements apart by equality, and sets of paths by the representation of the
keys of paths. Both rules are lawful where capsules follow the laws of equality: among values without
marks, and among paths.

Main statements:

* `Value.same_symm`, `Value.same_trans`, `Value.hashTokens_of_same`: the laws of `Value.rawEquals`.
* `lawful_pathRules`, `Value.lawful_valueRules`: the two rules.
* `Value.setRules_lawful`: what they rest on.
-/

namespace ValueAlgebra

open Entries

/-! ## Equality of the representation -/

namespace Value

variable [Host] {heap : Heap} {a b c v : Value}

/-- Two values have the same representation, apart from marks. -/
def Same (a b : Value) : Prop :=
  a.rawEquals b = true

theorem same_iff : Same a b ↔ a.ty = b.ty ∧ Content.Same Same a.content b.content :=
  sameBy_iff.trans (and_iff_right nofun)

/-- The capsules in a value that keeps to what the laws ask for follow the laws. -/
theorem Sound.capsules (h : v.Sound heap) :
    v.Capsules fun c p => c.Consistent ∧ c.Holds heap p := by
  refine h.mono fun w lawful c p hw => ?_
  rw [hw] at lawful
  exact lawful

theorem sound_laws (heap : Heap) (c : CapsuleType) :
    PartialEquivalence (fun p => c.Consistent ∧ c.Holds heap p)
      fun p q => c.rawEquals p q = true where
  symm hp hq := (CapsuleType.rawEquals_laws hp.1).symm hp.2 hq.2
  trans hp hq hr := (CapsuleType.rawEquals_laws hp.1).trans hp.2 hq.2 hr.2

theorem same_symm (ha : a.Sound heap) (hb : b.Sound heap) (h : Same a b) : Same b a :=
  SameBy.symm (sound_laws heap) ha.capsules hb.capsules h

theorem same_trans (ha : a.Sound heap) (hb : b.Sound heap) (hc : c.Sound heap) (h : Same a b)
    (h' : Same b c) : Same a c :=
  SameBy.trans (sound_laws heap) ha.capsules hb.capsules hc.capsules h h'

theorem hashTokens_of_same (ha : a.Sound heap) (hb : b.Sound heap) (h : Same a b) :
    a.hashTokens = b.hashTokens :=
  SameBy.hashTokens_eq (fun hp hq => CapsuleType.hashTokens_of_rawEquals hp.1 hp.2 hq.2)
    ha.capsules hb.capsules h

end Value

/-! ## The rule of sets of paths -/

section

variable [Host] {heap : Heap}

/-- The key of a step keeps to what the laws ask for. -/
def Step.Sound (heap : Heap) : Step → Prop
  | .attr _ => True
  | .index key => key.Sound heap

/-- The keys of a path keep to what the laws ask for. -/
def Path.Sound (heap : Heap) (path : Path) : Prop :=
  ∀ step ∈ path.steps, step.Sound heap

theorem Step.same_laws :
    PartialEquivalence (Step.Sound heap) fun a b => a.same false b = true where
  symm := by
    intro a b ha hb h
    cases a <;> cases b <;> simp only [Step.same, beq_iff_eq, Bool.false_eq_true] at h ⊢
    · exact h.symm
    · exact Value.same_symm ha hb h
  trans := by
    intro a b c ha hb hc h h'
    cases a <;> cases b <;> cases c <;>
      simp only [Step.same, beq_iff_eq, Bool.false_eq_true] at h h' ⊢
    · exact h.trans h'
    · exact Value.same_trans ha hb hc h h'

theorem Step.hashTokens_of_same {a b : Step} (ha : a.Sound heap) (hb : b.Sound heap)
    (h : a.same false b = true) : a.hashTokens = b.hashTokens := by
  cases a <;> cases b <;> simp only [Step.same, beq_iff_eq, Bool.false_eq_true] at h
  · simp only [Step.hashTokens, h]
  · have tokens := Value.hashTokens_of_same ha hb h
    simp only [Step.hashTokens, Value.hash_eq_of_hashTokens tokens]

namespace Path

theorem sameSteps_iff {as bs : List Step} :
    sameSteps false as bs = true ↔ List.Forall₂ (fun a b => a.same false b = true) as bs := by
  induction as generalizing bs with
  | nil => cases bs <;> simp [sameSteps]
  | cons a as ih =>
    cases bs with
    | nil => simp [sameSteps]
    | cons b bs => rw [sameSteps, Bool.and_eq_true, List.forall₂_cons, ih]

theorem hash_eq_of_steps {as bs : List Step}
    (h : List.Forall₂ (fun a b => Step.hashTokens a = Step.hashTokens b) as bs) :
    (Path.mk as).hash = (Path.mk bs).hash := by
  have tokens : as.flatMap Step.hashTokens = bs.flatMap Step.hashTokens := by
    induction h with
    | nil => rfl
    | cons same _ ih => rw [List.flatMap_cons, List.flatMap_cons, same, ih]
  exact congrArg Host.digest tokens

end Path

theorem lawful_pathRules : Rules.Lawful PathRules (Path.Sound heap) where
  equivalence _ := {
    symm := fun ha hb h => Path.sameSteps_iff.2 (forall₂_of_mem (Path.sameSteps_iff.1 h)
      fun x hx y hy => Step.same_laws.symm (ha x hx) (hb y hy)).flip
    trans := fun ha hb hc h h' => Path.sameSteps_iff.2 (forall₂_trans (Path.sameSteps_iff.1 h)
      (Path.sameSteps_iff.1 h')
      fun x hx y hy z hz => Step.same_laws.trans (ha x hx) (hb y hy) (hc z hz)) }
  hash _ _ _ ha hb h := Path.hash_eq_of_steps (forall₂_of_mem (Path.sameSteps_iff.1 h)
    fun x hx y hy => Step.hashTokens_of_same (ha x hx) (hb y hy))

/-! ## The rule of sets of values -/

namespace Value

/-- A value without marks that keeps to what the laws ask for. -/
def Plain (heap : Heap) (v : Value) : Prop :=
  v.containsMarked = false ∧ v.Sound heap

theorem lawful_valueRules : Rules.Lawful ValueRules (Plain heap) where
  equivalence _ := {
    symm := by
      intro a b ha hb h
      simp only [Rules.equivalent, equals_of_unmarked ha.1 hb.1, equals_of_unmarked hb.1 ha.1] at h ⊢
      exact (equalityLaws heap).equal_symm ha.2 hb.2 h
    trans := by
      intro a b c ha hb hc h h'
      simp only [Rules.equivalent, equals_of_unmarked ha.1 hb.1, equals_of_unmarked hb.1 hc.1,
        equals_of_unmarked ha.1 hc.1] at h h' ⊢
      exact (equalityLaws heap).trans ha.2 hb.2 hc.2 h h' }
  hash := by
    intro _ a b ha hb h
    simp only [Rules.equivalent, equals_of_unmarked ha.1 hb.1] at h
    exact hash_eq_of_hashTokens ((equalityLaws heap).hash ha.2 hb.2 h)

/-- Equality of values without marks gives the same answer both ways, known equality is transitive,
and values that are known to be equal, or have the same representation, have one hash. The rules of
sets of values and of sets of paths are lawful. -/
theorem setRules_lawful (heap : Heap) :
    (∀ a b : Value, a.Plain heap → b.Plain heap →
      (a.equals b).IsAnswer ∧ (a.equals b).SameAnswer (b.equals a)) ∧
    (∀ a b c : Value, a.Plain heap → b.Plain heap → c.Plain heap →
      (a.equals b).isKnownTrue = true → (b.equals c).isKnownTrue = true →
      (a.equals c).isKnownTrue = true) ∧
    (∀ a b : Value, a.Plain heap → b.Plain heap →
      (a.equals b).isKnownTrue = true → a.hash = b.hash) ∧
    (∀ a b : Value, a.Plain heap → b.Plain heap → a.rawEquals b = true → a.hash = b.hash) ∧
    Rules.Lawful ValueRules (Plain heap) ∧ Rules.Lawful PathRules (Path.Sound heap) := by
  refine ⟨?_, ?_, ?_, ?_, lawful_valueRules, lawful_pathRules⟩
  · intro a b ha hb
    rw [equals_of_unmarked ha.1 hb.1, equals_of_unmarked hb.1 ha.1]
    exact ⟨(equalityLaws heap).answer ha.2 hb.2, (equalityLaws heap).symm ha.2 hb.2⟩
  · intro a b c ha hb hc
    exact (lawful_valueRules.equivalence ⟨.dynamic⟩).trans ha hb hc
  · intro a b ha hb
    exact lawful_valueRules.hash ⟨.dynamic⟩ ha hb
  · intro a b ha hb h
    exact hash_eq_of_hashTokens (hashTokens_of_same ha.2 hb.2 h)

end Value

end

/-! ### Capsules that are told apart by remainders -/

/-- The remainder of an integer. -/
def Native.remainder : Native → Int
  | .integer n => n % 3
  | .text _ => 0

/-- The host whose capsules are equal if their integers have the same remainder. -/
abbrev Host.remainders : Host where
  digest tokens := .ofNat tokens.length
  operations _ :=
    { rawEquals := some fun x y => x.remainder == y.remainder
      equals := some fun x y => .bool (x.remainder == y.remainder)
      hashKey := some fun x => toString x.remainder }
  nativeName _ := ""

/-- The payloads that hold a natural number, which is their identity too. -/
def Heap.naturals : Heap where
  live p := ∃ n : Nat, p = ⟨.integer n, [n]⟩
  faithful := by
    rintro p q ⟨m, rfl⟩ ⟨n, rfl⟩ same
    cases same
    rfl

theorem consistent_remainders (c : CapsuleType) : @CapsuleType.Consistent Host.remainders c := by
  let := Host.remainders
  refine ⟨rfl, ?_, ?_, ?_, ?_, ?_, ?_⟩
  · rintro same ⟨⟩
    constructor
    · intro x y _ _ h
      rw [beq_iff_eq] at h ⊢
      exact h.symm
    · intro x y z _ _ _ h h'
      rw [beq_iff_eq] at h h' ⊢
      exact h.trans h'
  · rintro equal ⟨⟩ x y _ _
    exact Value.isAnswer_bool _
  · rintro equal ⟨⟩ x y _ _
    exact Value.sameAnswer_of_eq (congrArg Value.bool Bool.beq_comm)
  · rintro equal ⟨⟩ x y z _ _ _ h h'
    rw [Value.isKnownTrue_bool, beq_iff_eq] at h h' ⊢
    exact h.trans h'
  · rintro key ⟨⟩ same ⟨⟩ x y _ _ h
    exact congrArg toString (beq_iff_eq.1 h)
  · rintro key ⟨⟩ equal ⟨⟩ x y _ _ h
    rw [Value.isKnownTrue_bool, beq_iff_eq] at h
    exact congrArg toString h

namespace Value

/-- A set of one capsule with a natural number. -/
def capsuleSet (n : Nat) : Value :=
  let c : CapsuleType := ⟨0, "remainder", .integer⟩
  bare (.set (.capsule c) [bare (.capsule c ⟨.integer n, [n]⟩)])

theorem plain_capsuleSet (n : Nat) : @Plain Host.remainders .naturals (capsuleSet n) := by
  let := Host.remainders
  refine ⟨rfl, .intro (List.pairwise_singleton _ _) ?_⟩
  intro v hv
  cases List.mem_singleton.1 hv
  exact .intro ⟨consistent_remainders _, ⟨n, rfl⟩, rfl⟩ (List.forall_mem_nil _)

/-- The sets of 1 and 7 are equal since both are equal to the set of 4, and so are their hashes. -/
theorem setRules_lawful_remainders :
    letI := Host.remainders
    (∀ n, (capsuleSet n).Plain .naturals) ∧
      ((capsuleSet 1).equals (capsuleSet 7)).isKnownTrue = true ∧
      (capsuleSet 1).hash = (capsuleSet 7).hash := by
  let := Host.remainders
  obtain ⟨-, trans, hash, -⟩ := setRules_lawful .naturals
  have first : ((capsuleSet 1).equals (capsuleSet 4)).isKnownTrue = true := by cbv
  have second : ((capsuleSet 4).equals (capsuleSet 7)).isKnownTrue = true := by cbv
  have equal := trans _ _ _ (plain_capsuleSet 1) (plain_capsuleSet 4) (plain_capsuleSet 7) first second
  exact ⟨plain_capsuleSet, equal, hash _ _ (plain_capsuleSet 1) (plain_capsuleSet 7) equal⟩

end Value

end ValueAlgebra
