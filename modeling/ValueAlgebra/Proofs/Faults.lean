import ValueAlgebra.Proofs.Failures
import ValueAlgebra.Proofs.Rendering
import ValueAlgebra.Proofs.ResultTypes

/-!
# Faults of conversions

A conversion to a type is meant to succeed or to complain. It ends with a fault in three cases: a
text has an exponent whose distance from zero is no word, a set of unknown elements is too long for
a list, or a variant does not get the type that its union asks for. The last takes optional
attributes: where no union in the types of the value and in the target has any inside, variants get
what they ask for, and so they do for a target without optional attributes whose element types leave
nothing open.

Main statements:

* `Value.convert_fault`: what a fault says about a value and a target.
* `Value.convert_faults`: which values are converted without a fault.
-/

namespace ValueAlgebra

open Entries Text Refining

/-- The scope of all values without capsules. -/
def Scope.convertible : Scope :=
  Scope.all.restrict fun t => t.isCapsule = false

theorem Scope.closed_convertible : Scope.convertible.Closed :=
  (Scope.closed_upTo lengthLimit).restrict Ty.structural_not_capsule rfl

/-- The values without capsules whose elements have room in a list and whose texts, read as numbers,
have no exponent that overflows. -/
def Scope.moderate : Scope :=
  { Scope.ample.restrict fun t => t.isCapsule = false with
    texts := fun s => Number.parse s ≠ .error .exponentOverflow }

theorem Scope.closed_moderate : Scope.moderate.Closed where
  structural := (Scope.closed_upTo listCapacity).structural.and Ty.structural_not_capsule
  headed _ h := h.1.1
  dynamic := ⟨(Scope.closed_upTo listCapacity).dynamic, rfl⟩
  flag b := by
    have word : Number.parse (normalize (if b then "true" else "false")) =
        .error (.malformed (if b then "true" else "false")) := by
      cases b <;> cbv
    intro overflow
    rw [word] at overflow
    cases overflow
  parsed _ n _ _ := Number.parse_ne_exponentOverflow (Number.noExponent_render n)
  shorter h hmn := Nat.le_trans hmn h
  empty := Nat.zero_le _
  tuple _ h := h.1.2
  object _ _ h := h.1.2

namespace Value

section

variable [Host] {t : Ty} {v : Value} {site : List Nat} {f : Fault}

/-- What a fault says about the scope of a value and a target. -/
theorem convert_fault (steady : Prop) {S : Scope} (hS : S.Closed)
    (hm : ∀ c, ¬ S.types (.capsule c)) (hd : S.deep) (limit : ∀ n, S.lengths n → n ≤ lengthLimit)
    (ht : t.Everywhere S.types) (hv : v.Within S) (hst : steady → Steady S .lenient v.ty t)
    (h : v.convert t site = .error (.fault f)) :
    (f = .exponentOverflow ∧ ∃ s, S.texts s ∧ Number.parse s = .error .exponentOverflow) ∨
    (f = .capacityOverflow ∧ ∃ n, S.lengths n ∧ listCapacity < n) ∨
    (¬ steady ∧ ∃ name wanted got, f = .variantMismatch name wanted got ∧ wanted.NearMiss got) := by
  unfold convert at h
  split at h
  · cases h
  split at h
  · rename_i c hp
    have excused := Conversion.run_error hS (fun _ => hm) hd limit
      ⟨hv.fitted hS, .planned hp, .ofEverywhere hS.structural ht, hst⟩ h
    cases excused with
    | variant hs name miss => exact .inr (.inr ⟨hs, name, _, _, rfl, miss⟩)
    | exponent _ hs parse => exact .inl ⟨rfl, _, hs, parse⟩
    | capacity hn big => exact .inr (.inl ⟨rfl, _, hn, big⟩)
  · cases h

/-- A fault in moderate values is that of a variant, and there is none for steady conversions. -/
theorem convert_fault_of_moderate (steady : Prop) {S : Scope} (hS : S.Closed)
    (hm : ∀ c, ¬ S.types (.capsule c)) (hd : S.deep)
    (readable : ∀ s, S.texts s → Number.parse s ≠ .error .exponentOverflow)
    (limit : ∀ n, S.lengths n → n ≤ listCapacity) (ht : t.Everywhere S.types) (hv : v.Within S)
    (hst : steady → Steady S .lenient v.ty t) (h : v.convert t site = .error (.fault f)) :
    ¬ steady ∧ ∃ name wanted got, f = .variantMismatch name wanted got ∧ wanted.NearMiss got := by
  have fits (n : Nat) (hn : S.lengths n) : n ≤ lengthLimit :=
    Nat.le_trans (limit n hn) (by decide)
  rcases convert_fault steady hS hm hd fits ht hv hst h with ⟨-, s, hs, overflow⟩ | ⟨-, n, hn, big⟩ | miss
  · exact absurd overflow (readable s hs)
  · exact absurd (limit n hn) (Nat.not_le_of_lt big)
  · exact miss

/-- Faults come from exponents that overflow, from a lack of room, and from variants that get
optional attributes which their union does not ask for. Moderate values fault only in the last way,
and not at all if no union in their types and the target has optional attributes inside, or if the
target has no optional attribute and its element types leave nothing open. -/
theorem convert_faults (ht : t.Everywhere Scope.convertible.types) :
    (∀ (v : Value) (site : List Nat) (f : Fault), v.Within .convertible →
      v.convert t site = .error (.fault f) → f = .exponentOverflow ∨ f = .capacityOverflow ∨
        ∃ name wanted got, f = .variantMismatch name wanted got ∧ wanted.NearMiss got) ∧
    (t.Everywhere Scope.moderate.types →
      (∀ (v : Value) (site : List Nat) (f : Fault), v.Within .moderate →
        v.convert t site = .error (.fault f) →
          ∃ name wanted got, f = .variantMismatch name wanted got ∧ wanted.NearMiss got) ∧
      (t.Everywhere Ty.VariantsRequired → ∀ (v : Value) (site : List Nat) (f : Fault),
        v.Within (.restrict .moderate Ty.VariantsRequired) →
          v.convert t site ≠ .error (.fault f)) ∧
      (t.OptionalFree → t.Settled False → ∀ (v : Value) (site : List Nat) (f : Fault),
        v.Within .moderate → v.convert t site ≠ .error (.fault f))) := by
  refine ⟨fun v site f hv h => ?_, fun moderate => ⟨fun v site f hv h => ?_,
    fun required v site f hv h => ?_, fun free settled v site f hv h => ?_⟩⟩
  · rcases convert_fault False Scope.closed_convertible
      (fun c hc => Bool.noConfusion hc.2) trivial (fun _ h => h) ht hv (by simp) h with
      ⟨eq, -⟩ | ⟨eq, -⟩ | ⟨-, miss⟩
    · exact .inl eq
    · exact .inr (.inl eq)
    · exact .inr (.inr miss)
  · exact (convert_fault_of_moderate False Scope.closed_moderate
      (fun c hc => Bool.noConfusion hc.2) trivial (fun _ h => h) (fun _ h => h) moderate hv (by simp)
      h).2
  · exact (convert_fault_of_moderate True
      (Scope.closed_moderate.restrict Ty.structural_variantsRequired (by intro variants h; cases h))
      (fun c hc => Bool.noConfusion hc.1.2) trivial (fun _ h => h) (fun _ h => h)
      (Ty.Everywhere.and moderate required) hv (fun _ => .loose rfl fun _ h => h.2) h).1 trivial
  · exact (convert_fault_of_moderate True Scope.closed_moderate
      (fun c hc => Bool.noConfusion hc.2) trivial (fun _ h => h) (fun _ h => h) moderate hv
      (fun _ => .firm free settled) h).1 trivial

end

theorem convert_faults_strings :
    letI := Host.plain
    (Ty.list .string).Everywhere Scope.moderate.types ∧ (Ty.list .string).OptionalFree ∧
      (Ty.list .string).Settled False ∧ ∀ (v : Value) (site : List Nat) (f : Fault),
        v.Within .moderate → v.convert (.list .string) site ≠ .error (.fault f) := by
  let := Host.plain
  have strings {p : Ty → Prop} (hp : Ty.Structural p) : (Ty.list .string).Everywhere p :=
    Ty.everywhere_list.2 ⟨hp.list _, (Ty.everywhere_leaf rfl).2 hp.string⟩
  have moderate := strings Scope.closed_moderate.structural
  have free := strings Ty.structural_optionalNames
  have settled : (Ty.list .string).Settled False := Ty.settled_of_hasDynamic rfl
  exact ⟨moderate, free, settled,
    ((convert_faults (strings Scope.closed_convertible.structural)).2 moderate).2.2 free settled⟩

/-- A union in a union. -/
def unionOfUnion (t : Ty) : Ty :=
  .union [("a", .union [("b", t)])]

/-- An object without attributes in a variant of a variant. -/
def nestedVariants : Value :=
  .bare (.union [("a", .union [("b", .object [] [])])] "a"
    (.bare (.union [("b", .object [] [])] "b" (.bare (.object [])))))

theorem unionOfUnion_everywhere {p : Ty → Prop} {t : Ty} (outer : p (unionOfUnion t))
    (inner : p (.union [("b", t)])) (ht : t.Everywhere p) : (unionOfUnion t).Everywhere p := by
  refine Ty.everywhere_union.2 ⟨outer, fun u hu => ?_⟩
  obtain rfl := List.mem_singleton.1 hu
  refine Ty.everywhere_union.2 ⟨inner, fun u hu => ?_⟩
  obtain rfl := List.mem_singleton.1 hu
  exact ht

theorem headed_singleton {name : String} {t : Ty} (hn : normalize name = name) :
    (Ty.union [(name, t)]).Headed := by
  refine ⟨⟨List.pairwise_singleton .., fun other h => ?_⟩, by simp⟩
  obtain rfl := List.mem_singleton.1 h
  exact hn

theorem everywhere_object_singleton {a : Ty} (ha : Scope.convertible.types a)
    (leaf : a.components = []) :
    (Ty.object [("a", a)] []).Everywhere Scope.convertible.types := by
  have proper : Names.Proper ["a"] :=
    ⟨List.pairwise_singleton .., fun name hn => List.mem_singleton.1 hn ▸ rfl⟩
  have one : 1 ≤ lengthLimit := by decide
  refine Ty.everywhere_object.2 ⟨⟨⟨⟨proper, by simp⟩, one⟩, rfl⟩, fun u hu => ?_⟩
  obtain rfl := List.mem_singleton.1 hu
  exact (Ty.everywhere_leaf leaf).2 ha

theorem within_nestedVariants : nestedVariants.Within .moderate := by
  have object : (Ty.object [] []).Everywhere Scope.moderate.types :=
    Ty.everywhere_object.2 ⟨⟨⟨⟨Names.proper_nil, by simp⟩, Nat.zero_le _⟩, rfl⟩, by simp⟩
  have types : (unionOfUnion (.object [] [])).Everywhere Scope.moderate.types :=
    unionOfUnion_everywhere ⟨⟨headed_singleton rfl, Nat.zero_le _⟩, rfl⟩
      ⟨⟨headed_singleton rfl, Nat.zero_le _⟩, rfl⟩ object
  have inner := types.inside (s := .union [("b", .object [] [])]) List.mem_cons_self
  have wellFormed {t : Ty} (ht : t.Everywhere Scope.moderate.types) : t.WellFormed :=
    ht.mono fun _ h => h.1.1
  have empty : (Value.bare (.object [])).ty = .object [] [] := by
    simp only [bare, ty, entryTypes]
  have middle (v : Value) : (Value.bare (.union [("b", .object [] [])] "b" v)).ty =
      .union [("b", .object [] [])] := by
    simp only [bare, ty]
  refine .union types rfl ?_ (fun _ => ?_) fun _ => .union inner rfl ?_ (fun _ => ?_) fun _ =>
    .object object.here (by simp)
  · rw [Fits, middle]
    decide
  · rw [middle]
    exact .refl (wellFormed inner)
  · rw [Fits, empty]
    decide
  · rw [empty]
    exact .refl (wellFormed object)

/-- The inner union is made with the optional attribute that the outer one does not ask for. -/
theorem convert_nestedVariants_fault :
    ¬ ∀ (_ : Host) (t : Ty) (v : Value) (site : List Nat) (f : Fault), t.WellFormed →
      t.CapsuleFree → v.Within .moderate → v.convert t site ≠ .error (.fault f) := by
  intro claim
  let := Host.plain
  have fault : nestedVariants.convert (unionOfUnion Ty.optionalNumber) [] =
      .error (.fault (.variantMismatch "a" (.union [("b", Ty.optionalNumber)])
        (.union [("b", Ty.optionalNumber)]))) := by
    cbv
  refine claim _ _ _ [] _ ?_ ?_ within_nestedVariants fault
  · exact unionOfUnion_everywhere (headed_singleton rfl) (headed_singleton rfl)
      Ty.wellFormed_optionalNumber
  · exact unionOfUnion_everywhere rfl rfl Ty.capsuleFree_optionalNumber

end Value

end ValueAlgebra
