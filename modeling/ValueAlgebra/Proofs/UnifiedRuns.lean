import ValueAlgebra.Proofs.SafeRuns

/-!
# Values of unified types

Safe unification of some types gives a target with a conversion for each type, or with none for a
type that is the target. Where no type has a dynamic part or an optional attribute, neither does the
target, since it is made of what the types have in common. So the target fixes the type of all
results, and nothing but a lack of room for the elements of a list keeps a value from becoming one
of the target.

Room does lack: a set of which nothing but its length is known may be longer than any list.

Main statements:

* `Unification.target_everywhere`: what holds of all parts of all types holds of the target.
* `Unification.values_unify`: how values of the types become values of the target.
* `Unification.unify_lacks_room`: a value that does not.
-/

namespace ValueAlgebra

open Entries Text Refining

/-- The value that a conversion makes of a value, or the value itself where there is none. -/
def Conversion.runOrKeep [Host] (c : Option Conversion) (v : Value) (path : Path)
    (site : List Nat) : Except Failure Value :=
  match c with
  | some c => c.run v path site
  | none => .ok v

namespace Unification

/-- What is structural and holds of a type holds of two collections of it. -/
theorem everywhere_collections {p : Ty → Prop} (hp : Ty.Structural p) (a b : CollectionKind)
    {e : Ty} (he : e.Everywhere p) : ∀ t ∈ [a.type e, b.type e], t.Everywhere p := by
  have collection (kind : CollectionKind) : (kind.type e).Everywhere p :=
    Ty.everywhere_collection.2 ⟨hp.collection kind e, he⟩
  exact List.forall_mem_cons.2 ⟨collection a, List.forall_mem_singleton.2 (collection b)⟩

section

variable [Host] {mode : Mode} {types : List Ty} {u : Unification}

/-- A structural property of some types, of which there are any, is one of the target. -/
theorem target_everywhere {p : Ty → Prop} (hp : Ty.Structural p) (hne : types ≠ [])
    (h : plan? mode types = some u) (all : ∀ t ∈ types, t.Everywhere p) : u.target.Everywhere p :=
  (common_target h).everywhere hp (fun empty => absurd empty hne) all

theorem target_closed (hne : types ≠ []) (h : plan? mode types = some u)
    (closed : ∀ t ∈ types, t.hasDynamic = false) : u.target.hasDynamic = false :=
  Ty.hasDynamic_eq_false_iff.2 <| target_everywhere Ty.structural_ne_dynamic hne h fun t ht =>
    Ty.hasDynamic_eq_false_iff.1 (closed t ht)

theorem target_optionalFree (hne : types ≠ []) (h : plan? mode types = some u)
    (free : ∀ t ∈ types, t.OptionalFree) : u.target.OptionalFree :=
  target_everywhere Ty.structural_optionalNames hne h free

end

variable [Host] {S : Scope} {types : List Ty} {u : Unification} {t : Ty} {c : Option Conversion}
  {v w : Value} {path : Path} {site : List Nat} {e : Failure}

/-- What a value of one of the types becomes has the type that the target fixes. -/
theorem ty_of_runOrKeep (hS : S.Closed) (closed : u.target.hasDynamic = false)
    (free : u.target.OptionalFree) (target : u.target.Everywhere S.types)
    (hc : Converts .safe u.target v.ty c) (hv : v.Within S)
    (h : Conversion.runOrKeep c v path site = .ok w) : w.ty = u.target := by
  cases hc with
  | stay eq =>
    cases h
    exact eq
  | convert leads =>
    have safe : Mode.safe = .lenient → ∀ c, ¬ S.types (.capsule c) := fun eq => by cases eq
    have lands := Conversion.run_lands hS safe leads (hv.ty hS) (.ofEverywhere hS.structural target)
      hv (.refl (hv.wellFormed_ty hS)) h
    rw [lands.ty_eq hS (.inr free) closed, free.withoutOptional_eq]

/-- Nothing but a lack of room keeps a value of one of the types from becoming one of the target. -/
theorem runOrKeep_error (hS : S.Closed) (hd : S.deep) (limit : ∀ n, S.lengths n → n ≤ lengthLimit)
    (closed : u.target.hasDynamic = false) (free : u.target.OptionalFree)
    (target : u.target.Everywhere S.types) (hc : Converts .safe u.target v.ty c) (hv : v.Within S)
    (h : Conversion.runOrKeep c v path site = .error e) :
    e = .fault .capacityOverflow ∧ ∃ n, S.lengths n ∧ listCapacity < n := by
  cases hc with
  | stay => cases h
  | convert leads =>
    cases leads with
    | forget eq =>
      rw [eq] at closed
      cases closed
    | planned hp =>
      have steady : Steady S .safe v.ty u.target := .firm free (Ty.settled_of_hasDynamic closed)
      rcases Conversion.safe_run_error True hS hd limit (.ofEverywhere hS.structural target) hv
        (fun _ => steady) hp h with ⟨shaky, -⟩ | lack
      · exact absurd trivial shaky
      · exact lack

/-- Types without dynamic parts and optional attributes are unified in a target without dynamic
parts. There is an entry for each of them, in order, and none of them is missing but where the type
is the target. All values of the types become values of the target, unless a list lacks room. -/
theorem values_unify (hne : types ≠ []) (ample : ∀ t ∈ types, t.Everywhere Scope.ample.types)
    (closed : ∀ t ∈ types, t.hasDynamic = false) (free : ∀ t ∈ types, t.OptionalFree)
    (h : plan? .safe types = some u) :
    u.target.hasDynamic = false ∧ u.conversions.length = types.length ∧
      ∀ (i : Nat) (t : Ty) (c : Option Conversion), types[i]? = some t →
        u.conversions[i]? = some c → (c = none → t = u.target) ∧
          ∀ (v : Value) (path : Path) (site : List Nat), v.ty = t → v.Within .all →
            (∃ w, Conversion.runOrKeep c v path site = .ok w ∧ w.ty = u.target) ∨
              (Conversion.runOrKeep c v path site = .error (.fault .capacityOverflow) ∧
                ¬ v.Within .ample) := by
  have converts := plan?_conversions h
  have closed := target_closed hne h closed
  have free := target_optionalFree hne h free
  have hS := Scope.closed_upTo listCapacity
  have hA := Scope.closed_upTo lengthLimit
  have target := target_everywhere hS.structural hne h ample
  have wide : u.target.Everywhere Scope.all.types :=
    target.mono fun t ht => ⟨ht.1, Nat.le_trans ht.2 (by decide)⟩
  refine ⟨closed, converts.length_eq.symm, fun i t c ht hc => ?_⟩
  have entry : Converts .safe u.target t c := getElem?_of_forall₂ converts ht hc
  refine ⟨fun none => ?_, ?_⟩
  · subst none
    cases entry with
    | stay eq => exact eq
  · rintro v path site rfl hv
    cases hr : Conversion.runOrKeep c v path site with
    | ok w => exact .inl ⟨w, rfl, ty_of_runOrKeep hA closed free wide entry hv hr⟩
    | error e =>
      obtain ⟨rfl, -⟩ := runOrKeep_error hA trivial (fun _ h => h) closed free wide entry hv hr
      refine .inr ⟨rfl, fun within => ?_⟩
      obtain ⟨-, n, hn, big⟩ := runOrKeep_error hS trivial
        (fun n hn => Nat.le_trans hn (by decide)) closed free target entry within hr
      exact absurd hn (Nat.not_le_of_lt big)

end Unification

namespace Unification

/-- A list and a set of strings are unified in a list. -/
theorem values_unify_strings :
    letI := Host.plain
    let types : List Ty := [.list .string, .set .string]
    (∀ t ∈ types, t.Everywhere Scope.ample.types ∧ t.hasDynamic = false ∧ t.OptionalFree) ∧
      ∃ u c, plan? .safe types = some u ∧ u.target = .list .string ∧
        u.conversions = [none, some c] ∧
        ∀ v : Value, v.ty = .set .string → v.Within .ample →
          ∃ w, c.run v .root [] = .ok w ∧ w.ty = .list .string := by
  let := Host.plain
  intro types
  have collections {p : Ty → Prop} (hp : Ty.Structural p) : ∀ t ∈ types, t.Everywhere p :=
    everywhere_collections hp .list .set ((Ty.everywhere_leaf rfl).2 hp.string)
  have ample := collections (Scope.closed_upTo listCapacity).structural
  have closed : ∀ t ∈ types, t.hasDynamic = false := by decide
  have free := collections Ty.structural_optionalNames
  refine ⟨fun t ht => ⟨ample t ht, closed t ht, free t ht⟩, ?_⟩
  have found : (plan? .safe types).map (fun u => (u.target, u.conversions.map Option.isSome)) =
      some (.list .string, [false, true]) := by
    cbv
  obtain ⟨⟨target, conversions⟩, h, eq⟩ := Option.map_eq_some_iff.1 found
  have all := values_unify (by decide) ample closed free h
  simp only [Prod.mk.injEq] at eq
  obtain ⟨rfl, entries⟩ := eq
  have two : conversions.length = 2 := by simpa using congrArg List.length entries
  obtain ⟨a, b, rfl⟩ := List.length_eq_two.1 two
  simp only [List.map_cons, List.map_nil, List.cons.injEq, and_true] at entries
  obtain rfl := Option.not_isSome_iff_eq_none.1 (Bool.eq_false_iff.1 entries.1)
  obtain ⟨c, rfl⟩ := Option.isSome_iff_exists.1 entries.2
  refine ⟨_, c, h, rfl, rfl, fun v hv within => ?_⟩
  have wide : v.Within .all :=
    within.mono (fun t ht => ⟨ht.1, Nat.le_trans ht.2 (by decide)⟩) (fun _ h => h)
      (fun n hn => Nat.le_trans hn (by decide)) fun h => h
  rcases (all.2.2 1 _ _ rfl rfl).2 v .root [] hv wide with ran | ⟨-, outside⟩
  · exact ran
  · exact absurd within outside

/-- An unknown set of numbers, longer than lists can be. -/
def vastSet : Value :=
  .refined (.set .number)
    { Refinement.notNull with minLength := 2 ^ 60, maxLength := some (2 ^ 60) }

theorem restrict_vastSet :
    (Value.unknown (.set .number)).restrict [.notNull, .length (2 ^ 60)] = .ok vastSet :=
  rfl

/-- There would be as many unknown numbers in the list. -/
theorem run_vastSet [Host] (rule : Rule Conversion) (path : Path) (site : List Nat) :
    (Conversion.toward (.list .number) rule).run vastSet path site =
      .error (.fault .capacityOverflow) := by
  have target : Ty.list .number ≠ .dynamic := by simp
  have converted : vastSet.ty.converted (.list .number) = .list .number := by cbv
  have overflow : vastSet.convertUnknown (.list .number) = .error .capacityOverflow := by
    simp only [Value.convertUnknown, converted]
    rfl
  rw [Conversion.run_eq, Conversion.runWith_unknown target rfl]
  exact congrArg (Except.map (·.withMarks vastSet.marks)) (congrArg orFailure overflow)

/-- A set and a list of numbers are unified in a list, which a set may be too long for. -/
theorem unify_lacks_room :
    ¬ ∀ (_ : Host) (types : List Ty) (u : Unification) (i : Nat) (c : Option Conversion)
      (v : Value),
      types ≠ [] → (∀ t ∈ types, t.WellFormed ∧ t.CapsuleFree) →
      (∀ t ∈ types, t.hasDynamic = false) → (∀ t ∈ types, t.OptionalFree) →
      plan? .safe types = some u → u.conversions[i]? = some c → types[i]? = some v.ty →
      (∃ restrictions, (Value.unknown v.ty).restrict restrictions = .ok v) →
      ∃ w, Conversion.runOrKeep c v .root [] = .ok w ∧ w.ty = u.target := by
  intro claim
  let := Host.plain
  let types : List Ty := [.set .number, .list .number]
  have collections {p : Ty → Prop} (hp : Ty.Structural p) : ∀ t ∈ types, t.Everywhere p :=
    everywhere_collections hp .set .list ((Ty.everywhere_leaf rfl).2 hp.number)
  have found : plan? .safe types = some ⟨.list .number, [some (.toward (.list .number)
      (.collection .list .safe (.toward .number .keep) .number)), none]⟩ := by
    cbv
  have typed : vastSet.ty = .set .number := by
    simp only [vastSet, Value.refined, Value.bare, Value.ty]
  obtain ⟨w, ran, -⟩ := claim _ types _ 0 _ vastSet (by decide)
    (fun t ht => ⟨collections Ty.structural_headed t ht,
      collections Ty.structural_not_capsule t ht⟩)
    (by decide) (collections Ty.structural_optionalNames) found rfl (by rw [typed]; rfl)
    ⟨_, by rw [typed]; exact restrict_vastSet⟩
  rw [Conversion.runOrKeep, run_vastSet] at ran
  cases ran

end Unification

end ValueAlgebra
