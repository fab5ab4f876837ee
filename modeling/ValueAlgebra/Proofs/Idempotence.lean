import ValueAlgebra.Proofs.Arrival

/-!
# Conversions that are made twice

What a conversion makes of a value is at rest for the target, so another conversion to the same
target changes nothing in it: not its type, nor what is known of its unknowns, nor a mark. The
target may leave open what it likes, but for the variants of unions.

A known value of a union takes the union type of the target as it stands, while a null or an unknown
fills in what the target leaves open there. Where they are elements of one set, they are made of one
type after that, and it depends on the order in which the set lists them whether this works. So a set
may be made once and not another time.

Main statements:

* `Conversion.run_again`: what a run made is planned for again and left as it is, in either mode.
* `Value.convert_again`: what a conversion made converts to itself.
-/

namespace ValueAlgebra

/-- A type is a target on the way to itself. -/
theorem Ty.Goal.self {t : Ty} (ht : t.WellFormed) (free : t.CapsuleFree)
    (closed : t.Everywhere Ty.VariantsClosed) : Ty.Goal t t :=
  ⟨ht, free, ht, closed, .refl ht⟩

section

variable [Host] {mode : Mode} {t : Ty} {v w : Value} {c : Conversion} {path : Path}
  {site : List Nat}

/-- A run comes to rest, and what rests is planned for again and left as it is. -/
theorem Conversion.run_again (ht : t.WellFormed) (free : t.CapsuleFree)
    (closed : t.Everywhere Ty.VariantsClosed) (tame : v.Tame) (hc : plan? mode v.ty t = some c)
    (h : c.run v path site = .ok w) :
    ∃ c', plan? mode w.ty t = some c' ∧ ∀ path site, c'.run w path site = .ok w := by
  have arrives := run_arrives (.self ht free closed) (.inl rfl) tame (.planned hc) h
  exact arrives.rests.run ht arrives.tame.sterile.wellMade

/-- What a conversion made converts to itself, if the variants of unions in the target leave nothing
open and have no optional attributes. -/
theorem Value.convert_again (ht : t.WellFormed) (free : t.CapsuleFree)
    (closed : t.Everywhere Ty.VariantsClosed) (within : v.Within .capsuleFree) (sterile : v.Sterile)
    (h : v.convert t site = .ok w) (site' : List Nat) : w.convert t site' = .ok w := by
  by_cases typed : w.ty = t
  · exact if_pos typed
  have moved : v.ty ≠ t := fun eq => by
    rw [convert, if_pos eq] at h
    cases h
    exact typed eq
  rw [convert, if_neg moved] at h
  split at h
  · rename_i c hc
    obtain ⟨c', hc', again⟩ := Conversion.run_again ht free closed ⟨within, sterile⟩ hc h
    rw [convert, if_neg typed, hc']
    exact again .root site'
  · cases h

end

namespace Value

/-- A pair of bools becomes a list of what they have in common, and the list that is missing becomes
a null. -/
theorem convert_again_bools :
    letI := Host.plain
    let t : Ty := .object [("a", .list .dynamic), ("b", .list .dynamic)] ["b"]
    let v : Value := .bare (.object [("a", .bare (.tuple [bool true, null .bool]))])
    let w : Value := .bare (.object [("a", .bare (.list .bool [bool true, null .bool])),
      ("b", null (.list .dynamic))])
    t.WellFormed ∧ t.CapsuleFree ∧ t.Everywhere Ty.VariantsClosed ∧ v.Within .capsuleFree ∧
      v.Sterile ∧ v.convert t [] = .ok w ∧ w.convert t [1] = .ok w := by
  let := Host.plain
  intro t v w
  have proper : Names.Proper ["a"] := ⟨by decide, by decide⟩
  have ht : t.WellFormed := by
    refine Ty.everywhere_object.2 ⟨⟨⟨by decide, by decide⟩, by simp⟩, fun s hs => ?_⟩
    obtain rfl : s = .list .dynamic := by simpa using hs
    exact Ty.everywhere_list.2 ⟨Ty.structural_headed.list _,
      (Ty.everywhere_leaf rfl).2 ⟨Names.proper_nil, by simp⟩⟩
  have free : t.CapsuleFree := by decide
  have closed : t.Everywhere Ty.VariantsClosed := by decide
  have within : v.Within .capsuleFree :=
    .object ⟨⟨proper, by simp⟩, rfl⟩ (List.forall_mem_singleton.2
      (.tuple ⟨⟨Names.proper_nil, by simp⟩, rfl⟩ (List.forall_mem_cons.2 ⟨.bool,
        List.forall_mem_singleton.2 (.null
          ((Ty.everywhere_leaf rfl).2 Scope.closed_capsuleFree.structural.bool))⟩)))
  have sterile : v.Sterile := by
    have pair : (tuple [bool true, null .bool]).Sterile :=
      sterile_tuple (List.forall_mem_cons.2 ⟨sterile_bool true,
        List.forall_mem_singleton.2 (sterile_null ((Ty.everywhere_leaf rfl).2 rfl))⟩)
    have made : (object [("a", tuple [bool true, null .bool])]).Sterile :=
      sterile_object (List.forall_mem_singleton.2 pair)
    rwa [object, @Entries.namedParts_of_proper _ [("a", _)] proper] at made
  have converts : v.convert t [] = .ok w := by cbv
  exact ⟨ht, free, closed, within, sterile, converts,
    convert_again ht free closed within sterile converts [1]⟩

/-- A union whose one variant holds something of a type. -/
def soleVariant (t : Ty) : Ty :=
  .union [("a", t)]

/-- The number one in a union. -/
def soleOne : Value :=
  .bare (.union [("a", .number)] "a" (.number (.ofInt 1)))

/-- A null of a union and a number in it. -/
def nullAndOne : Value :=
  .bare (.tuple [.null (soleVariant .number), soleOne])

/-- A set that lists the number first. -/
def oneAndNull : Value :=
  .bare (.set (soleVariant .number) [soleOne, .null (soleVariant .number)])

theorem wellFormed_soleVariant {t : Ty} (leaf : t.components = []) (here : t.Headed) :
    (soleVariant t).WellFormed := by
  have proper : Names.Proper ["a"] := ⟨by decide, by decide⟩
  exact Ty.everywhere_union.2 ⟨⟨proper, by simp⟩,
    List.forall_mem_singleton.2 ((Ty.everywhere_leaf leaf).2 here)⟩

theorem tame_nullAndOne : nullAndOne.Tame := by
  have formed : (soleVariant .number).WellFormed :=
    wellFormed_soleVariant rfl Ty.structural_headed.number
  have free : (soleVariant .number).CapsuleFree := by decide
  have fits : (number (.ofInt 1)).Fits .number := by
    simp [Fits, Ty.hasDynamic, number, bare, ty, Ty.withoutOptional]
  have made : Value.union (soleVariant .number) "a" (number (.ofInt 1)) = .ok soleOne := by cbv
  constructor
  · have one : soleOne.Within .capsuleFree :=
      .union (formed.and free) rfl fits (fun deep => absurd deep id) fun deep => absurd deep id
    exact .tuple ⟨⟨Names.proper_nil, by simp⟩, rfl⟩ (List.forall_mem_cons.2
      ⟨.null (formed.and free), List.forall_mem_singleton.2 one⟩)
  · exact sterile_tuple (List.forall_mem_cons.2 ⟨sterile_null free, List.forall_mem_singleton.2
      (sterile_union free (sterile_number (.ofInt 1)) made)⟩)

/-- The number takes the union type of the target, and then that of the null. -/
theorem convert_nullAndOne :
    letI := Host.plain
    nullAndOne.convert (.set (soleVariant .dynamic)) [] = .ok oneAndNull := by
  let := Host.plain
  let wanted := soleVariant .dynamic
  let pass : Conversion := .toward wanted (.union [("a", .toward .dynamic .keep)])
  let opened : Value := .bare (.union [("a", .dynamic)] "a" (number (.ofInt 1)))
  have moved : nullAndOne.ty ≠ .set wanted := fun eq => by
    simp only [nullAndOne, bare, ty, reduceCtorEq] at eq
  have plan : Conversion.plan? .lenient nullAndOne.ty (.set wanted) =
      some (.toward (.set wanted) (.gather .set .lenient [pass, pass] wanted)) := by cbv
  have parts : convertTuple (Conversion.runPart nullAndOne.height) [pass, pass] nullAndOne .root
      [] = .ok [null (soleVariant .number), opened] := by cbv
  have same : homogenize (Conversion.runPart nullAndOne.height) .set .lenient .root []
      [null (soleVariant .number), opened] = .ok [null (soleVariant .number), soleOne] := by cbv
  have typed : ∀ x ∈ [null (soleVariant .number), soleOne], x.ty = soleVariant .number := by
    simp [soleOne, soleVariant, null, bare, ty]
  rw [convert, if_neg moved, plan]
  change Conversion.run _ nullAndOne .root [] = _
  rw [Conversion.run_eq, Conversion.runWith_decided (by simp) rfl rfl]
  change (Rule.apply (Conversion.runPart nullAndOne.height)
    (.gather .set .lenient [pass, pass] wanted) (.set wanted) nullAndOne .root []).map _ = _
  rw [Rule.apply, parts]
  change (homogenize (Conversion.runPart nullAndOne.height) .set .lenient .root [] _ >>= _ :
    Except Failure Value).map _ = _
  rw [same]
  change (orFailure (Value.set [null (soleVariant .number), soleOne])).map _ = _
  rw [set_of_common (by simp) (commonType?_of_all (by simp) typed)]
  cbv

/-- A null and a number become a set in this order. In the order in which the set lists them, they
do not become one another time. -/
theorem convert_set_once :
    ¬ ∀ (_ : Host) (t : Ty) (v w : Value) (site : List Nat), t.WellFormed → t.CapsuleFree →
      v.Within .capsuleFree → v.Sterile → v.convert t site = .ok w → w.convert t site = .ok w := by
  intro claim
  let := Host.plain
  have ht : (Ty.set (soleVariant .dynamic)).WellFormed :=
    Ty.everywhere_set.2 ⟨Ty.structural_headed.set _,
      wellFormed_soleVariant rfl ⟨Names.proper_nil, by simp⟩⟩
  have again : oneAndNull.convert (.set (soleVariant .dynamic)) [] =
      .error (.path ⟨.root, .elementsDiffer .set⟩) := by cbv
  have ok := claim _ _ _ _ [] ht (by decide) tame_nullAndOne.within tame_nullAndOne.sterile
    convert_nullAndOne
  rw [again] at ok
  cases ok

end Value

end ValueAlgebra
