import ValueAlgebra.Proofs.CanonicalForm
import ValueAlgebra.Proofs.Obtained
import ValueAlgebra.Proofs.Representation
import ValueAlgebra.Proofs.SetOrder

/-!
# Taking containers apart and making them again

A list, set, tuple, map or object can be taken apart, and its constructor makes it of its parts
again. Elements have the type of their collection, so they share no other type and take none. Names
are canonical and in order, so they stay as they are. The elements of a set come in the order in
which the set lists them, which is not the one in which they were added. A set that is made of them
lists them in this order too (`RuleSet.Tidy.values_ofList`), if no element merges with an earlier
one, and this is what all ways to make a set preserve (`Item.Constructed.listed`).

Main statements:

* `Names.Normal.proper`: canonical names are their own canonical forms.
* `Combination.tidy`, `Item.Constructed.listed`: sets list their elements as sets of them do.
* `Value.not_merge_of_unknown`: sets keep all unknowns.
* `Value.list_toList`, `Value.set_toList`, `Value.tuple_toList`, `Value.map_entries`,
  `Value.object_entries`: the kinds of containers.
* `Value.rebuilt`: containers that are made by constructors.
-/

namespace ValueAlgebra

open Entries Text

theorem Names.Normal.proper {names : List String} (h : Names.Normal names) : Names.Proper names := by
  refine ⟨h.sorted, fun name hn => ?_⟩
  obtain ⟨s, rfl⟩ := h.canonical name hn
  exact normalize_normalize s

/-! ## How sets list their elements -/

theorem Combination.tidy {ρ α : Type} [Rules ρ α] {a b : RuleSet ρ α} (f : Combination)
    (ha : a.Tidy) : (f.apply a b).Tidy := by
  cases f with
  | union => exact ha.foldl_insert _
  | intersection | subtract => exact RuleSet.tidy_ofList _ _
  | symmetricDifference => exact (RuleSet.tidy_ofList _ _).foldl_insert _

/-- The elements of a set stand as a set of them lists them. -/
def Content.Listed [Host] : Content → Prop
  | .set e items => (RuleSet.ofList (ValueRules.mk e) items).values = items
  | _ => True

section

variable [Host] {s c : ValueSet} {v w : Value} {vs : List Value} {e t : Ty}

theorem ValueSet.listed_toValue (made : s.WellMade) (tidy : s.Tidy) : s.toValue.content.Listed :=
  tidy.values_ofList (Value.ordered_setOrder s.rules.element) fun x hx =>
    (made x (RuleSet.mem_values.2 hx)).1

theorem ValueSet.tidy_add {new : Bool} (tidy : s.Tidy) (h : s.add v = .ok (new, c)) : c.Tidy := by
  rw [ValueSet.add] at h
  split at h
  · cases h
  split at h
  · cases h
  · cases h
    exact tidy.insert _

theorem ValueSet.tidy_combine {a b : ValueSet} {f : Combination} (tidy : a.Tidy)
    (h : ValueSet.combine f.apply a b = .ok c) : c.Tidy := by
  unfold ValueSet.combine RuleSet.combine at h
  split at h
  · rename_i combined
    cases h
    split at combined
    · cases combined
      exact f.tidy tidy
    · cases combined
  · cases h

theorem Value.tidy_asSet (h : v.asSet = .ok s) : s.Tidy := by
  have read := reading_eq_ok h
  obtain ⟨m, c⟩ := v
  cases c with
  | set e items =>
    cases read
    exact RuleSet.tidy_ofList _ _
  | _ => cases read

namespace Value

theorem listed_set (h : set vs = .ok w) : w.content.Listed := by
  obtain ⟨e, -, hc, rfl⟩ := set_eq_ok h
  rw [content_setOf]
  refine RuleSet.values_ofList (ordered_setOrder e) _ fun x hx => ?_
  obtain ⟨y, hy, rfl⟩ := List.mem_map.1 hx
  obtain ⟨z, hz, rfl⟩ := List.mem_map.1 hy
  refine ⟨?_, containsMarked_unmarkDeep _⟩
  rw [ty_unmarkDeep, ty_conformTo (ty_of_commonType? hc hz)]

theorem listed_unmarkDeep (h : v.content.Listed) : v.unmarkDeep.content.Listed := by
  obtain ⟨m, c⟩ := v
  cases c <;> simp only [unmarkDeep] <;> exact h

/-- No path leads into a set. -/
theorem listed_markAlong (h : v.content.Listed) (marked : List MarkedPath) :
    (v.markAlong marked).content.Listed := by
  have step (marks : MarkSet) (steps : List Step) {v : Value} (h : v.content.Listed) :
      (markAt marks steps v).content.Listed := by
    cases steps with
    | nil => exact h
    | cons step rest =>
      obtain ⟨m, c⟩ := v
      cases c <;> exact h
  induction marked generalizing v with
  | nil => exact h
  | cons m marked ih => exact ih (step m.marks m.path.steps h)

theorem listed_emptySet (e : Ty) : (emptySet e).content.Listed :=
  (RuleSet.perm_ofList .nil).eq_nil

theorem listed_only (h : Refining.Only t v) : v.content.Listed := by
  cases h with
  | emptySet e => exact listed_emptySet e
  | set e => exact List.perm_singleton.1 (RuleSet.perm_ofList (List.pairwise_singleton _ _))
  | _ => trivial

theorem listed_restrict {xs : List Restriction} (hv : v.content.Listed)
    (h : v.restrict xs = .ok w) : w.content.Listed := by
  obtain ⟨s, hs, h⟩ := bind_eq_ok h
  have kept : s.value = v.unmark := (Refining.follows_foldlM hs).value
  obtain ⟨x, rfl, ⟨rfl, -⟩ | ⟨-, r, -, only | ⟨rfl, -⟩⟩⟩ := Refining.result_eq_ok h
  · rw [kept]
    exact hv
  · exact listed_only (v := x) only
  · trivial

end Value

/-- No element merges with an unknown, so sets keep each unknown that they are given. -/
theorem Value.not_merge_of_unknown {rules : ValueRules} {x y : Value}
    (hx : x.containsMarked = false) (hy : y.containsMarked = false)
    (unknown : x.isKnown = false ∨ y.isKnown = false) : ¬ RuleSet.Merge rules x y := by
  rintro ⟨-, equal⟩
  simp only [Rules.equivalent, equals_of_unmarked hx hy, equalsBare_eq] at equal
  have known : x.isKnown = true ∧ y.isKnown = true := by
    cases early : equalsEarly? x y with
    | some answer =>
      rw [early, Option.getD_some, isKnownTrue_equalsEarly? early, isNull_iff, isNull_iff] at equal
      obtain ⟨⟨t, ha⟩, u, hb⟩ := equal
      exact ⟨isKnown_of_null ha, isKnown_of_null hb⟩
    | none =>
      obtain ⟨dx, dy, -⟩ := equalsEarly?_eq_none.1 early
      exact ⟨dx.1.1, dy.1.1⟩
  rw [known.1, known.2] at unknown
  exact unknown.elim nofun nofun

/-! ## What constructors make -/

/-- What constructors make of values that are obtained in any way: values, also with marks or
restrictions put on them, and sets of values. -/
inductive Item.Constructed : Item → Prop
  | null (t : Ty) : Constructed (.value (.null t))
  | unknown (t : Ty) : Constructed (.value (.unknown t))
  | number (n : Number) : Constructed (.value (.number n))
  | string (s : String) : Constructed (.value (.string s))
  | bool (b : Bool) : Constructed (.value (.bool b))
  | emptyList (e : Ty) : Constructed (.value (.emptyList e))
  | emptySet (e : Ty) : Constructed (.value (.emptySet e))
  | emptyMap (e : Ty) : Constructed (.value (.emptyMap e))
  | list {vs : List Value} {w : Value} (hv : ∀ v ∈ vs, v.Obtained) (h : Value.list vs = .ok w) :
      Constructed (.value w)
  | set {vs : List Value} {w : Value} (hv : ∀ v ∈ vs, v.Obtained) (h : Value.set vs = .ok w) :
      Constructed (.value w)
  | map {entries : List (String × Value)} {w : Value}
      (hv : ∀ v ∈ Entries.values entries, v.Obtained) (h : Value.map entries = .ok w) :
      Constructed (.value w)
  | object {attributes : List (String × Value)}
      (hv : ∀ v ∈ Entries.values attributes, v.Obtained) :
      Constructed (.value (.object attributes))
  | tuple {vs : List Value} (hv : ∀ v ∈ vs, v.Obtained) : Constructed (.value (.tuple vs))
  | union {t : Ty} {variant : String} {v w : Value} (hv : v.Obtained)
      (h : Value.union t variant v = .ok w) : Constructed (.value w)
  | capsule {t : Ty} {p : Payload} {w : Value} (h : Value.capsule t p = .ok w) :
      Constructed (.value w)
  | withMarks {v : Value} (hv : Constructed (.value v)) (marks : MarkSet) :
      Constructed (.value (v.withMarks marks))
  | unmark {v : Value} (hv : Constructed (.value v)) : Constructed (.value v.unmark)
  | unmarkDeep {v : Value} (hv : Constructed (.value v)) : Constructed (.value v.unmarkDeep)
  | markAlong {v : Value} (hv : Constructed (.value v)) (marked : List MarkedPath) :
      Constructed (.value (v.markAlong marked))
  | restrict {v w : Value} (hv : Constructed (.value v)) {restrictions : List Restriction}
      (h : v.restrict restrictions = .ok w) : Constructed (.value w)
  | ofType (e : Ty) : Constructed (.values (.ofType e))
  | asSet {v : Value} (hv : v.Obtained) {s : ValueSet} (h : v.asSet = .ok s) :
      Constructed (.values s)
  | add {s s' : ValueSet} (hs : Constructed (.values s)) {v : Value} (hv : v.Obtained)
      {new : Bool} (h : s.add v = .ok (new, s')) : Constructed (.values s')
  | remove {s s' : ValueSet} (hs : Constructed (.values s)) {v removed : Value}
      (h : s.remove? v = some (removed, s')) : Constructed (.values s')
  | combine {a b c : ValueSet} (ha : Constructed (.values a)) (hb : (Item.values b).Obtained)
      {f : Combination} (h : ValueSet.combine f.apply a b = .ok c) : Constructed (.values c)
  | toValue {s : ValueSet} (hs : Constructed (.values s)) : Constructed (.value s.toValue)

/-- A value that constructors make. -/
def Value.Constructed (v : Value) : Prop :=
  (Item.value v).Constructed

theorem Item.Constructed.obtained {item : Item} (h : item.Constructed) : item.Obtained := by
  induction h with
  | null t => exact .null t
  | unknown t => exact .unknown t
  | number n => exact .number n
  | string s => exact .string s
  | bool b => exact .bool b
  | emptyList e => exact .emptyList e
  | emptySet e => exact .emptySet e
  | emptyMap e => exact .emptyMap e
  | list hv h => exact .list hv h
  | set hv h => exact .set hv h
  | map hv h => exact .map hv h
  | object hv => exact .object hv
  | tuple hv => exact .tuple hv
  | union hv h => exact .union hv h
  | capsule h => exact .capsule h
  | withMarks _ marks ih => exact .withMarks ih marks
  | unmark _ ih => exact .unmark ih
  | unmarkDeep _ ih => exact .unmarkDeep ih
  | markAlong _ marked ih => exact .markAlong ih marked
  | restrict _ h ih => exact .restrict ih h
  | ofType e => exact .ofType e
  | asSet hv h => exact .asSet hv h
  | add _ hv h ih => exact .add ih hv h
  | remove _ h ih => exact .remove ih h
  | combine _ hb h ih => exact .combine ih hb h
  | toValue _ ih => exact .toValue ih

def Item.Listed : Item → Prop
  | .value v => v.content.Listed
  | .values s => RuleSet.Tidy s

/-- The sets that constructors make list their elements as sets of these elements do. -/
theorem Item.Constructed.listed {item : Item} (h : item.Constructed) : item.Listed := by
  induction h with
  | emptySet e => exact Value.listed_emptySet e
  | set _ h => exact Value.listed_set h
  | list _ h =>
    obtain ⟨e, -, -, rfl⟩ := Value.list_eq_ok h
    trivial
  | map _ h =>
    obtain ⟨e, -, h⟩ := bind_eq_ok h
    cases h
    trivial
  | union _ h =>
    obtain ⟨variants, wanted, -, -, -, rfl⟩ := Value.eq_of_union_ok h
    trivial
  | capsule h =>
    unfold Value.capsule at h
    split at h
    · split at h <;> cases h
      trivial
    · cases h
  | withMarks _ _ ih | unmark _ ih => exact ih
  | unmarkDeep _ ih => exact Value.listed_unmarkDeep ih
  | markAlong _ marked ih => exact Value.listed_markAlong ih marked
  | restrict _ h ih => exact Value.listed_restrict ih h
  | ofType e => exact RuleSet.tidy_empty _
  | asSet _ h => exact Value.tidy_asSet h
  | add _ _ h tidy => exact ValueSet.tidy_add tidy h
  | remove _ h tidy => exact RuleSet.Tidy.remove tidy h
  | combine _ _ h tidy => exact ValueSet.tidy_combine tidy h
  | toValue hs tidy => exact ValueSet.listed_toValue (Item.Obtained.wellMade hs.obtained) tidy
  | _ => trivial

/-! ## Kinds of containers -/

namespace Value

variable {items : List Value}

omit [Host] in
theorem toList_of_numbered (h : v.Decided) (hc : elements? v.content = some (numbered 0 items)) :
    v.toList = .ok items := by
  have unmarked : v.isMarked = false := by
    rw [isMarked, h.unmarked]
    rfl
  have elements : v.elements = .ok (numbered 0 items) := by
    simp [elements, reading, unmarked, h.known, h.notNull, hc]
  rw [toList, elements]
  exact congrArg Except.ok (map_snd_numbered 0 items)

section

variable (h : v.Decided) (made : v.WellMade)
include h

omit [Host] in
theorem tuple_toList (kind : v.ty.isTuple = true) : v.toList.map tuple = .ok v := by
  obtain ⟨m, c⟩ := v
  cases h.unmarked
  cases c with
  | null => cases h.notNull
  | unknown => cases h.known
  | tuple items =>
    rw [toList_of_numbered h rfl]
    rfl
  | _ =>
    simp only [ty] at kind
    cases kind

include made

theorem list_toList (kind : v.ty.isList = true) (hne : v.size ≠ .ok 0) :
    v.toList.bind list = .ok v := by
  obtain ⟨m, c⟩ := v
  cases h.unmarked
  cases c with
  | null => cases h.notNull
  | unknown => cases h.known
  | list e items =>
    have some : items ≠ [] := by
      rintro rfl
      exact hne rfl
    have typed : ∀ x ∈ items, x.ty = e := made.here
    rw [toList_of_numbered h rfl]
    refine (list_of_common some (commonType?_of_all some typed)).trans ?_
    rw [map_conformTo_of_ty typed]
    rfl
  | _ =>
    simp only [ty] at kind
    cases kind

theorem set_toList (listed : v.content.Listed) (kind : v.ty.isSet = true)
    (hne : v.size ≠ .ok 0) : v.toList.bind set = .ok v := by
  obtain ⟨m, c⟩ := v
  cases h.unmarked
  cases c with
  | null => cases h.notNull
  | unknown => cases h.known
  | set e items =>
    have some : items ≠ [] := by
      rintro rfl
      exact hne rfl
    rw [toList_of_numbered h rfl]
    exact set_of_listed some made.here listed
  | _ =>
    simp only [ty] at kind
    cases kind

theorem map_entries (kind : v.ty.isMap = true) (hne : v.size ≠ .ok 0) :
    v.entries.bind map = .ok v := by
  obtain ⟨m, c⟩ := v
  cases h.unmarked
  cases c with
  | null => cases h.notNull
  | unknown => cases h.known
  | map e entries =>
    obtain ⟨normal, typed⟩ : Names.Normal (names entries) ∧ ∀ x ∈ values entries, x.ty = e :=
      made.here
    have some : values entries ≠ [] := by
      intro none
      rw [List.map_eq_nil_iff.1 none] at hne
      exact hne rfl
    refine (map_of_common normal.proper some (commonType?_of_all some typed)).trans ?_
    rw [mapValues_eq_self fun x hx => conformTo_of_ty (typed x hx)]
    rfl
  | _ =>
    simp only [ty] at kind
    cases kind

omit [Host] in
theorem object_entries (kind : v.ty.isObject = true) : v.entries.map object = .ok v := by
  obtain ⟨m, c⟩ := v
  cases h.unmarked
  cases c with
  | null => cases h.notNull
  | unknown => cases h.known
  | object attributes =>
    have normal : Names.Normal (names attributes) := made.here
    refine congrArg (fun parts => Except.ok (bare (.object parts))) ?_
    exact namedParts_of_proper normal.proper
  | _ =>
    simp only [ty] at kind
    cases kind

end

/-- A value has the representation of itself exactly if its capsules are the same as themselves. -/
theorem sameBy_self_iff {regard : Bool} :
    SameBy regard v v ↔ v.Capsules fun c p => c.rawEquals p p = true := by
  refine ⟨fun h => ?_, sameBy_refl⟩
  induction v using Value.induction with
  | step v ih =>
    obtain ⟨-, -, alike⟩ := sameBy_iff.1 h
    refine .intro (fun c p hc => ?_) fun w hw =>
      ih w hw (List.forall₂_same.1 alike.parts w hw)
    rw [hc] at alike
    cases alike with
    | matched h => cases h
    | capsule h => exact h

/-- What a container that constructors made is taken apart into makes the same container again: a
list, set or map with elements, and each tuple and object. It is identical to itself unless a capsule
in it is not even the same as itself. -/
theorem rebuilt (made : v.Constructed) (known : v.isKnown = true) (notNull : v.isNull = false)
    (unmarked : v.isMarked = false) :
    (v.ty.isList = true → v.size ≠ .ok 0 → v.toList.bind list = .ok v) ∧
    (v.ty.isSet = true → v.size ≠ .ok 0 → v.toList.bind set = .ok v) ∧
    (v.ty.isTuple = true → v.toList.map tuple = .ok v) ∧
    (v.ty.isMap = true → v.size ≠ .ok 0 → v.entries.bind map = .ok v) ∧
    (v.ty.isObject = true → v.entries.map object = .ok v) ∧
    (v.identical v = true ↔ v.Capsules fun c p => c.rawEquals p p = true) := by
  have decided : v.Decided := by
    refine ⟨MarkSet.eq_empty ?_, known, notNull⟩
    rwa [isMarked, Bool.not_eq_false'] at unmarked
  have wellMade : v.WellMade := Item.Obtained.wellMade made.obtained
  exact ⟨list_toList decided wellMade, set_toList decided wellMade made.listed,
    tuple_toList decided, map_entries decided wellMade, object_entries decided wellMade,
    sameBy_self_iff⟩

omit [Host] in
/-- A set of two unknowns and a known value, all of one hash, is made again of what it lists. -/
theorem rebuilt_unknowns :
    letI := Host.plain
    ∃ v, set [unknown .bool, bool true, unknown .bool] = .ok v ∧ v.size = .ok 3 ∧
      v.toList.bind set = .ok v := by
  let := Host.plain
  have typed : ∀ v ∈ [unknown .bool, bool true, unknown .bool], v.ty = .bool := by
    simp [unknown, refined, bool, bare, ty]
  have made := set_of_common (by simp) (commonType?_of_all (by simp) typed)
  have constructed : (setOf .bool [unknown .bool, bool true, unknown .bool]).Constructed := by
    refine .set (fun v hv => ?_) made
    simp only [List.mem_cons, List.not_mem_nil, or_false] at hv
    rcases hv with rfl | rfl | rfl
    · exact .unknown .bool
    · exact .bool true
    · exact .unknown .bool
  have apart : [unknown .bool, bool true, unknown .bool].Pairwise fun x y =>
      ¬ RuleSet.Merge (ValueRules.mk .bool) x y := by
    simp [not_merge_of_unknown (y := bool true) (unmarked_unknown .bool) rfl (.inl rfl),
      not_merge_of_unknown (unmarked_unknown .bool) (unmarked_unknown .bool) (.inl rfl),
      not_merge_of_unknown (x := bool true) rfl (unmarked_unknown .bool) (.inr rfl)]
  have size : (setOf .bool [unknown .bool, bool true, unknown .bool]).size = .ok 3 :=
    congrArg Except.ok (RuleSet.perm_ofList apart).length_eq
  obtain ⟨-, sets, -⟩ := rebuilt constructed rfl rfl rfl
  refine ⟨_, made, size, sets rfl fun empty => ?_⟩
  rw [size] at empty
  cases empty

end Value

end

end ValueAlgebra
