import ValueAlgebra.Proofs.SetEngine
import ValueAlgebra.Proofs.WellMadeResults

/-!
# Values that the interface hands out

Values are made by constructors and become others by refining, marking, reading, operations, sets of
values and conversions. Whatever is obtained in this way (`Item.Obtained`) keeps an invariant at
every depth: a value holds what values of its type hold (`Ty.Holds`). So where an operation goes by
the type of a value and finds nothing to go by in its content, the value is null.

Main statements:

* `Item.Obtained.wellMade`: one case for each function of the interface.
* `Value.WellMade.holds`: well-made values hold what values of their type hold.
* `Value.Obtained.represented`: the invariant of all values that are obtained.
-/

namespace ValueAlgebra

open Entries Text

/-! ## Elements of sets under rules -/

namespace RuleSet

variable {ρ α : Type} [Rules ρ α] {s a b : RuleSet ρ α} {x y : α}

theorem mem_values_insert (h : y ∈ (s.insert x).values) : y ∈ s.values ∨ y = x := by
  rw [mem_values] at h ⊢
  cases found : s.has x with
  | true =>
    rw [insert, add_of_has found] at h
    exact .inl h
  | false =>
    rw [insert, add_of_not_has found] at h
    obtain ⟨bucket, hb, hy⟩ := List.mem_flatMap.1 h
    rcases Bucket.mem_put hb with ⟨rfl, -⟩ | hb
    · rcases List.mem_append.1 hy with hy | hy
      · obtain ⟨ys, hm, hy⟩ := Bucket.mem_of_mem_find hy
        exact .inl (List.mem_flatMap.2 ⟨_, hm, hy⟩)
      · exact .inr (List.mem_singleton.1 hy)
    · exact .inl (List.mem_flatMap.2 ⟨bucket, hb, hy⟩)

theorem mem_values_foldl_insert {xs : List α} (h : y ∈ (xs.foldl insert s).values) :
    y ∈ s.values ∨ y ∈ xs := by
  induction xs generalizing s with
  | nil => exact .inl h
  | cons x xs ih =>
    rcases ih h with h | h
    · refine (mem_values_insert h).imp_right fun eq => ?_
      exact eq ▸ List.mem_cons_self
    · exact .inr (List.mem_cons_of_mem _ h)

theorem mem_values_remove {removed : α} {rest : RuleSet ρ α}
    (hr : s.remove? x = some (removed, rest)) (h : y ∈ rest.values) : y ∈ s.values := by
  obtain ⟨-, before, after, split, rfl⟩ := remove?_eq_some hr
  rw [mem_values] at h ⊢
  obtain ⟨bucket, hb, hy⟩ := List.mem_flatMap.1 h
  rcases Bucket.mem_put hb with ⟨rfl, -⟩ | hb
  · have found : y ∈ s.bucket (Rules.hash s.rules x) := by
      rw [split]
      exact ((List.sublist_cons_self removed after).append_left before).subset hy
    obtain ⟨ys, hm, hy⟩ := Bucket.mem_of_mem_find found
    exact List.mem_flatMap.2 ⟨_, hm, hy⟩
  · exact List.mem_flatMap.2 ⟨bucket, hb, hy⟩

end RuleSet

/-! ## Sets of values -/

/-- The ways to combine two sets. -/
inductive Combination where
  | union
  | intersection
  | subtract
  | symmetricDifference

namespace Combination

variable {ρ α : Type} [Rules ρ α] {a b : RuleSet ρ α} {x : α}

def apply : Combination → RuleSet ρ α → RuleSet ρ α → RuleSet ρ α
  | .union => .union
  | .intersection => .intersection
  | .subtract => .subtract
  | .symmetricDifference => .symmetricDifference

theorem rules_apply (f : Combination) : (f.apply a b).rules = a.rules := by
  cases f with
  | union => exact RuleSet.rules_foldl_insert _ _
  | intersection | subtract => exact RuleSet.rules_ofList _ _
  | symmetricDifference =>
    exact (RuleSet.rules_foldl_insert _ _).trans (RuleSet.rules_ofList _ _)

theorem mem_values_apply (f : Combination) (h : x ∈ (f.apply a b).values) :
    x ∈ a.values ∨ x ∈ b.values := by
  have filtered {q : α → Bool} (h : x ∈ (RuleSet.ofList a.rules (a.values.filter q)).values) :
      x ∈ a.values :=
    (List.mem_filter.1 (RuleSet.mem_of_mem_ofList h)).1
  cases f with
  | union => exact RuleSet.mem_values_foldl_insert h
  | intersection | subtract => exact .inl (filtered h)
  | symmetricDifference =>
    rcases RuleSet.mem_values_foldl_insert h with h | h
    · exact .inl (filtered h)
    · exact .inr (List.mem_filter.1 h).1

end Combination

section

variable [Host] {s a b c : ValueSet} {v w : Value}

/-- The elements are well-made, of the type of the set and without marks. -/
def ValueSet.WellMade (s : ValueSet) : Prop :=
  ∀ v ∈ s.values, (v.ty = s.rules.element ∧ v.containsMarked = false) ∧ v.WellMade

theorem ValueSet.wellMade_ofType (e : Ty) : (ofType e).WellMade := by
  intro v hv
  cases RuleSet.mem_values.1 hv

omit [Host] in
theorem Value.unmarked_conformTo {e : Ty} (h : v.containsMarked = false) :
    (conformTo e v).containsMarked = false := by
  unfold conformTo
  split
  · exact h
  · have own : v.marks = .empty := by rw [← (unmarkDeep_of_unmarked h).1, marks_unmarkDeep]
    rw [own, withMarks_empty]
    split
    · exact unmarked_null e
    · exact unmarked_unknown e

theorem ValueSet.WellMade.add {new : Bool} (hs : s.WellMade) (hv : v.WellMade)
    (h : s.add v = .ok (new, c)) : c.WellMade := by
  rw [ValueSet.add] at h
  split at h
  · cases h
  rename_i unmarked
  split at h
  · cases h
  rename_i typed
  rw [Bool.not_eq_true] at unmarked
  rw [not_not] at typed
  cases h
  intro x hx
  rw [RuleSet.rules_insert]
  rcases RuleSet.mem_values_insert hx with hx | rfl
  · exact hs x hx
  · exact ⟨⟨typed, Value.unmarked_conformTo unmarked⟩, hv.conformTo _⟩

theorem ValueSet.WellMade.remove {removed : Value} (hs : s.WellMade)
    (h : s.remove? v = some (removed, c)) : c.WellMade := by
  intro x hx
  have kept := hs x (RuleSet.mem_values_remove h hx)
  obtain ⟨-, before, after, -, rfl⟩ := RuleSet.remove?_eq_some h
  exact kept

theorem ValueSet.WellMade.combine {f : Combination} (ha : a.WellMade) (hb : b.WellMade)
    (h : ValueSet.combine f.apply a b = .ok c) : c.WellMade := by
  unfold ValueSet.combine RuleSet.combine at h
  split at h
  · rename_i combined
    cases h
    split at combined
    · rename_i same
      cases combined
      have same : a.rules.element = b.rules.element := beq_iff_eq.1 same
      intro x hx
      rw [f.rules_apply]
      rcases f.mem_values_apply hx with hx | hx
      · exact ha x hx
      · rw [same]
        exact hb x hx
    · cases combined
  · cases h

theorem ValueSet.WellMade.toValue (hs : s.WellMade) : s.toValue.WellMade :=
  .intro (fun x hx => (hs x hx).1) fun x hx => (hs x hx).2

theorem Value.WellMade.asSet (hv : v.WellMade) (h : v.asSet = .ok s) : s.WellMade := by
  have read := reading_eq_ok h
  have here := hv.here
  have inside := fun w => hv.inside (w := w)
  obtain ⟨m, c⟩ := v
  cases c with
  | set e items =>
    cases read
    intro x hx
    have hx := RuleSet.mem_of_mem_ofList hx
    rw [RuleSet.rules_ofList]
    exact ⟨here x hx, inside x hx⟩
  | _ => cases read

end

/-! ## What values of a type hold -/

/-- The contents of the values of a type. Nothing is known about an unknown of unknown type, and
what is known about another unknown says something, fits the type, is possible and leaves more than
one value. -/
inductive Ty.Holds : Ty → Content → Prop
  | null (t : Ty) : Holds t (.null t)
  | unknown (t : Ty) : Holds t (.unknown t .unconstrained)
  | refined {t : Ty} {r : Refinement} (closed : t ≠ .dynamic) (told : r ≠ .unconstrained)
      (apt : r.Apt t) (more : Refining.onlyResult? t r = .ok none) : Holds t (.unknown t r)
  | number (n : Number) : Holds .number (.number n)
  | string (s : String) : Holds .string (.string s)
  | bool (b : Bool) : Holds .bool (.bool b)
  | list {e : Ty} {items : List Value} (h : ∀ v ∈ items, v.ty = e) :
      Holds (.list e) (.list e items)
  | set {e : Ty} {items : List Value} (h : ∀ v ∈ items, v.ty = e ∧ v.Unmarked) :
      Holds (.set e) (.set e items)
  | map {e : Ty} {entries : List (String × Value)} (normal : Names.Normal (names entries))
      (h : ∀ v ∈ values entries, v.ty = e) : Holds (.map e) (.map e entries)
  | object {types : List (String × Ty)} {attributes : List (String × Value)}
      (normal : Names.Normal (names attributes))
      (h : Paired (fun _ t v => v.ty = t) types attributes) :
      Holds (.object types []) (.object attributes)
  | tuple {types : List Ty} {items : List Value}
      (h : List.Forall₂ (fun t v => v.ty = t) types items) :
      Holds (.tuple types) (.tuple items)
  | union {variants : List (String × Ty)} {variant : String} {wanted : Ty} {inner : Value}
      (found : variants.lookup variant = some wanted) (fits : inner.Fits wanted) :
      Holds (.union variants) (.union variants variant inner)
  | capsule {c : CapsuleType} {p : Payload} (h : p.native.kind = c.native) :
      Holds (.capsule c) (.capsule c p)

namespace Value

variable {v : Value}

theorem WellMade.holds_here (hv : v.WellMade) : v.ty.Holds v.content := by
  have here := hv.here
  have inside := fun w => hv.inside (w := w)
  obtain ⟨m, c⟩ := v
  cases c with
  | null t =>
    simp only [ty]
    exact .null t
  | unknown t r =>
    simp only [ty]
    by_cases told : r = .unconstrained
    · exact told ▸ .unknown t
    · obtain ⟨closed, apt, more⟩ := here.resolve_left told
      exact .refined closed told apt more
  | number n =>
    simp only [ty]
    exact .number n
  | string s =>
    simp only [ty]
    exact .string s
  | bool b =>
    simp only [ty]
    exact .bool b
  | list e items =>
    simp only [ty]
    exact .list here
  | set e items =>
    simp only [ty]
    exact .set fun v hv => ⟨(here v hv).1, WellMade.unmarked (inside v hv) (here v hv).2⟩
  | map e entries =>
    simp only [ty]
    exact .map here.1 here.2
  | object attributes =>
    simp only [ty, entryTypes_eq_mapValues]
    refine .object here ?_
    rw [Paired, mapValues, List.forall₂_map_left_iff]
    exact List.forall₂_same.2 fun x _ => ⟨rfl, rfl⟩
  | tuple items =>
    simp only [ty, types_eq_map]
    refine .tuple ?_
    rw [List.forall₂_map_left_iff]
    exact List.forall₂_same.2 fun _ _ => rfl
  | union variants variant inner =>
    obtain ⟨wanted, found, fits⟩ := here
    simp only [ty]
    exact .union found fits
  | capsule c p =>
    simp only [ty]
    exact .capsule here

/-- At every depth well-made values hold what values of their type hold. -/
theorem WellMade.holds (hv : v.WellMade) : v.Everywhere fun w => w.ty.Holds w.content := by
  induction hv with
  | intro here inside ih => exact .intro (WellMade.holds_here (.intro here inside)) ih

/-! ## Operations that go by the type -/

end Value

/-- The fault of an operation that goes by the type of a value and finds something else. -/
def Fault.IsMismatch : Fault → Prop
  | .attributeOfNull _ | .indexOfNull _ | .indexOfNullMap | .elementOfNullSet => True
  | _ => False

namespace Value

variable {v : Value}

/-- Where a value has an attribute by its type, there is one unless the value is null. -/
theorem isNull_of_attr_error {name : String} {fault : Fault} (h : v.attr name = .error fault)
    (declared : name ∈ v.ty.partNames) : v.isNull = true := by
  have h := map_eq_error h
  obtain ⟨m, c⟩ := v
  cases c with
  | null => rfl
  | unknown t r =>
    simp only [ty] at declared
    cases t with
    | object | union =>
      obtain ⟨part, found⟩ := exists_lookup.2 declared
      simp [attributeBare, unmark, bare, content, ty, found] at h
    | _ => cases declared
  | object attributes =>
    simp only [ty, Ty.partNames, names_entryTypes] at declared
    obtain ⟨part, found⟩ := exists_lookup.2 declared
    simp [attributeBare, unmark, bare, content, ty, lookup_entryTypes, found] at h
  | union variants variant inner =>
    simp only [ty] at declared
    obtain ⟨part, found⟩ := exists_lookup.2 declared
    simp [attributeBare, unmark, bare, content, ty, found] at h
  | _ =>
    simp only [ty] at declared
    cases declared

/-- A value of a map type that is neither unknown nor a map is null. -/
theorem isNull_of_not_map {e : Ty} (typed : v.ty = .map e)
    (unknown : ∀ t r, v.content = .unknown t r → False)
    (map : ∀ t entries, v.content = .map t entries → False) : v.isNull = true := by
  obtain ⟨m, c⟩ := v
  cases c with
  | null => rfl
  | unknown => exact (unknown _ _ rfl).elim
  | map => exact (map _ _ rfl).elim
  | _ =>
    simp only [ty] at typed
    cases typed

theorem isNull_of_itemAt_error {t : Ty} {n : Number} {fault : Fault}
    (known : v.isKnown = true) (seq : v.ty.isList = true ∨ v.ty.isTuple = true)
    (h : itemAt t v.content n = .error fault) (hf : fault.IsMismatch) : v.isNull = true := by
  obtain ⟨m, c⟩ := v
  cases c with
  | null => rfl
  | unknown => cases known
  | list | tuple =>
    simp only [itemAt, content] at h
    split at h <;> cases h
    cases hf
  | _ =>
    simp only [ty] at seq
    rcases seq with seq | seq <;> cases seq

/-- A list, tuple or map has elements to index unless it is null. -/
theorem isNull_of_index_error {key : Value} {fault : Fault} (h : v.index key = .error fault)
    (hf : fault.IsMismatch) : v.isNull = true := by
  have h := map_eq_error h
  rw [← isNull_unmark]
  generalize v.unmark = w at h ⊢
  unfold indexBare at h
  split at h
  · cases h
  split at h
  · cases h
    cases hf
  split at h
  · rename_i typed
    split at h
    · split at h
      · rename_i known
        exact isNull_of_itemAt_error known (.inl (typed ▸ rfl)) h hf
      · cases h
    · split at h <;> cases h
      cases hf
  · rename_i typed
    split at h
    · split at h
      · cases h
        cases hf
      split at h
      · cases h
        cases hf
      split at h
      · rename_i known
        exact isNull_of_itemAt_error known (.inr (typed ▸ rfl)) h hf
      · cases h
    · split at h <;> cases h
      cases hf
  · rename_i typed
    split at h
    · split at h
      · cases h
      · split at h <;> cases h
        cases hf
      · rename_i unknown map
        exact isNull_of_not_map typed unknown map
    · split at h <;> cases h
      cases hf
  · cases h
    cases hf

/-- A set has elements to look at unless it is null. -/
theorem isNull_of_hasElement_error [Host] {e : Value} {fault : Fault}
    (h : v.hasElement e = .error fault) (hf : fault.IsMismatch) : v.isNull = true := by
  have mismatch {w e : Value} (h : w.hasElementBare e = .error fault) : w.isNull = true := by
    unfold hasElementBare at h
    split at h
    · rename_i typed
      split at h
      · cases h
      split at h
      · cases h
      rename_i known
      split at h
      · cases h
      · rename_i set
        obtain ⟨m, c⟩ := w
        cases c with
        | null => rfl
        | set => exact absurd rfl (set _ _)
        | unknown => simp [isKnown] at known
        | _ =>
          simp only [ty] at typed
          cases typed
    · cases h
      cases hf
  rw [hasElement] at h
  split at h
  · have null := mismatch (map_eq_error h)
    rwa [isNull_unmark] at null
  · exact mismatch h

end Value

/-! ## What the interface hands out -/

/-- A value, or a set of values. -/
inductive Item where
  | value (v : Value)
  | values (s : ValueSet)

section

variable [Host]

/-- What can be obtained through the interface. Types and names are free, and so are the places of
values in a run. What equality answers about capsules is obtained too: their types make it through
the same interface. -/
inductive Item.Obtained : Item → Prop
  | null (t : Ty) : Obtained (.value (.null t))
  | unknown (t : Ty) : Obtained (.value (.unknown t))
  | number (n : Number) : Obtained (.value (.number n))
  | string (s : String) : Obtained (.value (.string s))
  | bool (b : Bool) : Obtained (.value (.bool b))
  | emptyList (e : Ty) : Obtained (.value (.emptyList e))
  | emptySet (e : Ty) : Obtained (.value (.emptySet e))
  | emptyMap (e : Ty) : Obtained (.value (.emptyMap e))
  | list {vs : List Value} {w : Value} (hv : ∀ v ∈ vs, Obtained (.value v))
      (h : Value.list vs = .ok w) : Obtained (.value w)
  | set {vs : List Value} {w : Value} (hv : ∀ v ∈ vs, Obtained (.value v))
      (h : Value.set vs = .ok w) : Obtained (.value w)
  | map {entries : List (String × Value)} {w : Value}
      (hv : ∀ v ∈ Entries.values entries, Obtained (.value v)) (h : Value.map entries = .ok w) :
      Obtained (.value w)
  | object {attributes : List (String × Value)}
      (hv : ∀ v ∈ Entries.values attributes, Obtained (.value v)) :
      Obtained (.value (.object attributes))
  | tuple {vs : List Value} (hv : ∀ v ∈ vs, Obtained (.value v)) : Obtained (.value (.tuple vs))
  | union {t : Ty} {variant : String} {v w : Value} (hv : Obtained (.value v))
      (h : Value.union t variant v = .ok w) : Obtained (.value w)
  | capsule {t : Ty} {p : Payload} {w : Value} (h : Value.capsule t p = .ok w) :
      Obtained (.value w)
  | withMarks {v : Value} (hv : Obtained (.value v)) (marks : MarkSet) :
      Obtained (.value (v.withMarks marks))
  | unmark {v : Value} (hv : Obtained (.value v)) : Obtained (.value v.unmark)
  | unmarkDeep {v : Value} (hv : Obtained (.value v)) : Obtained (.value v.unmarkDeep)
  | markAlong {v : Value} (hv : Obtained (.value v)) (marked : List MarkedPath) :
      Obtained (.value (v.markAlong marked))
  | restrict {v w : Value} (hv : Obtained (.value v)) {restrictions : List Restriction}
      (h : v.restrict restrictions = .ok w) : Obtained (.value w)
  | key {v : Value} (hv : Obtained (.value v)) {elements : List (Value × Value)}
      (h : v.elements = .ok elements) {x : Value × Value} (hx : x ∈ elements) :
      Obtained (.value x.1)
  | element {v : Value} (hv : Obtained (.value v)) {elements : List (Value × Value)}
      (h : v.elements = .ok elements) {x : Value × Value} (hx : x ∈ elements) :
      Obtained (.value x.2)
  | entry {v : Value} (hv : Obtained (.value v)) {entries : List (String × Value)}
      (h : v.entries = .ok entries) {x : Value} (hx : x ∈ Entries.values entries) :
      Obtained (.value x)
  | variant {v w : Value} (hv : Obtained (.value v)) {name : String}
      (h : v.variant = .ok (name, w)) : Obtained (.value w)
  | answer {op : Operation} (operands : ∀ v ∈ op.operands, Obtained (.value v))
      (asked : ∀ a b, op = .binary .equals a b → ∀ (c : CapsuleType) p q,
        Obtained (.value (c.equals p q)))
      {w : Value} (h : op.answer = .ok w) : Obtained (.value w)
  | includes {v w : Value} (hv : Obtained (.value v)) (hw : Obtained (.value w))
      (asked : ∀ (c : CapsuleType) p q, Obtained (.value (c.equals p q))) :
      Obtained (.value (v.range.includes w))
  | follow {v w : Value} (hv : Obtained (.value v)) {path : Path} (h : path.apply v = .ok w) :
      Obtained (.value w)
  | ofType (e : Ty) : Obtained (.values (.ofType e))
  | asSet {v : Value} (hv : Obtained (.value v)) {s : ValueSet} (h : v.asSet = .ok s) :
      Obtained (.values s)
  | add {s s' : ValueSet} (hs : Obtained (.values s)) {v : Value} (hv : Obtained (.value v))
      {new : Bool} (h : s.add v = .ok (new, s')) : Obtained (.values s')
  | remove {s s' : ValueSet} (hs : Obtained (.values s)) {v removed : Value}
      (h : s.remove? v = some (removed, s')) : Obtained (.values s')
  | combine {a b c : ValueSet} (ha : Obtained (.values a)) (hb : Obtained (.values b))
      {f : Combination} (h : ValueSet.combine f.apply a b = .ok c) : Obtained (.values c)
  | member {s : ValueSet} (hs : Obtained (.values s)) {v : Value} (hv : v ∈ s.values) :
      Obtained (.value v)
  | toValue {s : ValueSet} (hs : Obtained (.values s)) : Obtained (.value s.toValue)
  | convert {v w : Value} (hv : Obtained (.value v)) (free : v.CapsuleFree) {t : Ty}
      (ht : t.CapsuleFree) {site : List Nat} (h : v.convert t site = .ok w) : Obtained (.value w)
  | run {mode : Mode} {s t : Ty} (hs : s.CapsuleFree) (ht : t.CapsuleFree) {c : Conversion}
      (hc : Conversion.plan? mode s t = some c) {v w : Value} (hv : Obtained (.value v))
      (free : v.CapsuleFree) {path : Path} {site : List Nat} (h : c.run v path site = .ok w) :
      Obtained (.value w)
  | unify {mode : Mode} {types : List Ty} (ht : ∀ t ∈ types, t.CapsuleFree) {u : Unification}
      (hu : Unification.plan? mode types = some u) {c : Conversion} (hc : some c ∈ u.conversions)
      {v w : Value} (hv : Obtained (.value v)) (free : v.CapsuleFree) {path : Path}
      {site : List Nat} (h : c.run v path site = .ok w) : Obtained (.value w)

/-- A value that can be obtained through the interface. -/
def Value.Obtained (v : Value) : Prop :=
  (Item.value v).Obtained

def Item.WellMade : Item → Prop
  | .value v => v.WellMade
  | .values s => ValueSet.WellMade s

/-- The interface hands out well-made values alone. -/
theorem Item.Obtained.wellMade {item : Item} (h : item.Obtained) : item.WellMade := by
  induction h with
  | null t => exact Value.wellMade_null t
  | unknown t => exact Value.wellMade_unknown t
  | number n => exact Value.wellMade_number n
  | string s => exact Value.wellMade_string s
  | bool b => exact Value.wellMade_bool b
  | emptyList e => exact Value.wellMade_emptyList e
  | emptySet e => exact Value.wellMade_emptySet e
  | emptyMap e => exact Value.wellMade_emptyMap e
  | list _ h ih => exact Value.wellMade_list ih h
  | set _ h ih => exact Value.wellMade_set ih h
  | map _ h ih => exact Value.wellMade_map ih h
  | object _ ih => exact Value.wellMade_object ih
  | tuple _ ih => exact Value.wellMade_tuple ih
  | union _ h ih => exact Value.wellMade_union ih h
  | capsule h => exact Value.wellMade_capsule h
  | withMarks _ marks ih => exact Value.WellMade.withMarks ih marks
  | unmark _ ih => exact Value.WellMade.unmark ih
  | unmarkDeep _ ih => exact Value.WellMade.unmarkDeep ih
  | markAlong _ marked ih => exact Value.WellMade.markAlong ih marked
  | restrict _ h ih => exact Value.WellMade.restrict ih h
  | key _ h hx ih => exact (Value.WellMade.elements ih h _ hx).1
  | element _ h hx ih => exact (Value.WellMade.elements ih h _ hx).2
  | entry _ h hx ih => exact Value.WellMade.entries ih h _ hx
  | variant _ h ih => exact Value.Everywhere.inside ih (Value.variant_eq_ok h)
  | answer _ _ h operands asked => exact Operation.wellMade_answer operands asked h
  | includes _ _ _ _ _ asked => exact Range.wellMade_includes _ asked
  | follow _ h ih => exact Path.wellMade_apply ih h
  | ofType e => exact ValueSet.wellMade_ofType e
  | asSet _ h ih => exact Value.WellMade.asSet ih h
  | add _ _ h hs hv => exact ValueSet.WellMade.add hs hv h
  | remove _ h ih => exact ValueSet.WellMade.remove ih h
  | combine _ _ h ha hb => exact ValueSet.WellMade.combine ha hb h
  | member _ hv ih => exact (ih _ hv).2
  | toValue _ ih => exact ValueSet.WellMade.toValue ih
  | convert _ free ht h ih => exact (Value.convert_sterile ht ⟨ih, free⟩ h).wellMade
  | run hs ht hc _ free h ih =>
    exact (Conversion.run_sterile (Conversion.sterile_of_plan? hc hs ht) ⟨ih, free⟩ h).wellMade
  | unify ht hu hc _ free h ih =>
    exact (Conversion.run_sterile (Unification.sterile ht hu hc) ⟨ih, free⟩ h).wellMade

/-- Every value that is obtained holds, at every depth, what values of its type hold. So the
operations that go by its type find an attribute, an element or a set of elements in it, unless the
value is null. -/
theorem Value.Obtained.represented {v : Value} (h : v.Obtained) :
    (v.Everywhere fun w => w.ty.Holds w.content) ∧
      (∀ name fault, name ∈ v.ty.partNames → v.attr name = .error fault → v.isNull = true) ∧
      (∀ key fault, v.index key = .error fault → fault.IsMismatch → v.isNull = true) ∧
      ∀ e fault, v.hasElement e = .error fault → fault.IsMismatch → v.isNull = true :=
  ⟨WellMade.holds (Item.Obtained.wellMade h),
    fun _ _ declared failed => isNull_of_attr_error failed declared,
    fun _ _ failed => isNull_of_index_error failed,
    fun _ _ failed => isNull_of_hasElement_error failed⟩

end

/-- A set one of whose elements was marked when it was added. -/
def Value.flags [Host] : Value :=
  setOf .bool [(bool true).withMarks (.ofList ["secret"]), bool false]

theorem Value.Obtained.represented_flags :
    letI := Host.plain
    Value.flags.Obtained ∧ (Value.flags.Everywhere fun w => w.ty.Holds w.content) ∧
      ∀ e fault, Value.flags.hasElement e = .error fault → ¬ fault.IsMismatch := by
  let := Host.plain
  have typed : ∀ v ∈ [(bool true).withMarks (.ofList ["secret"]), bool false], v.ty = .bool := by
    simp [bool, bare, ty]
  have obtained : Value.flags.Obtained := by
    refine .set (fun v hv => ?_) (set_of_common (by simp) (commonType?_of_all (by simp) typed))
    rcases List.mem_cons.1 hv with rfl | hv
    · exact .withMarks (.bool true) _
    · cases List.mem_singleton.1 hv
      exact .bool false
  obtain ⟨holds, -, -, element⟩ := Value.Obtained.represented obtained
  refine ⟨obtained, holds, fun e fault failed mismatch => ?_⟩
  cases element e fault failed mismatch

end ValueAlgebra
