import ValueAlgebra.Proofs.MarkFlow
import ValueAlgebra.Proofs.MarkRoundTrip
import ValueAlgebra.Proofs.Results

/-!
# Marks that conversions lose

The marks of a value are its own and those of its parts. Some conversions leave parts out and lose
the marks of these parts: attributes and keys that an object has no place for, the attributes of an
object that select no variant, and all that is inside of a value that is forgotten. The others lose
no more than the conversions of the parts do.

Main statements:

* `Value.mem_deepMarks`: the marks of a value are its own and those of its parts.
* `Value.mem_deepMarks_object`, `Value.mem_deepMarks_set`: values have the marks of what they are
  made of.
* `Conversion.Loses`: the ways in which a conversion loses a mark.
-/

namespace ValueAlgebra

open Entries Text

/-! ## Marks at any depth -/

/-- The parts of a content that may have marks. The elements of a set have none. -/
def Content.carriers : Content → List Value
  | .set _ _ => []
  | content => content.parts

namespace Value

variable {name : String} {v : Value} {vs : List Value}

theorem mem_deepMarksAll : name ∈ deepMarksAll vs ↔ ∃ v ∈ vs, name ∈ v.deepMarks := by
  induction vs with
  | nil => simp [deepMarksAll]
  | cons v vs ih => rw [deepMarksAll, MarkSet.mem_union, ih, List.exists_mem_cons_iff]

theorem mem_deepMarksEntries {entries : List (String × Value)} :
    name ∈ deepMarksEntries entries ↔ ∃ v ∈ values entries, name ∈ v.deepMarks := by
  induction entries with
  | nil => simp [deepMarksEntries]
  | cons entry entries ih =>
    obtain ⟨key, v⟩ := entry
    rw [deepMarksEntries, MarkSet.mem_union, ih, values_cons, List.exists_mem_cons_iff]

/-- The marks of a value are its own and those of its parts. -/
theorem mem_deepMarks : name ∈ v.deepMarks ↔
    name ∈ v.marks ∨ ∃ w ∈ v.content.carriers, name ∈ w.deepMarks := by
  obtain ⟨m, c⟩ := v
  cases c <;> simp [deepMarks, marks, content, Content.carriers, Content.parts, mem_deepMarksAll,
    mem_deepMarksEntries]

theorem mem_deepMarks_of_part {w : Value} (hw : w ∈ v.content.carriers) (h : name ∈ w.deepMarks) :
    name ∈ v.deepMarks :=
  mem_deepMarks.2 (.inr ⟨w, hw, h⟩)

theorem mem_deepMarks_withMarks {m : MarkSet} :
    name ∈ (v.withMarks m).deepMarks ↔ name ∈ m ∨ name ∈ v.deepMarks := by
  rw [mem_deepMarks, mem_deepMarks]
  simp only [withMarks, marks, content, MarkSet.mem_union]
  tauto

/-- An element keeps its marks when it gets the type of the others. -/
theorem mem_deepMarks_conformTo {e : Ty} (h : name ∈ v.deepMarks) :
    name ∈ (conformTo e v).deepMarks := by
  unfold conformTo
  split
  · exact h
  · rename_i open_
    have dynamic : v.ty = .dynamic := by
      by_contra other
      exact open_ (.inl other)
    refine mem_deepMarks_withMarks.2 (.inl ?_)
    refine (mem_deepMarks.1 h).resolve_right ?_
    rintro ⟨w, hw, -⟩
    obtain ⟨m, c⟩ := v
    cases c with
    | null | unknown => cases hw
    | _ => simp [ty] at dynamic

/-- An attribute of a new object keeps its marks where no other has its name. -/
theorem mem_deepMarks_object {entries : List (String × Value)} {key : String}
    (canonical : ∀ name ∈ names entries, normalize name = name) (nodup : (names entries).Nodup)
    (hv : (key, v) ∈ entries) (hn : name ∈ v.deepMarks) : name ∈ (object entries).deepMarks := by
  refine mem_deepMarks_of_part ?_ hn
  rw [object, namedParts_of_canonical canonical]
  exact mem_values (mem_of_lookup ((lookup_ofList_of_nodup nodup).trans (lookup_of_mem nodup hv)))

variable [Host]

/-- A new list, set or map has the marks of its elements. -/
theorem mem_deepMarks_list {w : Value} (h : Value.list vs = .ok w) (hv : v ∈ vs)
    (hn : name ∈ v.deepMarks) : name ∈ w.deepMarks := by
  obtain ⟨e, -, -, rfl⟩ := list_eq_ok h
  exact mem_deepMarks_of_part (List.mem_map_of_mem hv) (mem_deepMarks_conformTo hn)

theorem mem_deepMarks_set {w : Value} (h : Value.set vs = .ok w) (hv : v ∈ vs)
    (hn : name ∈ v.deepMarks) : name ∈ w.deepMarks := by
  obtain ⟨e, -, -, rfl⟩ := set_eq_ok h
  refine mem_deepMarks_withMarks.2 (.inl (MarkSet.mem_unions.2 ⟨_, List.mem_map_of_mem
    (List.mem_map_of_mem hv), mem_deepMarks_conformTo hn⟩))

theorem mem_deepMarks_map {entries : List (String × Value)} {w : Value}
    (hp : Names.Proper (names entries)) (h : Value.map entries = .ok w) (hv : v ∈ values entries)
    (hn : name ∈ v.deepMarks) : name ∈ w.deepMarks := by
  obtain ⟨e, -, -, rfl⟩ := map_eq_ok hp h
  refine mem_deepMarks_of_part ?_ (mem_deepMarks_conformTo (e := e) hn)
  simp only [bare, content, Content.carriers, Content.parts, values_mapValues]
  exact List.mem_map_of_mem hv

end Value

/-! ## Marks of parts -/

namespace Applicable

variable {S : Scope} {mode : Mode} {mark : String} {s t : Ty} {v : Value}

/-- The marks of a value that rules are applied to are those of its parts. -/
theorem marked (hv : Applicable S s t v) (hn : mark ∈ v.deepMarks) :
    ∃ x ∈ v.content.carriers, mark ∈ x.deepMarks := by
  refine (Value.mem_deepMarks.1 hn).resolve_left fun own => ?_
  rw [hv.decided.unmarked] at own
  cases own

/-- Primitive values have no parts. -/
theorem primitive_unmarked {rule : PrimitiveRule}
    (h : PrimitiveRule.between? mode s t = some rule) (hv : Applicable S s t v) :
    mark ∉ v.deepMarks := by
  intro hn
  obtain ⟨x, hx, -⟩ := hv.marked hn
  unfold PrimitiveRule.between? at h
  split at h
  · obtain ⟨n, rfl⟩ := hv.decided.number hv.fills
    cases hx
  · obtain ⟨b, rfl⟩ := hv.decided.bool hv.fills
    cases hx
  · obtain ⟨text, rfl⟩ := hv.decided.string hv.fills
    cases hx
  · obtain ⟨text, rfl⟩ := hv.decided.string hv.fills
    cases hx
  · cases h

end Applicable

/-! ## What is lost -/

/-- The parts of a content that have names. -/
def Content.named : Content → List (String × Value)
  | .object entries | .map _ entries => entries
  | .union _ name v => [(name, v)]
  | _ => []

/-- The conversions of the parts that a rule finds by their names. -/
def Rule.byName? {γ : Type} : Rule γ → Option (List (String × γ))
  | .object attributes _ | .entries _ attributes | .pick attributes _ _ | .union attributes
  | .select attributes => some attributes
  | _ => none

/-- A rule has a conversion for a part of a content. -/
inductive Rule.Takes (content : Content) : Rule Conversion → Value → Conversion → Prop where
  | named {rule : Rule Conversion} {plans : List (String × Conversion)} {key : String} {x : Value}
      {c : Conversion} (hr : rule.byName? = some plans) (hx : (key, x) ∈ content.named)
      (hc : plans.lookup key = some c) : Takes content rule x c
  | item {rule : Rule Conversion} {items : List Value} {x : Value} {c : Conversion}
      (hi : content = .tuple items) (hx : (x, c) ∈ items.zip rule.conversions) :
      Takes content rule x c
  | element {kind : CollectionKind} {mode : Mode} {wanted : Ty} {x : Value} {c : Conversion}
      (hx : x ∈ content.parts) : Takes content (.collection kind mode c wanted) x c

variable [Host]

/-- A value is what a run made of a part. -/
def Rule.Makes (rule : Rule Conversion) (content : Content) (y : Value) : Prop :=
  ∃ x c path site, rule.Takes content x c ∧ c.run x path site = .ok y

/-- The ways in which a run of a conversion loses a mark of a part. -/
inductive Conversion.Loses (mark : String) : Conversion → Value → Prop where
  /-- All parts are forgotten. -/
  | forgotten {v x : Value} (hx : x ∈ v.content.carriers) (h : mark ∈ x.deepMarks) :
      Loses mark .forget v
  /-- There is no place for an attribute or key. -/
  | unnamed {t : Ty} {rule : Rule Conversion} {plans : List (String × Conversion)} {v x : Value}
      {key : String} (hr : rule.byName? = some plans) (hx : (key, x) ∈ v.content.named)
      (hc : plans.lookup key = none) (h : mark ∈ x.deepMarks) : Loses mark (.toward t rule) v
  /-- The attribute is not the one that selects a variant: it is null, or there is no decision. -/
  | unselected {t : Ty} {plans : List (String × Conversion)} {v x : Value}
      {attributes : List (String × Value)} (hc : v.content = .object attributes)
      (hx : x ∈ values attributes) (h : mark ∈ x.deepMarks)
      (left : x.isNull = true ∨ ∃ y ∈ values attributes, y.isKnown = false) :
      Loses mark (.toward t (.select plans)) v
  /-- The conversion of a part loses it. -/
  | part {t : Ty} {rule : Rule Conversion} {v x : Value} {c : Conversion}
      (takes : rule.Takes v.content x c) (h : Loses mark c x) : Loses mark (.toward t rule) v
  /-- The types of new elements differ, and one of them loses it when they are unified. -/
  | again {t : Ty} {rule : Rule Conversion} {v y : Value} {c : Conversion} {made : List Value}
      {u : Unification} {mode : Mode} (hm : ∀ z ∈ made, rule.Makes v.content z)
      (differ : Value.commonType? made = none)
      (hu : Unification.plan? mode (Value.types made) = some u)
      (hy : (y, some c) ∈ made.zip u.conversions) (h : Loses mark c y) :
      Loses mark (.toward t rule) v
  /-- The conversion that is planned for the type of the value loses it. -/
  | later {t : Ty} {rule : Rule Conversion} {v : Value}
      (hr : Rule.between? .lenient v.ty t = some rule) (h : Loses mark (.toward t rule) v) :
      Loses mark (.toward t .decideLater) v

theorem Conversion.Loses.of_unmark {mark : String} {c : Conversion} {v : Value}
    (h : c.Loses mark v.unmark) : c.Loses mark v := by
  generalize hw : v.unmark = w at h
  induction h with
  | forgotten hx h =>
    subst hw
    exact .forgotten hx h
  | unnamed hr hx hc h =>
    subst hw
    exact .unnamed hr hx hc h
  | unselected hc hx h left =>
    subst hw
    exact .unselected hc hx h left
  | part takes h =>
    subst hw
    exact .part takes h
  | again hm differ hu hy h =>
    subst hw
    exact .again hm differ hu hy h
  | later hr _ ih =>
    subst hw
    rw [Value.ty_unmark] at hr
    exact .later hr (ih rfl)

end ValueAlgebra
