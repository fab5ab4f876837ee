import ValueAlgebra.Path.Apply
import ValueAlgebra.Proofs.Indexing
import ValueAlgebra.Proofs.Representation

/-!
# Following the paths of marks

`Value.markedPaths` records where the marks of a value are, and `Path.apply` follows a path through
a value. The one makes steps on its way into the value. The other takes them by looking attributes
and elements up, and what is looked up gets the marks of the value that it is looked up in. So at
the end of a recorded path there is the part that the marks were found at, with the marks of all
values that were passed on the way.

Both are compared with the part of a content that a step leads to (`Content.part?`), and with what
steps pass and lead to one after the other (`Value.along?`).

Main statements:

* `Step.apply_of_part?`: what one step finds.
* `Value.applyFrom_of_along?`: what steps find one after the other.
* `Value.along?_of_mem_markedPaths`: the recorded paths lead to the marks.
* `Value.markedPaths_resolve`: both together.
-/

namespace ValueAlgebra

open Entries Text

/-! ## One step -/

/-- The part of a content that a step leads to. -/
def Content.part? : Content → Step → Option Value
  | .object attributes, .attr name => attributes.lookup name
  | .union _ variant inner, .attr name => if variant = name then some inner else none
  | c, .index key => c.at? key.content
  | _, _ => none

/-- What a union holds is one of its variants. -/
def Content.Chosen (c : Content) : Prop :=
  ∀ variants variant inner, c = .union variants variant inner →
    ∃ t, variants.lookup variant = some t

namespace Content

variable {c : Content} {step : Step} {x : Value}

theorem WellMade.chosen (h : c.WellMade) : c.Chosen := by
  rintro variants variant inner rfl
  obtain ⟨t, typed, -⟩ := h
  exact ⟨t, typed⟩

theorem mem_parts_of_part? (h : c.part? step = some x) : x ∈ c.parts := by
  cases step with
  | attr name =>
    cases c with
    | object attributes => exact mem_values (mem_of_lookup h)
    | union variants variant inner =>
      cases (Option.ite_none_right_eq_some.1 h).2
      exact List.mem_cons_self
    | _ => cases h
  | index key =>
    refine Value.mem_parts_of_at? (k := key.content) ?_
    cases c <;> exact h

end Content

namespace Step

variable {v x key : Value} {name : String} {step : Step}

/-- The marks of a step, which are those of its key. -/
def marks : Step → MarkSet
  | .attr _ => .empty
  | .index key => key.marks

/-- A key that a value has an element at leads to it. -/
theorem applyKey_of_at? (h : v.content.at? key.content = some x) :
    applyKey v key = .ok (.part ((x.withMarks v.marks).withMarks key.marks)) := by
  have h : v.unmark.content.at? key.unmark.content = some x := h
  obtain ⟨has, found⟩ := Value.answers_of_at? h
  rw [applyKey, Value.hasIndex, has, Value.index, found]
  rfl

theorem applyIndex_of_at? (h : v.content.at? key.content = some x) :
    applyIndex v key = .ok (.part ((x.withMarks v.marks).withMarks key.marks)) := by
  rw [← applyKey_of_at? h]
  obtain ⟨m, c⟩ := v
  obtain ⟨k, d⟩ := key
  cases c with
  | list | tuple =>
    cases d with
    | number => rfl
    | _ => cases h
  | map =>
    cases d with
    | string => rfl
    | _ => cases h
  | _ => cases h

/-- A name of a type leads to what the attribute of this name is. -/
theorem applyAttr_of_attributeBare (present : v.isNull = false) (declared : name ∈ v.ty.partNames)
    (h : v.unmark.attributeBare name = .ok x) :
    applyAttr v name = .ok (.part (x.withMarks v.marks)) := by
  have contains := List.contains_iff_mem.2 declared
  have found : v.attr name = .ok (x.withMarks v.marks) := by
    rw [Value.attr, h]
    rfl
  cases typed : v.ty with
  | object | union =>
    rw [typed, Ty.partNames] at contains
    simp only [applyAttr, present, typed, contains, found, Bool.false_eq_true, if_false, if_true]
    rfl
  | _ =>
    rw [typed] at contains
    cases contains

/-- A step finds the part that it leads to. The part gets the marks of the value it is found in, and
those of the step. -/
theorem apply_of_part? (chosen : v.content.Chosen) (h : v.content.part? step = some x) :
    step.apply v = .ok (.part ((x.withMarks v.marks).withMarks step.marks)) := by
  cases step with
  | index key =>
    refine applyIndex_of_at? ?_
    obtain ⟨m, c⟩ := v
    cases c <;> exact h
  | attr name =>
    obtain ⟨m, c⟩ := v
    cases c with
    | object attributes =>
      have found : attributes.lookup name = some x := h
      have typed : (Value.entryTypes attributes).lookup name = some x.ty := by
        rw [Value.entryTypes_eq_mapValues, lookup_mapValues, found]
        rfl
      refine applyAttr_of_attributeBare rfl (mem_names (mem_of_lookup typed)) ?_
      simp [Value.attributeBare, Value.unmark, Value.bare, Value.content, Value.ty, typed, found]
    | union variants variant inner =>
      obtain ⟨t, typed⟩ := chosen variants variant inner rfl
      obtain ⟨rfl, eq⟩ := Option.ite_none_right_eq_some.1 h
      cases eq
      refine applyAttr_of_attributeBare rfl (mem_names (mem_of_lookup typed)) ?_
      simp [Value.attributeBare, Value.unmark, Value.bare, Value.content, Value.ty, typed]
    | _ => cases h

end Step

/-! ## Steps one after the other -/

theorem Path.applyFrom_cons {done rest : List Step} {step : Step} {v w : Value}
    (h : step.apply v = .ok (.part w)) :
    applyFrom done v (step :: rest) = applyFrom (done ++ [step]) w rest := by
  rw [applyFrom, h]

namespace Value

variable {v u w : Value} {steps : List Step} {passed : List Value} {step : Step}
  {marked : MarkedPath}

/-- What steps lead to, after the values that they pass on the way, the first of which is the one
that they start from. -/
def along? (v : Value) : List Step → Option (List Value × Value)
  | [] => some ([], v)
  | step :: steps => do
    let w ← v.content.part? step
    let (passed, u) ← w.along? steps
    return (v :: passed, u)

theorem along?_cons (first : v.content.part? step = some w)
    (further : w.along? steps = some (passed, u)) :
    v.along? (step :: steps) = some (v :: passed, u) := by
  rw [along?, first, Option.bind_eq_bind, Option.bind_some, further]
  rfl

theorem withMarks_withMarks (v : Value) (a b : MarkSet) :
    (v.withMarks a).withMarks b = v.withMarks (a.union b) :=
  congrArg (mk · v.content) <| MarkSet.eq_of_mem_iff fun name => by
    simp only [MarkSet.mem_union, marks, withMarks, or_assoc]

/-- Steps find what they lead to. It has its own marks, those of the values passed, and those of the
steps. -/
theorem applyFrom_of_along? (made : v.WellMade) (h : v.along? steps = some (passed, u))
    (done : List Step) (m : MarkSet) :
    ∃ w, Path.applyFrom done (v.withMarks m) steps = .ok w ∧ w.content = u.content ∧
      ∀ name, name ∈ w.marks ↔
        (∃ x ∈ passed ++ [u], name ∈ x.marks) ∨ name ∈ m ∨ ∃ step ∈ steps, name ∈ step.marks := by
  induction steps generalizing v passed done m with
  | nil =>
    cases h
    refine ⟨u.withMarks m, rfl, rfl, fun name => ?_⟩
    simp [withMarks, marks]
  | cons step steps ih =>
    simp only [along?, Option.bind_eq_bind, Option.bind_eq_some_iff, Option.pure_def,
      Option.some.injEq] at h
    obtain ⟨x, found, ⟨rest, _⟩, further, eq⟩ := h
    cases eq
    have part : x ∈ v.content.parts := Content.mem_parts_of_part? found
    obtain ⟨w, reached, same, marked⟩ :=
      ih (made.inside part) further (done ++ [step]) ((v.marks.union m).union step.marks)
    refine ⟨w, ?_, same, fun name => ?_⟩
    · have reaches := Step.apply_of_part? (v := v.withMarks m) made.here.chosen found
      rw [withMarks_withMarks] at reaches
      exact (Path.applyFrom_cons reaches).trans reached
    · rw [marked]
      simp only [List.cons_append, List.exists_mem_cons_iff, MarkSet.mem_union, or_assoc,
        or_left_comm]

/-! ## Recorded paths -/

/-- The steps to the parts of a content lead to them if names are kept once and in canonical form,
and numbers are lengths. They have no marks. -/
theorem part?_of_mem_routes {c : Content} (made : c.WellMade)
    (stable : ∀ s, normalize s ∈ c.keys → normalize (normalize s) = normalize s)
    (short : c.parts.length ≤ Refining.lengthLimit) (h : (step, w) ∈ c.routes) :
    c.part? step = some w ∧ step.marks = .empty := by
  cases c with
  | list e items | tuple items =>
    obtain ⟨⟨x, i⟩, hx, eq⟩ := List.mem_map.1 h
    cases eq
    have hi : items[i]? = some x := List.mem_zipIdx_iff_getElem?.1 hx
    have within : i < items.length := (List.getElem?_eq_some_iff.1 hi).1
    have length : items.length ≤ Refining.lengthLimit := short
    have word := toWord?_ofInt (Nat.le_trans (Nat.le_of_lt within) length)
    refine ⟨?_, rfl⟩
    change ((Number.ofInt i).toWord?.bind fun i => items[i]?) = some x
    rw [word]
    exact hi
  | map e entries =>
    obtain ⟨⟨name, x⟩, hx, eq⟩ := List.mem_map.1 h
    cases eq
    obtain ⟨s, rfl⟩ := made.1.canonical name (mem_names hx)
    have same : normalize (normalize s) = normalize s := stable s (mem_names hx)
    refine ⟨?_, rfl⟩
    change entries.lookup (normalize (normalize s)) = some x
    rw [same]
    exact lookup_of_mem (Names.nodup_of_sorted made.1.sorted) hx
  | object attributes =>
    obtain ⟨⟨name, x⟩, hx, eq⟩ := List.mem_map.1 h
    cases eq
    exact ⟨lookup_of_mem (Names.nodup_of_sorted (Names.Normal.sorted made)) hx, rfl⟩
  | union variants variant inner =>
    cases List.mem_singleton.1 h
    exact ⟨if_pos rfl, rfl⟩
  | _ => cases h

/-- A recorded path leads to the part that the marks are of. -/
theorem along?_of_mem_markedPaths (made : v.WellMade) (found : v.Addressable)
    (h : marked ∈ v.markedPaths) :
    ∃ passed u, v.along? marked.path.steps = some (passed, u) ∧ u.marks = marked.marks ∧
      ∀ step ∈ marked.path.steps, step.marks = .empty := by
  induction made generalizing marked with
  | @intro v here _ ih =>
    obtain ⟨m, c⟩ := v
    rw [markedPaths_eq, List.mem_append] at h
    rcases h with own | inside
    · split at own
      · cases own
      · cases List.mem_singleton.1 own
        exact ⟨[], ⟨m, c⟩, rfl, rfl, List.forall_mem_nil _⟩
    · obtain ⟨⟨step, w⟩, route, inside⟩ := List.mem_flatMap.1 inside
      obtain ⟨inner, hi, rfl⟩ := List.mem_map.1 inside
      have part : w ∈ c.parts := Content.mem_parts_of_mem_routes route
      obtain ⟨first, bare⟩ := part?_of_mem_routes here found.here.1 found.here.2 route
      obtain ⟨passed, u, further, own, rest⟩ := ih w part (found.inside part) hi
      exact ⟨_, u, along?_cons first further, own, List.forall_mem_cons.2 ⟨bare, rest⟩⟩

/-- A recorded path finds the part that the marks are of, as it is apart from its marks. These are
recorded, and it has got those of all values that were passed in addition. -/
theorem markedPaths_resolve (made : v.WellMade) (found : v.Addressable)
    (h : marked ∈ v.markedPaths) :
    ∃ passed u w, v.along? marked.path.steps = some (passed, u) ∧ marked.path.apply v = .ok w ∧
      (∀ name ∈ marked.marks, name ∈ w.marks) ∧ mk marked.marks w.content = u ∧
      (∀ [Host], u.Comparable → identical (mk marked.marks w.content) u = true) ∧
      w.marks = .unions ((passed ++ [u]).map marks) := by
  obtain ⟨passed, u, along, own, bare⟩ := along?_of_mem_markedPaths made found h
  have start : v.withMarks .empty = v := by
    cases v
    rfl
  obtain ⟨w, reached, same, marked_iff⟩ := applyFrom_of_along? made along [] .empty
  rw [start] at reached
  have part : mk marked.marks w.content = u := by
    rw [same, ← own]
    cases u
    rfl
  have marks_iff (name : String) :
      name ∈ w.marks ↔ ∃ x ∈ passed ++ [u], name ∈ x.marks := by
    rw [marked_iff, or_iff_left]
    rintro (none | ⟨step, hs, none⟩)
    · simp at none
    · simp [bare step hs] at none
  refine ⟨passed, u, w, along, reached, fun name hn => ?_, part, fun {_} comparable => ?_, ?_⟩
  · exact (marks_iff name).2 ⟨u, List.mem_append_right _ List.mem_cons_self, own ▸ hn⟩
  · rw [part]
    exact comparable.refl true
  · refine MarkSet.eq_of_mem_iff fun name => ?_
    rw [marks_iff, MarkSet.mem_unions]
    simp

/-- A marked text in a map in a marked tuple is found with the marks of both. -/
theorem markedPaths_resolve_entry :
    let u : Value := ⟨.ofList ["inner"], .string "x"⟩
    let v : Value := ⟨.ofList ["outer"], .tuple [bare (.map .string [("a", u)])]⟩
    let marked : MarkedPath := ⟨⟨[.index (ofNat 0), .index (string "a")]⟩, .ofList ["inner"]⟩
    v.WellMade ∧ v.Addressable ∧ marked ∈ v.markedPaths ∧
      ∃ w, marked.path.apply v = .ok w ∧ mk marked.marks w.content = u ∧
        w.marks = .ofList ["inner", "outer"] := by
  intro u v marked
  have stays : normalize "a" = "a" := normalize_of_all_lt (by decide)
  have made : v.WellMade := by
    refine .intro trivial (List.forall_mem_singleton.2 (.intro ⟨⟨by decide, ?_⟩, ?_⟩ ?_))
    · exact List.forall_mem_singleton.2 ⟨"a", stays⟩
    · exact List.forall_mem_singleton.2 rfl
    · exact List.forall_mem_singleton.2 (wellMade_leaf trivial rfl)
  have found : v.Addressable := by
    refine .intro ⟨nofun, by decide⟩ (List.forall_mem_singleton.2 ?_)
    refine .intro ⟨fun s hs => ?_, by decide⟩ (List.forall_mem_singleton.2 ?_)
    · rw [show normalize s = "a" from List.mem_singleton.1 hs, stays]
    · exact .intro ⟨nofun, by decide⟩ nofun
  have recorded : v.markedPaths = [⟨.root, .ofList ["outer"]⟩, marked] := by
    rfl
  have mem : marked ∈ v.markedPaths := by
    rw [recorded]
    exact List.mem_cons_of_mem _ List.mem_cons_self
  obtain ⟨passed, u', w, along, reached, -, part, -, marks⟩ := markedPaths_resolve made found mem
  -- both steps are made from the places of the parts
  have outer := part?_of_mem_routes made.here found.here.1 found.here.2 List.mem_cons_self
  have there := found.inside List.mem_cons_self
  have inner := part?_of_mem_routes (made.inside List.mem_cons_self).here there.here.1 there.here.2
    List.mem_cons_self
  have led : v.along? marked.path.steps = some ([v, bare (.map .string [("a", u)])], u) :=
    along?_cons outer.1 (along?_cons inner.1 rfl)
  rw [led] at along
  cases along
  exact ⟨made, found, mem, w, reached, part, marks⟩

end Value

end ValueAlgebra
