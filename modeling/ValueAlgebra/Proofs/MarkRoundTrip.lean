import Mathlib
import ValueAlgebra.Proofs.CanonicalForm
import ValueAlgebra.Proofs.WellMade

/-!
# Taking marks off and putting them back

`Value.unmarkDeep` takes the marks of all parts of a value off, and `Value.markedPaths` tells where
they were. `Value.markAlong` puts them back: the value is the one that it was, at every depth.

A content is seen as a row of parts, each of which a step leads to (`Content.routes`), and as what
is left when other parts take their place (`Content.withParts`). A step that leads to a part of a
content changes that part alone, whatever the other parts are (`Value.stepsReach`). So paths that
begin with the same step act on one part (`Value.markAlong_after`), and the parts get their marks
back one after the other (`Value.markAlong_routes`).

The elements of a set are behind no step. They have no marks to begin with.

Main statements:

* `Value.bears_iff`: the marks that are told are those that occur somewhere in a value.
* `Value.markAlong_markedPaths`: marks that were taken off can be put back.
* `Value.marks_round_trip`: both, of a value that steps can be found in.
-/

namespace ValueAlgebra

open Entries Text

/-! ## Sets of marks -/

namespace MarkSet

variable {a b : MarkSet}

theorem eq_of_mem_iff (h : ∀ name, name ∈ a ↔ name ∈ b) : a = b := by
  obtain ⟨names, sorted⟩ := a
  obtain ⟨others, sorted'⟩ := b
  congr
  exact List.Pairwise.eq_of_mem_iff sorted sorted' h

@[simp] theorem empty_union (a : MarkSet) : empty.union a = a :=
  eq_of_mem_iff fun name => by simp

theorem mem_unions {sets : List MarkSet} {name : String} :
    name ∈ unions sets ↔ ∃ marks ∈ sets, name ∈ marks := by
  have step (a : MarkSet) :
      name ∈ sets.foldl union a ↔ name ∈ a ∨ ∃ marks ∈ sets, name ∈ marks := by
    induction sets generalizing a with
    | nil => simp
    | cons marks sets ih => simp [List.foldl_cons, ih, or_assoc]
  rw [unions, step]
  simp

end MarkSet

/-! ## Parts and the steps to them -/

/-- The parts of a content that steps lead to, with these steps. -/
def Content.routes : Content → List (Step × Value)
  | .list _ items | .tuple items => items.zipIdx.map fun x => (.index (.ofNat x.2), x.1)
  | .map _ entries => entries.map fun entry => (.index (.string entry.1), entry.2)
  | .object attributes => attributes.map fun entry => (.attr entry.1, entry.2)
  | .union _ variant inner => [(.attr variant, inner)]
  | _ => []

/-- A content with other values in place of the parts that steps lead to. -/
def Content.withParts : Content → List Value → Content
  | .list e _, parts => .list e parts
  | .tuple _, parts => .tuple parts
  | .map e entries, parts => .map e ((names entries).zip parts)
  | .object attributes, parts => .object ((names attributes).zip parts)
  | .union variants variant inner, parts => .union variants variant (parts.headD inner)
  | content, _ => content

/-- A step to a part changes what stands in the place of this part, and nothing else. -/
def Content.StepsReach (c : Content) : Prop :=
  ∀ {f : Value → Value} {i : Nat} {step : Step} {v : Value} {vs : List Value},
    c.routes[i]? = some (step, v) → vs.length = c.routes.length →
      Value.modifyPart f step (c.withParts vs) = c.withParts (vs.modify i f)

/-- The names that steps find the entries of a map by. -/
def Content.keys : Content → List String
  | .map _ entries => names entries
  | _ => []

namespace Value

/-- Steps are made of what is in a value: the keys of its maps are in a form that stays as it is
when it is made canonical, and the number of its elements is a length. -/
def Addressable (v : Value) : Prop :=
  v.Everywhere fun w =>
    (∀ s, normalize s ∈ w.content.keys → normalize (normalize s) = normalize s) ∧
      w.content.parts.length ≤ Refining.lengthLimit

/-- As canonical forms are canonical, the number of parts is all that may stand in the way. -/
theorem addressable_of_length {v : Value}
    (h : v.Everywhere fun w => w.content.parts.length ≤ Refining.lengthLimit) : v.Addressable :=
  h.mono fun _ length => ⟨fun s _ => normalize_normalize s, length⟩

/-- A name is a mark of a value or of a value inside of it. -/
inductive Bears (name : String) : Value → Prop
  | own {v : Value} (h : name ∈ v.marks) : Bears name v
  | inside {v w : Value} (hw : w ∈ v.content.parts) (h : Bears name w) : Bears name v

variable {v : Value} {name : String}

theorem Bears.not_unmarked (h : v.Bears name) : ¬ v.Unmarked := by
  intro unmarked
  induction h with
  | own h => exact MarkSet.isEmpty_iff.1 unmarked.here name h
  | inside hw _ ih => exact ih (unmarked.inside hw)

end Value

namespace Content

variable {c : Content} {f : Value → Value} {i : Nat} {step : Step} {v : Value} {vs : List Value}

theorem map_numbered (f : Value → Value) (items : List Value) :
    ((items.zipIdx.map fun x => (Step.index (.ofNat x.2), x.1)).map fun route => f route.2) =
      items.map f := by
  rw [List.map_map]
  conv_rhs => rw [← List.zipIdx_map_fst 0 items, List.map_map]
  rfl

theorem zip_map_named (f : Value → Value) (step : String × Value → Step)
    (entries : List (String × Value)) :
    (names entries).zip ((entries.map fun entry => (step entry, entry.2)).map
      fun route => f route.2) = mapValues f entries := by
  rw [List.map_map, ← zip_names_values (mapValues f entries), names_mapValues, values_mapValues,
    values, List.map_map]
  rfl

theorem mem_parts_of_mem_routes (h : (step, v) ∈ c.routes) : v ∈ c.parts := by
  cases c with
  | list e items | tuple items =>
    obtain ⟨x, hx, eq⟩ := List.mem_map.1 h
    cases eq
    exact List.fst_mem_of_mem_zipIdx hx
  | map e entries | object entries =>
    obtain ⟨entry, he, eq⟩ := List.mem_map.1 h
    cases eq
    exact mem_values he
  | union =>
    cases List.mem_singleton.1 h
    exact List.mem_cons_self
  | _ => cases h

/-- All parts but the elements of sets are behind steps. -/
theorem exists_route (h : v ∈ c.parts) :
    (∃ step, (step, v) ∈ c.routes) ∨ ∃ e items, c = .set e items := by
  cases c with
  | set e items => exact .inr ⟨e, items, rfl⟩
  | list e items | tuple items =>
    obtain ⟨i, hi⟩ := List.mem_iff_getElem?.1 h
    exact .inl ⟨_, List.mem_map.2 ⟨(v, i), List.mk_mem_zipIdx_iff_getElem?.2 hi, rfl⟩⟩
  | map e entries | object entries =>
    obtain ⟨name, hn⟩ := exists_of_mem_values h
    exact .inl ⟨_, List.mem_map.2 ⟨_, hn, rfl⟩⟩
  | union variants variant inner =>
    cases List.mem_singleton.1 h
    exact .inl ⟨_, List.mem_cons_self⟩
  | _ => cases h

/-- A content has its own parts. -/
theorem withParts_routes (c : Content) : c.withParts (c.routes.map Prod.snd) = c := by
  cases c with
  | list e items | tuple items =>
    exact congrArg _ ((map_numbered id items).trans (List.map_id items))
  | map e entries | object entries =>
    have same : mapValues id entries = entries := mapValues_eq_self fun _ _ => rfl
    exact congrArg _ ((zip_map_named id _ entries).trans same)
  | _ => rfl

theorem unmarkDeep_eq_withParts (m : MarkSet) (c : Content) :
    (⟨m, c⟩ : Value).unmarkDeep =
      .bare (c.withParts (c.routes.map fun route => route.2.unmarkDeep)) := by
  cases c with
  | list e items | tuple items =>
    rw [routes, map_numbered, withParts, Value.unmarkDeep, Value.unmarkDeepAll_eq_map]
  | map e entries | object entries =>
    rw [routes, withParts, zip_map_named, Value.unmarkDeep, Value.unmarkDeepEntries_eq_mapValues]
  | _ =>
    simp only [Value.unmarkDeep]
    rfl

end Content

/-! ## One step -/

namespace Value

variable {v : Value} {c : Content} {f : Value → Value} {name : String}

theorem toWord?_ofInt {i : Nat} (h : i ≤ Refining.lengthLimit) :
    (Number.ofInt i).toWord? = some i := by
  have bound : i < 2 ^ 64 := Nat.lt_of_le_of_lt h (by decide)
  simpa [Number.toWord?, Number.toInt?, Number.ofInt] using bound

/-- The element at a number is found by it, however far back. -/
theorem modifyItem_ofNat {i : Nat} (h : i ≤ Refining.lengthLimit) (vs : List Value) :
    modifyPart.modifyItem f (ofNat i) vs = vs.modify i f := by
  have number : (ofNat i).number? = some (.ofInt i) := rfl
  rw [modifyPart.modifyItem, number, Option.bind_some, toWord?_ofInt h]

theorem modifyEntry_of_not_mem {entries : List (String × Value)} (h : name ∉ names entries) :
    modifyPart.modifyEntry f name entries = entries := by
  refine (List.map_congr_left fun entry he => ?_).trans (List.map_id entries)
  rw [if_neg, id]
  rintro rfl
  exact h (mem_names he)

/-- Where names are distinct, the entry of a name is the one at its place. -/
theorem modifyEntry_zip {keys : List String} {i : Nat} {vs : List Value} (distinct : keys.Nodup)
    (length : vs.length = keys.length) (h : keys[i]? = some name) :
    modifyPart.modifyEntry f name (keys.zip vs) = keys.zip (vs.modify i f) := by
  induction keys generalizing i vs with
  | nil => cases h
  | cons key keys ih =>
    cases vs with
    | nil => cases length
    | cons v vs =>
      rw [List.nodup_cons] at distinct
      simp only [List.length_cons, Nat.add_right_cancel_iff] at length
      cases i with
      | zero =>
        cases h
        have absent : name ∉ names (keys.zip vs) := by
          rw [names_zip length.symm]
          exact distinct.1
        have rest := modifyEntry_of_not_mem (f := f) absent
        rw [modifyPart.modifyEntry] at rest ⊢
        rw [List.zip_cons_cons, List.map_cons, rest, if_pos rfl, List.modify_zero_cons,
          List.zip_cons_cons]
      | succ i =>
        have ne : key ≠ name := fun eq => distinct.1 (eq ▸ List.mem_of_getElem? h)
        have rest := ih distinct.2 length h
        rw [modifyPart.modifyEntry] at rest ⊢
        rw [List.zip_cons_cons, List.map_cons, rest, if_neg ne, List.modify_succ_cons,
          List.zip_cons_cons]

/-- Names that are kept once and in canonical form, and numbers that are lengths, reach parts. -/
theorem stepsReach (made : c.WellMade)
    (stable : ∀ s, normalize s ∈ c.keys → normalize (normalize s) = normalize s)
    (short : c.parts.length ≤ Refining.lengthLimit) : c.StepsReach := by
  intro f i step v vs h length
  have within : i < c.routes.length := (List.getElem?_eq_some_iff.1 h).1
  cases c with
  | list e items | tuple items =>
    rw [Content.routes, List.length_map, List.length_zipIdx] at within
    have key : Step.index (.ofNat i) = step := by
      have := h
      rw [Content.routes, List.getElem?_map, List.getElem?_zipIdx] at this
      obtain ⟨x, hx, eq⟩ := Option.map_eq_some_iff.1 this
      obtain ⟨w, -, rfl⟩ := Option.map_eq_some_iff.1 hx
      simpa using congrArg Prod.fst eq
    subst key
    have items : items.length ≤ Refining.lengthLimit := short
    have short := Nat.le_trans (Nat.le_of_lt within) items
    simp only [Content.withParts, modifyPart, modifyItem_ofNat short]
  | map e entries =>
    obtain ⟨entry, he, eq⟩ := Option.map_eq_some_iff.1 ((List.getElem?_map ..).symm.trans h)
    cases eq
    have named : (names entries)[i]? = some entry.1 := by rw [names, List.getElem?_map, he]; rfl
    have key : (string entry.1).string? = some entry.1 := by
      obtain ⟨s, hs⟩ := made.1.canonical entry.1 (List.mem_of_getElem? named)
      have same := stable s (hs ▸ List.mem_of_getElem? named)
      rw [hs] at same
      exact congrArg some same
    have distinct := Names.nodup_of_sorted made.1.sorted
    rw [Content.routes, List.length_map, ← length_names] at length
    simp only [Content.withParts, modifyPart, key, modifyEntry_zip distinct length named]
  | object attributes =>
    obtain ⟨entry, he, eq⟩ := Option.map_eq_some_iff.1 ((List.getElem?_map ..).symm.trans h)
    cases eq
    have named : (names attributes)[i]? = some entry.1 := by
      rw [names, List.getElem?_map, he]
      rfl
    have distinct := Names.nodup_of_sorted (Names.Normal.sorted made)
    rw [Content.routes, List.length_map, ← length_names] at length
    simp only [Content.withParts, modifyPart, modifyEntry_zip distinct length named]
  | union variants variant inner =>
    obtain rfl : i = 0 := Nat.lt_one_iff.1 within
    cases h
    obtain ⟨x, rfl⟩ := List.length_eq_one_iff.1 length
    simp [Content.withParts, modifyPart]
  | _ => cases h

end Value

/-! ## Marks behind steps -/

/-- What is found at a path that starts where another path leads to. -/
def MarkedPath.after (path : Path) (marked : MarkedPath) : MarkedPath :=
  ⟨path ++ marked.path, marked.marks⟩

theorem MarkedPath.after_root (path : Path) (m : MarkSet) :
    MarkedPath.after path ⟨.root, m⟩ = ⟨path, m⟩ :=
  congrArg (MarkedPath.mk · m) (congrArg Path.mk (List.append_nil path.steps))

theorem MarkedPath.after_push (path : Path) (step : Step) (marked : MarkedPath) :
    marked.after (path.push step) = (marked.after ⟨[step]⟩).after path :=
  congrArg (MarkedPath.mk · marked.marks)
    (congrArg Path.mk (List.append_assoc path.steps [step] marked.path.steps))

namespace Value

variable {v : Value} {c : Content} {name : String}

theorem markedPathsItems_eq (path : Path) (start : Nat) (items : List Value) :
    markedPathsItems path start items =
      ((items.zipIdx start).map fun x => (Step.index (.ofNat x.2), x.1)).flatMap
        fun route => route.2.markedPathsAt (path.push route.1) := by
  induction items generalizing start with
  | nil => rfl
  | cons v vs ih =>
    rw [markedPathsItems, ih, List.zipIdx_cons, List.map_cons, List.flatMap_cons]
    rfl

theorem markedPathsEntries_eq (path : Path) (entries : List (String × Value)) :
    markedPathsEntries path entries =
      (entries.map fun entry => (Step.index (.string entry.1), entry.2)).flatMap
        fun route => route.2.markedPathsAt (path.push route.1) := by
  induction entries with
  | nil => rfl
  | cons entry entries ih =>
    obtain ⟨key, v⟩ := entry
    rw [markedPathsEntries, ih, List.map_cons, List.flatMap_cons]
    rfl

theorem markedPathsAttributes_eq (path : Path) (attributes : List (String × Value)) :
    markedPathsAttributes path attributes =
      (attributes.map fun entry => (Step.attr entry.1, entry.2)).flatMap
        fun route => route.2.markedPathsAt (path.push route.1) := by
  induction attributes with
  | nil => rfl
  | cons entry attributes ih =>
    obtain ⟨key, v⟩ := entry
    rw [markedPathsAttributes, ih, List.map_cons, List.flatMap_cons]
    rfl

theorem markedPathsAt_eq (path : Path) (m : MarkSet) (c : Content) :
    markedPathsAt path ⟨m, c⟩ = (if m.isEmpty then [] else [⟨path, m⟩]) ++
      c.routes.flatMap fun route => route.2.markedPathsAt (path.push route.1) := by
  cases c with
  | list e items | tuple items => rw [markedPathsAt, markedPathsItems_eq]; rfl
  | map e entries => rw [markedPathsAt, markedPathsEntries_eq]; rfl
  | object attributes => rw [markedPathsAt, markedPathsAttributes_eq]; rfl
  | union variants variant inner =>
    rw [markedPathsAt, Content.routes, List.flatMap_singleton]
    rfl
  | _ =>
    simp only [markedPathsAt]
    rfl

/-- Where a search starts shows at the beginning of all paths. -/
theorem markedPathsAt_eq_map (path : Path) (v : Value) :
    v.markedPathsAt path = v.markedPaths.map (.after path) := by
  induction v using Value.induction generalizing path with
  | step v ih =>
    obtain ⟨m, c⟩ := v
    rw [markedPaths, markedPathsAt_eq, markedPathsAt_eq, List.map_append, List.map_flatMap]
    congr 1
    · split
      · rfl
      · rw [List.map_singleton, MarkedPath.after_root]
    · refine List.flatMap_congr fun route hr => ?_
      have hw := Content.mem_parts_of_mem_routes hr
      rw [ih _ hw, ih _ hw, List.map_map]
      exact List.map_congr_left fun marked _ => MarkedPath.after_push path route.1 marked

theorem markedPaths_eq (m : MarkSet) (c : Content) :
    (⟨m, c⟩ : Value).markedPaths = (if m.isEmpty then [] else [⟨.root, m⟩]) ++
      c.routes.flatMap fun route => route.2.markedPaths.map (.after ⟨[route.1]⟩) := by
  rw [markedPaths, markedPathsAt_eq]
  simp only [markedPathsAt_eq_map]
  rfl

/-- The marks that are told are those that occur somewhere in a value. -/
theorem bears_iff (made : v.WellMade) :
    (∃ marked ∈ v.markedPaths, name ∈ marked.marks) ↔ v.Bears name := by
  induction made with
  | @intro v here inside ih =>
    obtain ⟨m, c⟩ := v
    rw [markedPaths_eq]
    constructor
    · rintro ⟨marked, hm, hn⟩
      rcases List.mem_append.1 hm with hm | hm
      · split at hm
        · cases hm
        · cases List.mem_singleton.1 hm
          exact .own hn
      · obtain ⟨⟨step, w⟩, hr, hm⟩ := List.mem_flatMap.1 hm
        obtain ⟨inner, hi, rfl⟩ := List.mem_map.1 hm
        have hw := Content.mem_parts_of_mem_routes hr
        exact .inside hw ((ih w hw).1 ⟨inner, hi, hn⟩)
    · intro h
      cases h with
      | own h =>
        refine ⟨⟨.root, m⟩, List.mem_append_left _ ?_, h⟩
        have some : ¬ m.isEmpty = true := fun none => MarkSet.isEmpty_iff.1 none name h
        rw [if_neg some]
        exact List.mem_cons_self
      | @inside _ w hw h =>
        rcases Content.exists_route hw with ⟨step, hr⟩ | ⟨e, items, rfl⟩
        · obtain ⟨inner, hi, hn⟩ := (ih w hw).2 h
          exact ⟨inner.after ⟨[step]⟩, List.mem_append_right _
            (List.mem_flatMap.2 ⟨_, hr, List.mem_map_of_mem hi⟩), hn⟩
        · -- the elements of a set have no marks
          exact absurd (WellMade.unmarked (inside w hw) (here w hw).2) h.not_unmarked

/-! ## Putting marks back -/

theorem markAlong_append (v : Value) (as bs : List MarkedPath) :
    v.markAlong (as ++ bs) = (v.markAlong as).markAlong bs :=
  List.foldl_append

/-- Paths that begin with the step to a part mark what stands in the place of this part. -/
theorem markAlong_after {i : Nat} {step : Step} {vs : List Value} (reach : c.StepsReach)
    (h : c.routes[i]? = some (step, v)) (length : vs.length = c.routes.length) (m : MarkSet)
    (marked : List MarkedPath) :
    (⟨m, c.withParts vs⟩ : Value).markAlong (marked.map (.after ⟨[step]⟩)) =
      ⟨m, c.withParts (vs.modify i (·.markAlong marked))⟩ := by
  induction marked generalizing vs with
  | nil => exact congrArg (mk m) (congrArg c.withParts (List.modify_id i vs).symm)
  | cons x marked ih =>
    have first : markAt x.marks (step :: x.path.steps) ⟨m, c.withParts vs⟩ =
        ⟨m, c.withParts (vs.modify i (markAt x.marks x.path.steps))⟩ :=
      congrArg (mk m) (reach h length)
    have kept : (vs.modify i (markAt x.marks x.path.steps)).length = c.routes.length :=
      (List.length_modify ..).trans length
    have rest := ih kept
    rw [List.modify_modify_eq] at rest
    rw [List.map_cons, markAlong, List.foldl_cons]
    exact (congrArg (markAlong · _) first).trans rest

/-- Parts that can get their marks back get them, one after the other. -/
theorem markAlong_routes (reach : c.StepsReach) (m : MarkSet)
    (back : ∀ route ∈ c.routes, route.2.unmarkDeep.markAlong route.2.markedPaths = route.2) :
    (⟨m, c.withParts (c.routes.map fun route => route.2.unmarkDeep)⟩ : Value).markAlong
      (c.routes.flatMap fun route => route.2.markedPaths.map (.after ⟨[route.1]⟩)) = ⟨m, c⟩ := by
  -- parts before a place have their marks, those from there on do not have them yet
  have step (done todo : List (Step × Value)) (all : done ++ todo = c.routes) :
      (⟨m, c.withParts (done.map Prod.snd ++ todo.map fun route => route.2.unmarkDeep)⟩ :
        Value).markAlong
          (todo.flatMap fun route => route.2.markedPaths.map (.after ⟨[route.1]⟩)) = ⟨m, c⟩ := by
    induction todo generalizing done with
    | nil =>
      rw [List.append_nil] at all
      rw [List.map_nil, List.append_nil, all, Content.withParts_routes]
      rfl
    | cons route todo ih =>
      have here : c.routes[done.length]? = some route := by
        rw [← all, List.getElem?_append_right (Nat.le_refl _), Nat.sub_self]
        rfl
      have marked := back route (List.mem_of_getElem? here)
      have place (f : Value → Value) (x : Value) (xs : List Value) :
          (done.map Prod.snd ++ x :: xs).modify done.length f = done.map Prod.snd ++ f x :: xs := by
        have length : done.length = (done.map Prod.snd).length := (List.length_map _).symm
        rw [List.modify_eq_take_drop, length, List.take_left, List.drop_left]
        rfl
      have rest := ih (done ++ [route]) (by rw [← all, List.append_assoc]; rfl)
      rw [List.map_append, List.append_assoc] at rest
      rw [List.flatMap_cons, markAlong_append, markAlong_after reach here (by simp [← all]),
        List.map_cons, place, marked]
      exact rest
  exact step [] c.routes rfl

/-- Marks that were taken off can be put back. -/
theorem markAlong_markedPaths (made : v.WellMade) (found : v.Addressable) :
    v.unmarkDeep.markAlong v.markedPaths = v := by
  induction made with
  | @intro v here _ ih =>
    obtain ⟨m, c⟩ := v
    have own (d : Content) :
        (bare d).markAlong (if m.isEmpty then [] else [⟨.root, m⟩]) = ⟨m, d⟩ := by
      split
      · rename_i none
        rw [MarkSet.eq_empty none]
        rfl
      · exact congrArg (mk · d) (MarkSet.empty_union m)
    rw [markedPaths_eq, markAlong_append, Content.unmarkDeep_eq_withParts, own]
    refine markAlong_routes (stepsReach here found.here.1 found.here.2) m fun route hr => ?_
    have hw := Content.mem_parts_of_mem_routes hr
    exact ih route.2 hw (found.inside hw)

/-- The marks of all parts of a value can be taken off and put back: without them no part has marks,
they are told to be those that occur in the value, and along the paths that are told they make it
the value that it was. -/
theorem marks_round_trip (made : v.WellMade) (found : v.Addressable) :
    v.unmarkDeep.Unmarked ∧
      (∀ name, name ∈ MarkSet.unions (v.markedPaths.map (·.marks)) ↔ v.Bears name) ∧
      v.unmarkDeep.markAlong v.markedPaths = v := by
  refine ⟨made.unmarkDeep.unmarked (containsMarked_unmarkDeep v), fun name => ?_,
    markAlong_markedPaths made found⟩
  rw [MarkSet.mem_unions, ← bears_iff made]
  simp

/-- A map with marks inside of marks. -/
theorem marks_round_trip_map :
    let v : Value := ⟨.ofList ["outer"], .map .string [("a", ⟨.ofList ["inner"], .string "x"⟩)]⟩
    v.WellMade ∧ v.Addressable ∧ v.unmarkDeep.Unmarked ∧ v.Bears "inner" ∧
      v.unmarkDeep.markAlong v.markedPaths = v := by
  intro v
  have part : ∀ w ∈ v.content.parts, w = ⟨.ofList ["inner"], .string "x"⟩ := fun w hw =>
    List.mem_singleton.1 hw
  have stays : normalize "a" = "a" := normalize_of_all_lt (by decide)
  have made : v.WellMade := by
    refine .intro ⟨⟨by decide, ?_⟩, ?_⟩ fun w hw => ?_
    · exact fun name hn => ⟨"a", stays.trans (List.mem_singleton.1 hn).symm⟩
    · exact fun w hw => part w hw ▸ rfl
    · rw [part w hw]
      exact wellMade_leaf trivial rfl
  have found : v.Addressable := by
    refine .intro ⟨fun s hs => ?_, by decide⟩ fun w hw => ?_
    · rw [show normalize s = "a" from List.mem_singleton.1 hs, stays]
    · rw [part w hw]
      exact .intro ⟨nofun, by decide⟩ nofun
  obtain ⟨unmarked, told, back⟩ := marks_round_trip made found
  exact ⟨made, found, unmarked, (told "inner").1 (by decide), back⟩

end Value

end ValueAlgebra
