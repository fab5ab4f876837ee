import Mathlib
import ValueAlgebra.Proofs.CompletedEquality
import ValueAlgebra.Proofs.Restrictions

/-!
# What restrictions leave of an unknown

Restricting an unknown value intersects: the result stands for those values that the unknown stood
for and that meet all that the restrictions say. This includes the results that are no unknowns any
more, a null, a number, an empty collection, a list of unknowns or a set of one unknown, with two
exceptions. A list of unknowns needs room in memory. And a result that is wholly known has a type,
so where the type of the unknown has dynamic parts its other instances are lost.

Main statements:

* `Value.completes_unknowns_iff`, `Value.completes_unknownElement_iff`: what lists and sets of
  unknowns stand for.
* `Value.completes_iff_of_leaves`: what the one value that is left stands for.
* `Value.restrict_intersects`: what a run of restrictions leaves.
-/

namespace ValueAlgebra

open Entries Refinement

theorem Ty.instantiates_of_eq {s t : Ty} (h : s = t) : s.Instantiates t :=
  h ▸ instantiates_refl s

/-! ## The value that is left -/

namespace Refining

/-- The value that is left of an unknown of some type, with what leaves no other. -/
inductive Leaves : Ty → Refinement → Value → Prop
  | null {t : Ty} {r : Refinement} (null : r.nullness = .null) : Leaves t r (.null t)
  | number {r : Refinement} (notNull : r.nullness = .notNull)
    (pinned : ∀ n, r.Spans n ↔ n = r.lower.value) : Leaves .number r (.number r.lower.value)
  | list {e : Ty} {r : Refinement} (notNull : r.nullness = .notNull)
    (length : r.maxLength = some r.minLength) :
    Leaves (.list e) r (.bare (.list e (List.replicate r.minLength (.unknown e))))
  | emptySet {e : Ty} {r : Refinement} (notNull : r.nullness = .notNull)
    (length : r.maxLength = some r.minLength) (none : r.minLength = 0) :
    Leaves (.set e) r (.bare (.set e []))
  | set {e : Ty} {r : Refinement} (notNull : r.nullness = .notNull)
    (length : r.maxLength = some r.minLength) (one : r.minLength = 1) :
    Leaves (.set e) r (.bare (.set e [.unknown e]))
  | emptyMap {e : Ty} {r : Refinement} (notNull : r.nullness = .notNull)
    (length : r.maxLength = some r.minLength) (none : r.minLength = 0) :
    Leaves (.map e) r (.bare (.map e []))

variable {s : Refining} {t : Ty} {r : Refinement} {v : Value} {fault : Fault}

theorem leaves_of_onlyResult? (only : onlyResult? t r = .ok (some v)) : Leaves t r v := by
  unfold onlyResult? at only
  split at only
  · rename_i null
    cases only
    exact .null null
  · cases only
  · rename_i notNull
    have only := Except.ok.inj only
    split at only <;> cases only
    rename_i point
    simp only [Bool.and_eq_true, beq_iff_eq] at point
    obtain ⟨⟨lower, upper⟩, same⟩ := point
    refine .number notNull fun n => ?_
    rw [Spans, Bound.admitsAbove, Bound.admitsBelow, if_pos lower, if_pos upper,
      decide_eq_true_eq, decide_eq_true_eq, ← same]
    refine ⟨fun h => Number.le_antisymm h.2 h.1, ?_⟩
    rintro rfl
    exact ⟨Number.le_rfl, Number.le_rfl⟩
  · rename_i e notNull
    split at only
    · cases only
    rename_i pinned
    split at only <;> cases only
    rename_i room
    rw [not_not] at pinned
    -- a length for which there is room is below the limit of all lengths
    have limited : r.minLength < lengthLimit :=
      Nat.lt_of_le_of_lt (Nat.le_of_not_lt room) (by decide)
    refine .list notNull ?_
    cases max : r.maxLength with
    | none =>
      rw [max, Option.getD_none] at pinned
      exact absurd pinned.symm (Nat.ne_of_lt limited)
    | some m =>
      rw [max, Option.getD_some] at pinned
      rw [pinned]
  · rename_i e notNull
    have only := Except.ok.inj only
    split at only <;> cases only
    · rename_i max min
      exact .emptySet notNull (max.trans (congrArg some min.symm)) min
    · rename_i max min
      exact .set notNull (max.trans (congrArg some min.symm)) min
  · rename_i e notNull
    have only := Except.ok.inj only
    split at only <;> cases only
    rename_i empty
    exact .emptyMap notNull (empty.1.trans (congrArg some empty.2.symm)) empty.2
  · cases only

theorem fault_of_onlyResult? (h : onlyResult? t r = .error fault) : fault = .capacityOverflow := by
  unfold onlyResult? at h
  split at h
  case h_4 =>
    split at h
    · cases h
    split at h <;> cases h
    rfl
  all_goals cases h

/-- The result for an unknown is the one value that is left, or what is known. -/
theorem result_of_told (unknown : s.value.isKnown = false) (told : s.refinement = some r) :
    s.result = (onlyResult? s.value.ty r).map fun only =>
      (only.getD (.refined s.value.ty r)).withMarks s.marks := by
  simp only [result, unknown, told]
  cases onlyResult? s.value.ty r with
  | error => rfl
  | ok only => cases only <;> rfl

end Refining

namespace Value

/-! ## Contents by type -/

section

variable {w : Value} {t e : Ty} {r : Refinement}

/-- A value of an instance of a type is built as the type says. -/
theorem Present.content_of_type (h : w.Present) (type : w.ty.Instantiates t) :
    match t with
    | .number => ∃ n, w.content = .number n
    | .list _ => ∃ e items, w.content = .list e items
    | .set _ => ∃ e items, w.content = .set e items
    | .map _ => ∃ e entries, w.content = .map e entries
    | _ => True := by
  obtain ⟨m, c⟩ := w
  cases c with
  | unknown => cases h.1
  | null => cases h.2
  | _ =>
    rw [ty] at type
    cases type <;> first | trivial | exact ⟨_, rfl⟩ | exact ⟨_, _, rfl⟩

/-- Where only null is possible there is null. -/
theorem exists_null_of_meets (meets : r.Meets w.content) (null : r.nullness = .null) :
    ∃ s, w.content = .null s := by
  obtain ⟨m, c⟩ := w
  cases c with
  | null s => exact ⟨s, rfl⟩
  | number | string | list | set | map => exact absurd null meets.1
  | _ => exact absurd null meets

/-- Where null is ruled out there is a value. -/
theorem present_of_meets (known : w.isKnown = true) (meets : r.Meets w.content)
    (notNull : r.nullness = .notNull) : w.Present := by
  refine ⟨known, ?_⟩
  obtain ⟨m, c⟩ := w
  cases c with
  | null => exact absurd notNull meets
  | _ => rfl

theorem isWhollyKnown_eq_false_of_unknown (h : unknown e ∈ w.content.parts) :
    w.isWhollyKnown = false := by
  rw [← Bool.not_eq_true]
  intro known
  cases (isWhollyKnown_iff.1 known).2 _ h

theorem meetsLength_iff_eq {n : Nat} (h : r.maxLength = some r.minLength) :
    Meets.MeetsLength r n ↔ n = r.minLength := by
  rw [Meets.MeetsLength, h]
  constructor
  · intro fits
    exact Nat.le_antisymm (fits.2 _ rfl) fits.1
  · rintro rfl
    exact ⟨Nat.le_refl _, fun max same => Nat.le_of_eq (Option.some.inj same)⟩

/-- What is known of a collection is met by its length. -/
theorem meets_iff_length (hw : w.Present) (sized : w.ty.isCollection = true)
    (notNull : r.nullness = .notNull) :
    r.Meets w.content ↔ Meets.MeetsLength r w.content.parts.length := by
  have present : r.nullness ≠ .null := by simp [notNull]
  obtain ⟨m, c⟩ := w
  cases c with
  | list | set => exact and_iff_right present
  | map e entries =>
    rw [content, Content.parts, Entries.values, List.length_map]
    exact and_iff_right present
  | unknown => cases hw.1
  | null => cases hw.2
  | _ =>
    rw [ty] at sized
    cases sized

/-- Of each type of collections there is one that is empty. -/
theorem content_eq_of_empty {v : Value} (hv : v.Present) (hw : w.Present) (same : w.ty = v.ty)
    (sized : v.ty.isCollection = true) (left : v.content.parts = [])
    (right : w.content.parts = []) : w.content = v.content := by
  have type : w.ty.Instantiates v.ty := Ty.instantiates_of_eq same
  obtain ⟨m, c⟩ := v
  cases c with
  | unknown => cases hv.1
  | null => cases hv.2
  | list e items =>
    rw [ty] at type same
    obtain ⟨e', items', hc⟩ := hw.content_of_type type
    rw [ty_of_content (w := bare (.list e' items')) hc, bare, ty] at same
    rw [hc] at right ⊢
    cases same
    exact congrArg (Content.list e) (right.trans left.symm)
  | set e items =>
    rw [ty] at type same
    obtain ⟨e', items', hc⟩ := hw.content_of_type type
    rw [ty_of_content (w := bare (.set e' items')) hc, bare, ty] at same
    rw [hc] at right ⊢
    cases same
    exact congrArg (Content.set e) (right.trans left.symm)
  | map e entries =>
    rw [ty] at type same
    obtain ⟨e', entries', hc⟩ := hw.content_of_type type
    rw [ty_of_content (w := bare (.map e' entries')) hc, bare, ty] at same
    rw [hc] at right ⊢
    cases same
    rw [List.map_eq_nil_iff.1 left, List.map_eq_nil_iff.1 right]
    rfl
  | _ =>
    rw [ty] at sized
    cases sized

end

variable [Host] {heap : Heap} {u v w : Value} {t e : Ty} {r : Refinement}

/-! ## What may stand for an unknown -/

/-- A wholly known value of an instance of a type. -/
structure Admissible (heap : Heap) (t : Ty) (w : Value) : Prop where
  known : w.isWhollyKnown = true
  sound : w.Sound heap
  type : w.ty.Instantiates t

theorem completes_unknown_iff (hu : u.content = .unknown t r) :
    Completes heap Ty.Instantiates u w ↔ w.Admissible heap t ∧ r.Meets w.content := by
  constructor
  · intro h
    cases h with
    | unknown hv known sound type meets =>
      rw [hu] at hv
      cases hv
      exact ⟨⟨known, sound, type⟩, meets⟩
    | plain known => simp [isKnown_iff.2 ⟨t, r, hu⟩] at known
    | list hv | set hv | map hv | object hv | tuple hv | union hv => cases hu.symm.trans hv
  · rintro ⟨⟨known, sound, type⟩, meets⟩
    exact .unknown hu known sound type meets

theorem Completes.of_content {fits : Ty → Ty → Prop} (h : Completes heap fits v w)
    (hc : u.content = v.content) : Completes heap fits u w := by
  cases h with
  | unknown hv known sound type meets => exact .unknown (hc.trans hv) known sound type meets
  | plain known parts hw => 
    exact .plain ((isKnown_of_content hc).trans known) (hc ▸ parts) (hw.trans hc.symm)
  | list hv hl parts h hw => exact .list (hc.trans hv) hl parts h hw
  | set hv hl parts h hw => exact .set (hc.trans hv) hl parts h hw
  | map hv hn parts h hw => exact .map (hc.trans hv) hn parts h hw
  | object hv hn parts hw => exact .object (hc.trans hv) hn parts hw
  | tuple hv hl parts hw => exact .tuple (hc.trans hv) hl parts hw
  | union hv part h hw => exact .union (hc.trans hv) part h hw

/-- A value without parts is its only completion. -/
theorem completes_leaf_iff {fits : Ty → Ty → Prop} (known : v.isKnown = true)
    (leaf : v.content.parts = []) : Completes heap fits v w ↔ w.content = v.content := by
  have none {xs ys : List Value} (hl : xs.length = ys.length) (hx : xs = []) : ys = [] := by
    rw [hx, List.length_nil, eq_comm] at hl
    exact List.eq_nil_of_length_eq_zero hl
  have noEntries {xs ys : List (String × Value)} (hn : names xs = names ys) (hx : values xs = []) :
      xs = [] ∧ ys = [] :=
    ⟨List.map_eq_nil_iff.1 hx, List.map_eq_nil_iff.1 (none (length_values_of_names hn) hx)⟩
  refine ⟨fun h => ?_, fun hw => .plain known leaf hw⟩
  cases h with
  | unknown hv => simp [isKnown_iff.2 ⟨_, _, hv⟩] at known
  | plain _ _ hw => exact hw
  | list hv hl _ h _ =>
    rw [hv] at leaf
    obtain ⟨e, hne, -⟩ := list_eq_ok h
    exact absurd (none hl leaf) hne
  | set hv hl _ h _ =>
    rw [hv] at leaf
    obtain ⟨e, hne, -⟩ := set_eq_ok h
    exact absurd (none hl leaf) hne
  | map hv hn _ h _ =>
    rw [hv] at leaf
    obtain ⟨-, rfl⟩ := noEntries hn leaf
    obtain ⟨e, hne, -⟩ := map_eq_ok (show Names.Proper (names []) from Names.proper_nil) h
    exact absurd rfl hne
  | object hv hn _ hw =>
    rw [hv] at leaf
    obtain ⟨rfl, rfl⟩ := noEntries hn leaf
    rw [hw, hv]
    rfl
  | tuple hv hl _ hw =>
    rw [hv] at leaf
    obtain rfl : _ = [] := leaf
    rw [hw, hv, none hl rfl]
    rfl
  | union hv =>
    rw [hv] at leaf
    cases leaf

/-! ## Lists and sets of unknowns -/

/-- Whatever is admissible stands for an unknown of which nothing is known. -/
theorem Admissible.completes (h : w.Admissible heap t) :
    Completes heap Ty.Instantiates (unknown t) w :=
  (completes_unknown_iff rfl).2 ⟨h, meets_unconstrained _⟩

theorem follows_of_completes_unknown (h : Completes heap Ty.Instantiates (unknown t) w) :
    Follows (unknown t) w := by
  have admissible := ((completes_unknown_iff rfl).1 h).1
  refine ⟨(ty_unknown t).symm ▸ admissible.type, fun closed => ?_⟩
  rw [ty_unknown]
  exact admissible.type.eq_of_hasDynamic (by
    simpa [hasWhollyKnownType, unknown, refined, bare] using closed)

/-- The elements of a well-made list or set stand for unknowns. -/
theorem completes_elements {items : List Value} {e' : Ty} (he : e'.Instantiates e)
    (typed : ∀ x ∈ items, x.ty = e') (known : ∀ x ∈ items, x.isWhollyKnown = true)
    (sound : ∀ x ∈ items, x.Sound heap) (i : Nat) (x y : Value)
    (hx : (List.replicate items.length (unknown e))[i]? = some x) (hy : items[i]? = some y) :
    Completes heap Ty.Instantiates x y := by
  obtain rfl := List.eq_of_mem_replicate (List.mem_of_getElem? hx)
  have member := List.mem_of_getElem? hy
  exact Admissible.completes ⟨known y member, sound y member, (typed y member).symm ▸ he⟩

/-- A list of unknowns stands for all lists of its length. -/
theorem completes_unknowns_iff {n : Nat} (hn : 0 < n) (hw : w.WellMade) :
    Completes heap Ty.Instantiates (bare (.list e (List.replicate n (unknown e)))) w ↔
      w.Admissible heap (.list e) ∧ ∃ e' items, w.content = .list e' items ∧ items.length = n := by
  constructor
  · intro h
    have known := h.isWhollyKnown
    have sound : w.Sound heap := by
      refine h.sound ?_
      refine .intro trivial fun x hx => ?_
      rw [List.eq_of_mem_replicate hx]
      exact .intro trivial (List.forall_mem_nil _)
    cases h with
    | unknown hv => cases hv
    | plain _ parts =>
      have length := congrArg List.length parts
      simp [bare, content, Content.parts] at length
      omega
    | @list _ _ made _ xs ys hv hl parts h hw =>
      cases hv
      obtain ⟨e', hne, common, rfl⟩ := list_eq_ok h
      have typed : ∀ x ∈ List.replicate n (unknown e), x.ty = e := fun x hx => by
        rw [List.eq_of_mem_replicate hx, ty_unknown]
      have follows := (follows_commonType? typed hl (fun i x y hx hy => by
        have step := parts i x y hx hy
        obtain rfl := List.eq_of_mem_replicate (List.mem_of_getElem? hx)
        exact follows_of_completes_unknown step) hne common).1
      refine ⟨⟨known, sound, ?_⟩, e', _, hw, ?_⟩
      · rw [ty_of_content hw, bare, ty]
        exact .list follows
      · rw [List.length_map, ← hl, List.length_replicate]
    | set hv | map hv | object hv | tuple hv | union hv => cases hv
  · rintro ⟨⟨known, sound, type⟩, e', items, hc, rfl⟩
    have typed := hw.here
    rw [hc] at typed
    have hne : items ≠ [] := List.length_pos_iff.1 hn
    have parts := (isWhollyKnown_iff.1 known).2
    have inside (x : Value) (hx : x ∈ w.content.parts) : x.Sound heap := sound.inside hx
    rw [hc] at parts inside
    rw [ty_of_content (w := bare (.list e' items)) hc, bare, ty] at type
    cases type with
    | list he =>
      refine .list rfl List.length_replicate (completes_elements he typed parts inside)
        (list_of_common hne (commonType?_of_all hne typed)) ?_
      rw [hc, map_conformTo_of_ty typed]
      rfl

/-- A set of one unknown stands for all sets of one element. -/
theorem completes_unknownElement_iff (hw : w.WellMade) :
    Completes heap Ty.Instantiates (bare (.set e [unknown e])) w ↔
      w.Admissible heap (.set e) ∧ ∃ e' x, w.content = .set e' [x] := by
  constructor
  · intro h
    have known := h.isWhollyKnown
    have sound : w.Sound heap := by
      refine h.sound ?_
      refine .intro ?_ fun x hx => ?_
      · exact List.pairwise_singleton _ _
      · rw [List.mem_singleton.1 hx]
        exact .intro trivial (List.forall_mem_nil _)
    cases h with
    | unknown hv => cases hv
    | plain _ parts => cases parts
    | @set _ _ made _ xs ys hv hl parts h hw =>
      cases hv
      obtain ⟨y, rfl⟩ := List.length_eq_one_iff.1 hl.symm
      obtain ⟨e', hne, common, rfl⟩ := set_eq_ok h
      have typed : ∀ x ∈ [unknown e], x.ty = e := fun x hx => by
        rw [List.mem_singleton.1 hx, ty_unknown]
      have follows := (follows_commonType? typed hl (fun i x y hx hy => by
        have step := parts i x y hx hy
        obtain rfl := List.mem_singleton.1 (List.mem_of_getElem? hx)
        exact follows_of_completes_unknown step) hne common).1
      have content := hw.trans (content_setOf e' [y])
      have length := length_ofList_singleton e' (unmarkDeep (conformTo e' y))
      obtain ⟨x, hx⟩ := List.length_eq_one_iff.1 length
      refine ⟨⟨known, sound, ?_⟩, e', x, ?_⟩
      · rw [ty_of_content hw, ty_setOf]
        exact .set follows
      · rw [content, List.map_singleton, List.map_singleton, hx]
    | list hv | map hv | object hv | tuple hv | union hv => cases hv
  · rintro ⟨⟨known, sound, type⟩, e', x, hc⟩
    have here := hw.here
    rw [hc] at here
    have typed : ∀ y ∈ [x], y.ty = e' := fun y hy => (here y hy).1
    have parts := (isWhollyKnown_iff.1 known).2
    have inside (x : Value) (hx : x ∈ w.content.parts) : x.Sound heap := sound.inside hx
    rw [hc] at parts inside
    rw [ty_of_content (w := bare (.set e' [x])) hc, bare, ty] at type
    cases type with
    | set he =>
      have made : Value.set [x] = .ok (setOf e' [x]) := by
        rw [Value.set, elementTypeFor_of_common (by simp) (commonType?_of_all (by simp) typed)]
        rfl
      refine .set rfl (show [unknown e].length = [x].length from rfl) ?_ made ?_
      · exact completes_elements he typed parts inside
      have unmarked := (unmarkDeep_of_unmarked (here x List.mem_cons_self).2).1
      have perm : (RuleSet.ofList (ValueRules.mk e') [x]).values.Perm [x] :=
        RuleSet.perm_ofList (List.pairwise_singleton _ x)
      rw [hc, content_setOf, map_conformTo_of_ty typed, List.map_singleton, unmarked,
        List.perm_singleton.1 perm]

/-! ## What the value that is left stands for -/

theorem Admissible.present (h : w.Admissible heap t) (meets : r.Meets w.content)
    (notNull : r.nullness = .notNull) : w.Present :=
  present_of_meets (isWhollyKnown_iff.1 h.known).1 meets notNull

/-- A value without parts is admissible where its type is. -/
theorem admissible_of_leaf (known : v.isKnown = true) (leaf : v.content.parts = [])
    (lawful : v.content.Lawful heap) (type : v.ty = t) (hw : w.content = v.content) :
    w.Admissible heap t where
  known := by
    rw [isWhollyKnown_of_content hw, isWhollyKnown_iff, leaf]
    exact ⟨known, List.forall_mem_nil _⟩
  sound := by
    refine Sound.of_content (.intro lawful ?_) hw
    rw [leaf]
    exact List.forall_mem_nil _
  type := by
    rw [ty_of_content hw, type]
    exact Ty.instantiates_refl t

/-- A value without parts that is left stands for itself, and fixes the type with that. -/
theorem completes_leaf_left (known : v.isKnown = true) (leaf : v.content.parts = [])
    (lawful : v.content.Lawful heap) (type : v.ty = t) (meets : r.Meets v.content)
    (only : ∀ w : Value, w.Admissible heap t → r.Meets w.content → w.ty = t →
      w.content = v.content) :
    Completes heap Ty.Instantiates v w ↔
      (w.Admissible heap t ∧ r.Meets w.content) ∧ (v.isWhollyKnown = true → w.ty = t) := by
  rw [completes_leaf_iff known leaf]
  constructor
  · intro hw
    refine ⟨⟨admissible_of_leaf known leaf lawful type hw, hw ▸ meets⟩, fun _ => ?_⟩
    rw [ty_of_content hw, type]
  · rintro ⟨⟨admissible, meets⟩, same⟩
    refine only w admissible meets (same ?_)
    rw [isWhollyKnown_iff, leaf]
    exact ⟨known, List.forall_mem_nil _⟩

section

variable (notNull : r.nullness = .notNull) (length : r.maxLength = some r.minLength)

include notNull length

/-- An empty collection. -/
theorem completes_empty_iff (none : r.minLength = 0) (hv : v.Present) (type : v.ty = t)
    (sized : t.isCollection = true) (leaf : v.content.parts = [])
    (lawful : v.content.Lawful heap) :
    Completes heap Ty.Instantiates v w ↔
      (w.Admissible heap t ∧ r.Meets w.content) ∧ (v.isWhollyKnown = true → w.ty = t) := by
  have lengths (w : Value) (hw : w.Present) (same : w.ty = t) :
      r.Meets w.content ↔ w.content.parts.length = 0 := by
    rw [meets_iff_length hw (same ▸ sized) notNull, meetsLength_iff_eq length, none]
  refine completes_leaf_left hv.1 leaf lawful type ((lengths v hv type).2 ?_)
    fun w admissible meets same => ?_
  · rw [leaf, List.length_nil]
  · have hw := admissible.present meets notNull
    have empty := List.eq_nil_of_length_eq_zero ((lengths w hw same).1 meets)
    exact content_eq_of_empty hv hw (same.trans type.symm) (type ▸ sized) leaf empty

/-- A list of a known length. -/
theorem completes_list_iff (hw : w.WellMade) :
    Completes heap Ty.Instantiates
        (bare (.list e (List.replicate r.minLength (unknown e)))) w ↔
      (w.Admissible heap (.list e) ∧ r.Meets w.content) ∧
        ((bare (.list e (List.replicate r.minLength (unknown e)))).isWhollyKnown = true →
          w.ty = .list e) := by
  have present : r.nullness ≠ .null := by simp [notNull]
  cases hn : r.minLength with
  | zero => exact completes_empty_iff notNull length hn ⟨rfl, rfl⟩ (by rw [bare, ty]) rfl rfl trivial
  | succ n =>
    have undecided : (bare (.list e (List.replicate (n + 1) (unknown e)))).isWhollyKnown = false :=
      isWhollyKnown_eq_false_of_unknown (e := e) List.mem_cons_self
    rw [completes_unknowns_iff (Nat.succ_pos n) hw, undecided]
    constructor
    · rintro ⟨admissible, e', items, hc, long⟩
      refine ⟨⟨admissible, ?_⟩, fun h => by cases h⟩
      rw [hc]
      exact ⟨present, (meetsLength_iff_eq length).2 (long.trans hn.symm)⟩
    · rintro ⟨⟨admissible, meets⟩, -⟩
      obtain ⟨e', items, hc⟩ := (admissible.present meets notNull).content_of_type admissible.type
      refine ⟨admissible, e', items, hc, ?_⟩
      rw [hc] at meets
      exact ((meetsLength_iff_eq length).1 meets.2).trans hn

/-- A set of one element. -/
theorem completes_set_iff (one : r.minLength = 1) (hw : w.WellMade) :
    Completes heap Ty.Instantiates (bare (.set e [unknown e])) w ↔
      (w.Admissible heap (.set e) ∧ r.Meets w.content) ∧
        ((bare (.set e [unknown e])).isWhollyKnown = true → w.ty = .set e) := by
  have undecided : (bare (.set e [unknown e])).isWhollyKnown = false :=
    isWhollyKnown_eq_false_of_unknown (e := e) List.mem_cons_self
  rw [completes_unknownElement_iff hw, undecided]
  constructor
  · rintro ⟨admissible, e', x, hc⟩
    refine ⟨⟨admissible, ?_⟩, fun h => by cases h⟩
    rw [hc]
    exact ⟨by simp [notNull], (meetsLength_iff_eq length).2 one.symm⟩
  · rintro ⟨⟨admissible, meets⟩, -⟩
    obtain ⟨e', items, hc⟩ := (admissible.present meets notNull).content_of_type admissible.type
    rw [hc] at meets
    obtain ⟨x, rfl⟩ :=
      List.length_eq_one_iff.1 (((meetsLength_iff_eq length).1 meets.2).trans one)
    exact ⟨admissible, e', x, hc⟩

end

/-- The one value that is left of an unknown stands for all that the unknown stood for. Only where
it is wholly known itself it fixes the type. -/
theorem completes_iff_of_leaves (left : Refining.Leaves t r v) (hw : w.WellMade) :
    Completes heap Ty.Instantiates v w ↔
      (w.Admissible heap t ∧ r.Meets w.content) ∧ (v.isWhollyKnown = true → w.ty = t) := by
  cases left with
  | null null =>
    refine completes_leaf_left rfl rfl trivial (by simp only [Value.null, bare, ty]) ?_
      fun w admissible meets same => ?_
    · change r.nullness ≠ .notNull
      rw [null]
      simp
    · obtain ⟨s, hc⟩ := exists_null_of_meets meets null
      rw [ty_of_content (w := bare (.null s)) hc, bare, ty] at same
      rw [hc, same]
      rfl
  | number notNull pinned =>
    refine completes_leaf_left rfl rfl trivial (by simp only [number, bare, ty]) ?_
      fun w admissible meets _ => ?_
    · refine ⟨?_, (pinned _).2 rfl⟩
      rw [notNull]
      simp
    · obtain ⟨n, hc⟩ := (admissible.present meets notNull).content_of_type admissible.type
      rw [hc] at meets ⊢
      rw [(pinned n).1 meets.2]
      rfl
  | list notNull length => exact completes_list_iff notNull length hw
  | emptySet notNull length none =>
    exact completes_empty_iff notNull length none ⟨rfl, rfl⟩ (by rw [bare, ty]) rfl rfl .nil
  | set notNull length one => exact completes_set_iff notNull length one hw
  | emptyMap notNull length none =>
    exact completes_empty_iff notNull length none ⟨rfl, rfl⟩ (by rw [bare, ty]) rfl rfl trivial

end Value

/-! ## Lists without room -/

namespace Refinement

variable {t : Ty} {r : Refinement} {facts : List Refinement}

/-- All that is left are lists of one length, for which there is no room. -/
def Overlong (t : Ty) (facts : List Refinement) : Prop :=
  ∃ e n, t = .list e ∧ Refining.listCapacity < n ∧ (∃ p ∈ facts, p.nullness = .notNull) ∧
    (∃ p ∈ facts, p.minLength = n) ∧ ∃ p ∈ facts, p.longest = n

theorem overlong_iff (gathers : Gathers facts r) (left : r.Open) :
    Overlong t facts ↔ Refining.onlyResult? t r = .error .capacityOverflow := by
  constructor
  · rintro ⟨e, n, rfl, large, ⟨p, hp, notNull⟩, ⟨q, hq, min⟩, ⟨o, ho, max⟩⟩
    have some : r.nullness = .notNull := by
      rcases (gathers.below p hp).nullness with none | same
      · cases notNull.symm.trans none
      · exact same.symm.trans notNull
    have least : n ≤ r.minLength := min ▸ (gathers.below q hq).minLength
    have greatest : r.longest ≤ n := max ▸ (gathers.below o ho).longest_le left.longest
    have same : r.maxLength.getD Refining.lengthLimit = r.minLength :=
      Nat.le_antisymm (Nat.le_trans greatest least) left.length
    unfold Refining.onlyResult?
    simp only [some, same, ne_eq, not_true_eq_false, if_false]
    rw [if_pos (Nat.lt_of_lt_of_le large least)]
  · intro h
    unfold Refining.onlyResult? at h
    split at h
    · cases h
    · cases h
    · cases h
    · rename_i e notNull
      split at h
      · cases h
      rename_i pinned
      split at h
      · rename_i large
        rw [not_not] at pinned
        obtain ⟨p, hp, nullness⟩ := gathers.nullness
        obtain ⟨q, hq, min⟩ := gathers.minLength
        obtain ⟨o, ho, max⟩ := gathers.maxLength
        refine ⟨e, r.minLength, rfl, large, ⟨p, hp, nullness.trans notNull⟩, ⟨q, hq, min⟩,
          o, ho, ?_⟩
        rw [longest, max, pinned]
      · cases h
    · cases h
    · cases h
    · cases h

end Refinement

namespace Value

variable {u : Value} {t : Ty} {r : Refinement}

/-- What is known of an unknown when it starts to be refined. -/
theorem WellMade.knows_refine_unknown (hu : u.WellMade) (unknown : u.content = .unknown t r)
    (typed : t ≠ .dynamic) : u.refine.Knows [r] r := by
  have closed : u.ty.isDynamic = false := by
    rw [ty_of_content (w := bare (.unknown t r)) unknown, bare, ty]
    cases t <;> first | rfl | exact absurd rfl typed
  have told : u.refine.refinement = some (ofContent u.content) := by
    simp only [refine, closed, Bool.and_false, Bool.false_eq_true, if_false]
  have room : u.content.parts.length ≤ Refining.lengthLimit := by
    rw [unknown]
    exact Nat.zero_le _
  have knows := hu.knows_refine room told
  rwa [unknown] at knows

/-- Restricting is intersecting. A run of restrictions of an unknown fails exactly if one of them is
of no use for the type or if they contradict each other or what is known. If it does not fail, the
result stands for just those values that the unknown stood for and that meet all that was said. This
leaves out lists for which there is no room, and where the unknown is replaced by a wholly known
value, the values of other instances of its type. -/
theorem restrict_intersects [Host] (hu : u.WellMade) (unknown : u.content = .unknown t r)
    (typed : t ≠ .dynamic) (xs : List Restriction) :
    ((∃ fault, xs.foldlM Refining.restrict u.refine = .error fault) ↔
      (∃ x ∈ xs, ¬ (x.Posed ∧ x.Concerns t)) ∨
        ¬ Consistent (r :: xs.flatMap Restriction.said)) ∧
    ∀ s, xs.foldlM Refining.restrict u.refine = .ok s →
      (Overlong t (r :: xs.flatMap Restriction.said) →
        u.restrict xs = .error .capacityOverflow) ∧
      (¬ Overlong t (r :: xs.flatMap Restriction.said) → ∃ v, u.restrict xs = .ok v ∧
        ∀ (heap : Heap) (w : Value), w.WellMade →
          (Completes heap Ty.Instantiates v w ↔
            Completes heap Ty.Instantiates u w ∧
              (∀ x ∈ xs, ∀ p ∈ x.said, p.Meets w.content) ∧
              (v.isWhollyKnown = true → w.ty = t))) := by
  have knows := hu.knows_refine_unknown unknown typed
  have ty_value : u.refine.value.ty = t := by
    rw [show u.refine.value = u.unmark from rfl, ty_unmark,
      ty_of_content (w := bare (.unknown t r)) unknown, bare, ty]
  have isUnknown : u.refine.value.isKnown = false :=
    isKnown_iff.2 ⟨t, r, unknown⟩
  constructor
  · rw [knows.exists_error_iff, ty_value]
    refine or_congr Iff.rfl (not_congr ⟨fun allows => allows.consistent, fun consistent => ?_⟩)
    refine ⟨consistent, fun text whole => ?_⟩
    rw [Refining.whole?, show u.refine.value.content = u.content from rfl, unknown] at whole
    cases whole
  · intro s run
    obtain ⟨value, marks, r', knows'⟩ := knows.knows_foldlM run
    rw [← value] at ty_value isUnknown
    have result : u.restrict xs = (Refining.onlyResult? t r').map fun only =>
        (only.getD (.refined t r')).withMarks s.marks := by
      rw [restrict, run, ← ty_value]
      exact Refining.result_of_told isUnknown knows'.told
    have overlong := overlong_iff (t := t) knows'.gathers knows'.left
    rw [List.singleton_append] at overlong knows'
    rw [overlong, result]
    cases only : Refining.onlyResult? t r' with
    | error fault =>
      obtain rfl := Refining.fault_of_onlyResult? only
      exact ⟨fun _ => rfl, fun room => absurd rfl room⟩
    | ok only? =>
      refine ⟨fun none => (by cases none), fun _ => ⟨_, rfl, fun heap w hw => ?_⟩⟩
      have meets : r'.Meets w.content ↔
          r.Meets w.content ∧ ∀ x ∈ xs, ∀ p ∈ x.said, p.Meets w.content := by
        rw [knows'.gathers.meets_iff, List.forall_mem_cons]
        refine and_congr Iff.rfl ⟨fun h x hx p hp => ?_, fun h p hp => ?_⟩
        · exact h p (List.mem_flatMap.2 ⟨x, hx, hp⟩)
        · obtain ⟨x, hx, hp⟩ := List.mem_flatMap.1 hp
          exact h x hx p hp
      have unmarked {v : Value} (m : MarkSet) :
          Completes heap Ty.Instantiates (v.withMarks m) w ↔ Completes heap Ty.Instantiates v w :=
        ⟨fun h => h.of_content rfl, fun h => h.of_content rfl⟩
      have decided {v : Value} (m : MarkSet) :
          (v.withMarks m).isWhollyKnown = v.isWhollyKnown := isWhollyKnown_of_content rfl
      rw [unmarked, decided, completes_unknown_iff unknown]
      cases only? with
      | none =>
        have undecided : (refined t r').isWhollyKnown = false := rfl
        rw [Option.getD_none, completes_unknown_iff rfl, meets, undecided]
        simp only [Bool.false_eq_true, false_imp_iff, and_true, and_assoc]
      | some v =>
        rw [Option.getD_some, completes_iff_of_leaves (Refining.leaves_of_onlyResult? only) hw, meets]
        simp only [and_assoc]

/-- A list of two numbers is replaced by a list of two unknowns, which loses nothing. -/
theorem restrict_intersects_two_numbers :
    letI := Host.plain
    (Value.unknown (.list .number)).WellMade ∧ Ty.list .number ≠ .dynamic ∧
      ∃ v, (Value.unknown (.list .number)).restrict [.notNull, .length 2] = .ok v ∧
        ∀ (heap : Heap) (w : Value), w.WellMade →
          (Completes heap Ty.Instantiates v w ↔
            Completes heap Ty.Instantiates (Value.unknown (.list .number)) w ∧
              (∀ x ∈ [Restriction.notNull, .length 2], ∀ p ∈ x.said, p.Meets w.content) ∧
              (v.isWhollyKnown = true → w.ty = .list .number)) := by
  let := Host.plain
  have made := wellMade_unknown (.list .number)
  have typed : Ty.list .number ≠ .dynamic := by simp
  refine ⟨made, typed, (restrict_intersects made rfl typed _).2 _ rfl |>.2 ?_⟩
  rintro ⟨e, n, -, large, -, ⟨p, hp, rfl⟩, -⟩
  -- no fact asks for more than two elements
  have few : p.minLength ≤ 2 := by
    simp only [List.flatMap_cons, List.flatMap_nil, Restriction.said, List.append_nil,
      List.cons_append, List.nil_append, List.mem_cons, List.not_mem_nil, or_false] at hp
    rcases hp with rfl | rfl | rfl | rfl <;> decide
  exact absurd (Nat.lt_of_lt_of_le large few) (by decide)

/-- A length that no list can have in memory is no contradiction, but there is no result. -/
example : (Value.unknown (.list .number)).restrict [.notNull, .length (Nat.pow 2 60)] =
    .error .capacityOverflow := by
  rfl

/-- Empty lists of some element type are lost when an unknown list of unknown element type is told
to be empty. -/
theorem restrict_loses_emptyList :
    ¬ ∀ (_ : Host) (heap : Heap) (u v w : Value) (t : Ty) (r : Refinement)
      (xs : List Restriction), u.WellMade → u.content = .unknown t r → t ≠ .dynamic →
      (∀ x ∈ xs, x.Posed ∧ x.Concerns t) → u.restrict xs = .ok v → w.WellMade →
      Completes heap Ty.Instantiates u w → (∀ x ∈ xs, ∀ p ∈ x.said, p.Meets w.content) →
      Completes heap Ty.Instantiates v w := by
  intro claim
  let := Host.plain
  have admissible : (emptyList .string).Admissible .empty (.list .dynamic) :=
    ⟨rfl, .intro trivial (List.forall_mem_nil _), .list (.dynamic _)⟩
  have applies : ∀ x ∈ [Restriction.notNull, .length 0],
      x.Posed ∧ x.Concerns (.list .dynamic) := by
    simp only [List.mem_cons, List.not_mem_nil, or_false, forall_eq_or_imp, forall_eq]
    exact ⟨⟨trivial, trivial⟩, trivial, rfl⟩
  have lost := claim _ .empty (Value.unknown (.list .dynamic)) (emptyList .dynamic)
    (emptyList .string) (.list .dynamic) .unconstrained [.notNull, .length 0]
    (wellMade_unknown _) rfl (by simp) applies rfl (wellMade_emptyList _) admissible.completes ?_
  · have same := (completes_leaf_iff rfl rfl).1 lost
    cases same
  · simp only [List.mem_cons, List.not_mem_nil, or_false, forall_eq_or_imp, forall_eq,
      Restriction.said]
    refine ⟨by simp [emptyList, bare, content, Meets, Meets.MeetsLength, Refinement.notNull], ?_⟩
    simp [emptyList, bare, content, Meets, Meets.MeetsLength, Restriction.atMostLong]

end Value

end ValueAlgebra
