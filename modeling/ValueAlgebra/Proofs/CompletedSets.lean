import ValueAlgebra.Proofs.CompletedSizes
import ValueAlgebra.Proofs.MarkFlow

/-!
# Membership and completions

A set is asked for an element by the types first, then, if both are known, by looking the element
up, and what is not found is missing only where nothing is unknown (`Value.Asked`). The answers from
looking up stay. An element that is found is equal to one of the set, so their completions are
equal, and a completed set keeps that element or one that is equal to it. An element that is missing
is not found in a completion either: there nothing is unknown, and wholly known values whose
completions are equal are equal themselves.

The types are what can be wrong. They are compared as they stand if neither is left open as a whole
(`Ty.Excludes`), even if they have parts that are, and could be the same type in the end. And if the
type of the set is left open as a whole, they are not compared at all, so that a null is found,
whatever its type is.

Main statements:

* `Value.equal_of_equal_completions`: wholly known values are equal if their completions are.
* `Value.excluded_of_denied`: why an element that was denied can be there.
* `Value.null_of_affirmed`: why an element that was there can be missing.
* `Value.hasElement_completions`: both, for the operation on values with marks.
-/

namespace ValueAlgebra

open Entries

/-- No value of the second type is looked for among elements of the first one. Neither type is left
open as a whole, and they differ. -/
def Ty.Excludes (t u : Ty) : Prop :=
  u ≠ t ∧ u ≠ .dynamic ∧ t ≠ .dynamic

namespace Value

section

variable [Host] {heap : Heap} {a b v w x y s s' e e' : Value} {xs items : List Value} {t u : Ty}

/-! ## Answers -/

/-- What a set with elements of a type answers about an element, and why. -/
inductive Asked (t : Ty) (v e : Value) : Value → Prop
  | excluded (h : t.Excludes e.ty) : Asked t v e (bool false)
  | undecided (possible : ¬ t.Excludes e.ty) : Asked t v e .undecided
  | found {items : List Value} (possible : ¬ t.Excludes e.ty) (hc : v.content = .set t items)
      (h : foundIn e items = true) : Asked t v e (bool true)
  | missing {items : List Value} (possible : ¬ t.Excludes e.ty) (hc : v.content = .set t items)
      (h : foundIn e items = false) (known : allWhollyKnown items = true)
      (known' : e.isWhollyKnown = true) : Asked t v e (bool false)

theorem asked_of_hasElementBare (ht : v.ty = .set t) (h : v.hasElementBare e = .ok a) :
    Asked t v e a := by
  rw [hasElementBare, ht] at h
  dsimp only at h
  split at h
  · cases h
    exact .excluded ‹_›
  rename_i possible
  split at h
  · cases h
    exact .undecided possible
  split at h
  · rename_i u items hc
    rw [ty_of_content (w := bare (.set u items)) hc, bare, ty] at ht
    cases ht
    cases h
    split
    · exact .found possible hc ‹_›
    rename_i absent
    split
    · exact .undecided possible
    rename_i known
    rw [Bool.not_eq_true] at absent
    rw [Bool.or_eq_true, not_or] at known
    exact .missing possible hc absent (by simpa using known.1) (by simpa using known.2)
  · cases h

/-- An element that is found is equal to one of the set. -/
theorem exists_equal_of_foundIn (h : foundIn e items = true) : ∃ x ∈ items, Equal x e := by
  obtain ⟨x, hx, same⟩ := List.any_eq_true.1 h
  rw [Bool.and_eq_true] at same
  refine ⟨x, hx, ?_⟩
  have yes := same.2
  rw [equals, equalsBare_unmarkDeep] at yes
  rw [Equal]
  generalize equalsBare x e = answer at yes
  obtain ⟨m, c⟩ := answer
  cases c with
  | bool b =>
    simp only [isKnownTrue, isKnownBool, withMarks, marks, content, MarkSet.isEmpty_union,
      Bool.and_eq_true] at yes ⊢
    exact ⟨yes.1.1.1, yes.2⟩
  | _ => cases yes

/-- An element that is equal to one without marks is found. -/
theorem foundIn_of_equal (hx : x ∈ items) (sx : x.Sound heap) (se : e.Sound heap)
    (mx : x.containsMarked = false) (me : e.containsMarked = false) (h : Equal x e) :
    foundIn e items = true := by
  have merged := (equalityLaws heap).merged_of_equal sx se h
  refine List.any_eq_true.2 ⟨x, hx, ?_⟩
  rw [equals_of_unmarked mx me, Bool.and_eq_true, beq_iff_eq]
  exact merged

/-! ## Elements and their completions -/

/-- What is equal to a null is null. -/
theorem equal_iff_of_isNull (sv : v.Sound heap) (sw : w.Sound heap) (null : v.isNull = true) :
    Equal v w ↔ w.isNull = true := by
  rw [sv.equal_iff sw]
  constructor
  · rintro (nulls | ⟨⟨definite, -⟩, -⟩)
    · exact nulls.2
    · cases null.symm.trans definite.1.2
  · exact fun null' => .inl ⟨null, null'⟩

/-- An element that takes the type of its set is equal to what it was equal to before. -/
theorem equal_conformTo_iff (known : v.isKnown = true) (sv : v.Sound heap) (sw : w.Sound heap) :
    Equal (conformTo t v) w ↔ Equal v w := by
  have sound := sv.conformTo t
  unfold conformTo at sound ⊢
  split
  · rfl
  · rename_i open_
    rw [not_or, not_not] at open_
    have null := isNull_of_ty_dynamic known open_.1
    rw [if_neg (not_or.2 ⟨not_not.2 open_.1, open_.2⟩), if_pos null] at sound
    rw [if_pos null, equal_iff_of_isNull sound sw rfl, equal_iff_of_isNull sv sw null]

/-- A known set is completed by the set of the completed elements. -/
theorem Completes.set_cases (hv : v.content = .set t xs)
    (h : Completes heap Ty.Instantiates v w) :
    (xs = [] ∧ w.content = .set t []) ∨
      ∃ ys u, List.Forall₂ (Completes heap Ty.Instantiates) xs ys ∧ commonType? ys = some u ∧
        w.content = .set u
          (RuleSet.ofList (ValueRules.mk u) ((ys.map (conformTo u)).map unmarkDeep)).values := by
  cases h with
  | plain known parts hw =>
    rw [hv] at parts hw
    exact .inl ⟨parts, parts ▸ hw⟩
  | set hc hl parts made hw =>
    cases hv.symm.trans hc
    obtain ⟨u, -, hu, rfl⟩ := set_eq_ok made
    exact .inr ⟨_, u, forall₂_of_getElem? hl parts, hu, hw.trans (content_setOf _ _)⟩
  | unknown hc | list hc | map hc | object hc | tuple hc | union hc => cases hv.symm.trans hc

/-- Of two values of one type that are equal, both or neither leave a part of the type open. -/
theorem hasWhollyKnownType_of_equal (sv : v.Sound heap) (sw : w.Sound heap) (same : v.ty = w.ty)
    (h : Equal v w) (closed : v.hasWhollyKnownType = true) : w.hasWhollyKnownType = true := by
  rw [sv.equal_iff sw] at h
  rcases h with ⟨null, null'⟩ | ⟨⟨-, definite, -⟩, -⟩
  · obtain ⟨t, ht⟩ := isNull_iff.1 null
    obtain ⟨u, hu⟩ := isNull_iff.1 null'
    rw [ty_of_content (w := bare (.null t)) ht, ty_of_content (w := bare (.null u)) hu, bare, bare,
      ty, ty] at same
    rwa [hasWhollyKnownType_of_content (ht.trans (same ▸ hu.symm))] at closed
  · exact definite.2

/-- A wholly known value with a completion that leaves no part of its type open leaves none open. -/
theorem hasWhollyKnownType_of_completes (hx : x.Formed) (known : x.isWhollyKnown = true)
    (h : Completes heap Ty.Instantiates x y) (closed : y.hasWhollyKnownType = true) :
    x.hasWhollyKnownType = true := by
  induction x using Value.induction generalizing y with
  | step x ih =>
    have typed {p q : Value} (hp : p ∈ x.content.parts)
        (part : Completes heap Ty.Instantiates p q) : q.ty = p.ty :=
      part.ty_eq_of_known (hx.inside hp).1 (hx.inside hp).2 ((isWhollyKnown_iff.1 known).2 p hp)
    have settled {p q : Value} (hp : p ∈ x.content.parts)
        (part : Completes heap Ty.Instantiates p q) (closed : q.hasWhollyKnownType = true) :
        p.hasWhollyKnownType = true :=
      ih p hp (hx.inside hp) ((isWhollyKnown_iff.1 known).2 p hp) part closed
    rcases cases_present x with ⟨t, r, hc⟩ | ⟨t, hc⟩ | present
    · cases (isWhollyKnown_iff.1 known).1.symm.trans (isKnown_iff.2 ⟨t, r, hc⟩)
    · rwa [hasWhollyKnownType_of_content (hc.trans (h.null hc).symm)]
    · refine hasWhollyKnownType_of_parts present.1 present.2 fun p hp => ?_
      have completed := h.completed_of_typed hx.1 hx.2 present fun p hp q => typed hp
      have elements {e : Ty} {ps : List Value} (hc : x.content = .set e ps) :
          ∀ p ∈ ps, p.ty = e := by
        have regular := hx.1.here.2
        rwa [hc] at regular
      have inside := fun q hq => hasWhollyKnownType_of_mem_parts (w := q) closed hq
      have sound := fun p hp q (part : Completes heap Ty.Instantiates p q) =>
        part.sound (hx.inside (w := p) hp).2
      generalize x.content = c at completed typed settled hp elements sound
      generalize y.content = d at completed inside
      cases completed with
      | matched same =>
        obtain ⟨q, hq, part⟩ := (same.symm fun _ _ _ _ part => part).exists_left hp
        exact settled hp part (inside q hq)
      | @set e ps qs related =>
        obtain ⟨q, hq, part⟩ := exists_right_of_forall₂ related hp
        obtain ⟨z, hz, merged⟩ := exists_merged (e := e) hq
        refine settled hp part ?_
        rw [← (isWhollyKnown_unmarkDeep q).2]
        rcases merged with rfl | equal
        · exact inside _ hz
        · obtain ⟨q', hq', rfl⟩ := mem_completed_set hz
          obtain ⟨p', hp', part'⟩ := exists_left_of_forall₂ related hq'
          have same : q'.ty = q.ty := by
            rw [typed hp' part', typed hp part, elements rfl p' hp', elements rfl p hp]
          refine hasWhollyKnownType_of_equal (sound p' hp' q' part').unmarkDeep
            (sound p hp q part).unmarkDeep ?_ equal (inside _ hz)
          rw [ty_unmarkDeep, ty_unmarkDeep, same]

/-- Wholly known values are equal if their completions are. -/
theorem equal_of_equal_completions (hx : x.Formed) (he : e.Formed) (kx : x.isWhollyKnown = true)
    (ke : e.isWhollyKnown = true) (hy : Completes heap Ty.Instantiates x y)
    (he' : Completes heap Ty.Instantiates e e') (h : Equal y e') : Equal x e := by
  have null {v w : Value} (known : v.isWhollyKnown = true) (h : Completes heap Ty.Instantiates v w)
      (hw : w.isNull = true) : v.isNull = true := by
    rcases cases_present v with ⟨t, r, hc⟩ | ⟨t, hc⟩ | present
    · cases (isWhollyKnown_iff.1 known).1.symm.trans (isKnown_iff.2 ⟨t, r, hc⟩)
    · exact isNull_iff.2 ⟨t, hc⟩
    · cases hw.symm.trans (h.present present).2
  have decided := h
  rw [(hy.sound hx.2).equal_iff (he'.sound he.2)] at h
  rcases h with ⟨nullX, nullE⟩ | ⟨⟨dx, de, -⟩, -⟩
  · exact (hx.2.equal_iff he.2).2 (.inl ⟨null kx hy nullX, null ke he' nullE⟩)
  · exact reflects.equal hx he hx he kx ke (hasWhollyKnownType_of_completes hx kx hy dx.2)
      (hasWhollyKnownType_of_completes he ke he' de.2) hy he' decided

theorem equal_unmarkDeep_right : Equal x e.unmarkDeep ↔ Equal x e := by
  rw [← equal_unmarkDeep, (unmarkDeep_of_unmarked (containsMarked_unmarkDeep e)).1,
    equal_unmarkDeep]

/-! ## Marks that are hidden -/

/-- An element whose marks are hidden is not found. -/
theorem visible_of_found (ht : s.ty = .set t) (h : s.hasElement e = .ok a)
    (yes : a.content = .bool true) : (Operation.binary .hasElement s e).Visible := by
  intro marked
  by_contra hidden
  rw [hasElement, if_neg (by rwa [Bool.or_eq_true])] at h
  have asked := asked_of_hasElementBare ht h
  cases asked with
  | excluded | undecided | missing => cases yes
  | found possible hc found =>
    rw [foundIn_of_marked marked] at found
    cases found

/-- Where its marks are seen, an element is looked for without them. -/
theorem asked_of_hasElement (ht : s.ty = .set t) (h : s.hasElement e = .ok a)
    (visible : (Operation.binary .hasElement s e).Visible) :
    ∃ b, Asked t s e.unmarkDeep b ∧ a.content = b.content := by
  rw [hasElement] at h
  split at h
  · rw [hasElementBare_unmark] at h
    obtain ⟨b, hb, rfl⟩ := ValueAlgebra.map_eq_ok h
    exact ⟨b, asked_of_hasElementBare ht hb, rfl⟩
  · rename_i unmarked
    have clean : e.containsMarked = false := by
      rw [← Bool.not_eq_true]
      intro marked
      rw [Bool.or_eq_true] at unmarked
      exact unmarked (visible marked)
    rw [← (unmarkDeep_of_unmarked clean).1] at h
    exact ⟨a, asked_of_hasElementBare ht h, rfl⟩

/-! ## Answers about completions -/

/-- An element that was told to be missing is there in a completion only if its type alone ruled it
out, and was not settled. -/
theorem excluded_of_denied (hs : s.Formed) (made : s.WellMade) (he : e.Formed)
    (h : Completes heap Ty.Instantiates s s') (h' : Completes heap Ty.Instantiates e e')
    (hu : u.Instantiates t) (ha : Asked t s e.unmarkDeep a) (hb : Asked u s' e'.unmarkDeep b)
    (no : a.content = .bool false) (yes : b.content = .bool true) :
    t.Excludes e.ty ∧ ∃ c : Ty, c.Instantiates t ∧ c.Instantiates e.ty := by
  cases hb with
  | excluded | undecided | missing => cases yes
  | @found items' possible' hc' found' =>
    cases ha with
    | undecided | found => cases no
    | excluded excluded =>
      rw [ty_unmarkDeep] at excluded possible'
      have type := (h'.follows he.1).1
      have settled {p q : Ty} (instance_ : p.Instantiates q) (hq : q ≠ .dynamic) :
          p ≠ .dynamic := by
        rintro rfl
        cases instance_
        exact hq rfl
      refine ⟨excluded, u, hu, ?_⟩
      by_cases same : e'.ty = u
      · exact same ▸ type
      · exact absurd ⟨same, settled type excluded.2.1, settled hu excluded.2.2⟩ possible'
    | @missing items possible hc absent known known' =>
      exfalso
      obtain ⟨z, hz, equal⟩ := exists_equal_of_foundIn found'
      rcases h.set_cases hc with ⟨-, hw⟩ | ⟨ys, u', related, -, hw⟩
      · cases hc'.symm.trans hw
        cases hz
      · cases hc'.symm.trans hw
        obtain ⟨c, hc', rfl⟩ := mem_completed_set hz
        obtain ⟨y, hy, rfl⟩ := List.mem_map.1 hc'
        obtain ⟨x, hx, part⟩ := exists_left_of_forall₂ related hy
        have formed : x.Formed := hs.inside (hc ▸ hx)
        have equal : Equal y e' :=
          (equal_conformTo_iff (isWhollyKnown_iff.1 part.isWhollyKnown).1 (part.sound formed.2)
            (h'.sound he.2)).1 (equal_unmarkDeep.1 equal)
        rw [(isWhollyKnown_unmarkDeep e).1] at known'
        have before : Equal x e :=
          equal_of_equal_completions formed he (allWhollyKnown_iff.1 known x hx) known' part h'
            equal
        have unmarked : x.containsMarked = false := by
          have here := made.here
          rw [hc] at here
          exact (here x hx).2
        rw [foundIn_of_equal hx formed.2 he.2.unmarkDeep unmarked (containsMarked_unmarkDeep e)
          (equal_unmarkDeep_right.2 before)] at absent
        cases absent

/-- A completion of an element that was told to be there is missing only if it is a null, and the
type of the set was not settled. -/
theorem null_of_affirmed (hs : s.Formed) (he : e.Formed) (h : Completes heap Ty.Instantiates s s')
    (h' : Completes heap Ty.Instantiates e e') (ha : Asked t s e.unmarkDeep a)
    (hb : Asked u s' e'.unmarkDeep b) (hu : s'.ty = .set u) (yes : a.content = .bool true)
    (no : b.content = .bool false) : t = .dynamic ∧ e.isNull = true ∧ e.ty ≠ .dynamic := by
  cases ha with
  | excluded | undecided | missing => cases yes
  | @found items possible hc found =>
    rw [ty_unmarkDeep] at possible
    obtain ⟨x, hx, equal⟩ := exists_equal_of_foundIn found
    rw [equal_unmarkDeep_right] at equal
    have formed : x.Formed := hs.inside (hc ▸ hx)
    rcases h.set_cases hc with ⟨rfl, -⟩ | ⟨ys, u', related, common, hw⟩
    · cases hx
    rw [ty_of_content (w := bare (.set u' _)) hw, bare, ty] at hu
    cases hu
    obtain ⟨y, hy, part⟩ := exists_right_of_forall₂ related hx
    have equal' : Equal y e' := equal_of_completes formed he equal part h'
    have soundY : y.Sound heap := part.sound formed.2
    have soundE : e'.Sound heap := h'.sound he.2
    cases hb with
    | undecided | found => cases no
    | excluded excluded =>
      -- both keep their types, so the set is of another type than before
      have knownX := isWhollyKnown_of_equal formed.2 he.2 equal
      have knownE := isWhollyKnown_of_equal he.2 formed.2
        ((equalityLaws .empty).equal_symm formed.2 he.2 equal)
      have typed : x.ty = t := by
        have regular := hs.1.here.2
        rw [hc] at regular
        exact regular x hx
      have typed' : y.ty = t := (part.ty_eq_of_known formed.1 formed.2 knownX).trans typed
      rw [ty_unmarkDeep, h'.ty_eq_of_known he.1 he.2 knownE] at excluded
      have open_ : t = .dynamic := by
        rcases ty_of_commonType? common hy with open_ | same
        · exact typed'.symm.trans open_
        · exact absurd (same.symm.trans typed' ▸ excluded) possible
      have null := isNull_of_ty_dynamic (isWhollyKnown_iff.1 knownX).1 (typed.trans open_)
      exact ⟨open_, (equal_iff_of_isNull formed.2 he.2 null).1 equal, excluded.2.1⟩
    | @missing items' possible' hc' absent known known' =>
      exfalso
      cases hc'.symm.trans hw
      have conformed : Equal (conformTo u y) e' :=
        (equal_conformTo_iff (isWhollyKnown_iff.1 part.isWhollyKnown).1 soundY soundE).2 equal'
      obtain ⟨z, hz, merged⟩ := exists_merged (e := u) (List.mem_map_of_mem (f := conformTo u) hy)
      obtain ⟨w, -, rfl⟩ := mem_completed_set hz
      have soundZ : w.unmarkDeep.Sound heap := (h.sound hs.2).inside (hw ▸ hz)
      have there : Equal w.unmarkDeep e'.unmarkDeep := by
        rw [← equal_unmarkDeep] at conformed
        rcases merged with same | same
        · rwa [same]
        · exact (equalityLaws heap).trans soundZ (soundY.conformTo u).unmarkDeep soundE.unmarkDeep
            same conformed
      rw [foundIn_of_equal hz soundZ soundE.unmarkDeep (containsMarked_unmarkDeep w)
        (containsMarked_unmarkDeep e') there] at absent
      cases absent

/-- What is decided about an element stays so for completions, apart from marks that come to be seen
or hidden, in two cases. An element is ruled out by its type, though the type and the one of the set
can come to be the same. And a null is found in a set whose elements are of no type yet, and come to
be of another one. -/
theorem hasElement_completions (hs : s.Formed) (made : s.WellMade) (he : e.Formed)
    (ht : s.ty = .set t) (h : Completes heap Ty.Instantiates s s')
    (h' : Completes heap Ty.Instantiates e e') (ha : s.hasElement e = .ok a)
    (hb : s'.hasElement e' = .ok b) :
    (a.content = .bool false → b.content = .bool true →
      ¬ (Operation.binary .hasElement s e).Visible ∧
          (Operation.binary .hasElement s' e').Visible ∨
        t.Excludes e.ty ∧ ∃ c : Ty, c.Instantiates t ∧ c.Instantiates e.ty) ∧
    (a.content = .bool true → b.content = .bool false →
      (Operation.binary .hasElement s e).Visible ∧
          ¬ (Operation.binary .hasElement s' e').Visible ∨
        t = .dynamic ∧ e.isNull = true ∧ e.ty ≠ .dynamic) := by
  obtain ⟨u, hu, instance_⟩ : ∃ u, s'.ty = .set u ∧ u.Instantiates t := by
    have type := (h.follows hs.1).1
    rw [ht] at type
    cases hu : s'.ty <;> rw [hu] at type <;> cases type
    exact ⟨_, rfl, ‹_›⟩
  constructor
  · intro no yes
    have visible' := visible_of_found hu hb yes
    by_cases visible : (Operation.binary .hasElement s e).Visible
    · obtain ⟨a, asked, same⟩ := asked_of_hasElement ht ha visible
      obtain ⟨b, asked', same'⟩ := asked_of_hasElement hu hb visible'
      exact .inr (excluded_of_denied hs made he h h' instance_ asked asked' (same ▸ no)
        (same' ▸ yes))
    · exact .inl ⟨visible, visible'⟩
  · intro yes no
    have visible := visible_of_found ht ha yes
    by_cases visible' : (Operation.binary .hasElement s' e').Visible
    · obtain ⟨a, asked, same⟩ := asked_of_hasElement ht ha visible
      obtain ⟨b, asked', same'⟩ := asked_of_hasElement hu hb visible'
      exact .inr (null_of_affirmed hs he h h' asked asked' hu (same ▸ yes) (same' ▸ no))
    · exact .inl ⟨visible, visible'⟩

end

/-! ### An element next to an unknown one, and sets of an open type -/

/-- A set of the number 1 and an unknown number has the number 1, and so it does when the other one
turns out to be 7. -/
theorem hasElement_completions_number :
    letI := Host.plain
    let s := bare (.set .number [number (.ofInt 1), unknown .number])
    let s' := setOf .number [number (.ofInt 1), number (.ofInt 7)]
    s.Formed ∧ s.WellMade ∧ (number (.ofInt 1)).Formed ∧ s.ty = .set .number ∧
      Completes .empty Ty.Instantiates s s' ∧
      Completes .empty Ty.Instantiates (number (.ofInt 1)) (number (.ofInt 1)) ∧
      s.hasElement (number (.ofInt 1)) = .ok (bool true) ∧
      ∃ b, s'.hasElement (number (.ofInt 1)) = .ok b ∧ b.content ≠ .bool false := by
  let := Host.plain
  intro s s'
  have structural := (Scope.closed_upTo Refining.lengthLimit).structural
  have numberTy (n : Number) : (number n).ty = .number := by simp only [number, bare, ty]
  have formedNumber (n : Number) : (number n).Formed :=
    formed_of_within (.number trivial) (sound_leaf rfl trivial)
  have typed : ∀ v ∈ [number (.ofInt 1), unknown .number], v.ty = .number :=
    List.forall_mem_cons.2 ⟨numberTy _, List.forall_mem_singleton.2 (ty_unknown _)⟩
  have formed : s.Formed := by
    refine formed_of_within (.set ?_ typed ?_) (.intro ?_ ?_)
    · exact (Ty.everywhere_leaf rfl).2 structural.number
    · refine List.forall_mem_cons.2 ⟨.number trivial, List.forall_mem_singleton.2 ?_⟩
      exact .unknown ((Ty.everywhere_leaf rfl).2 structural.number)
        Refinement.coherent_unconstrained (Nat.zero_le _)
    · refine List.pairwise_pair.2 fun merged => ?_
      cases isWhollyKnown_of_equal (sound_leaf (v := unknown .number) rfl trivial)
        (formedNumber _).2 merged.2.2
    · exact List.forall_mem_cons.2
        ⟨sound_leaf rfl trivial, List.forall_mem_singleton.2 (sound_leaf rfl trivial)⟩
  have made : s.WellMade := by
    refine .intro ?_ (List.forall_mem_cons.2 ⟨wellMade_number _,
      List.forall_mem_singleton.2 (wellMade_unknown _)⟩)
    exact List.forall_mem_cons.2
      ⟨⟨numberTy _, rfl⟩, List.forall_mem_singleton.2 ⟨ty_unknown _, rfl⟩⟩
  have ht : s.ty = .set .number := by simp only [s, bare, ty]
  have completes : Completes .empty Ty.Instantiates s s' := by
    have related : List.Forall₂ (Completes .empty Ty.Instantiates)
        [number (.ofInt 1), unknown .number] [number (.ofInt 1), number (.ofInt 7)] :=
      .cons (.plain rfl rfl rfl)
        (.cons (Admissible.completes ⟨rfl, sound_leaf rfl trivial, .number⟩) .nil)
    refine .set rfl related.length_eq (fun _ _ _ => getElem?_of_forall₂ related)
      (set_of_common (by simp) (commonType?_of_all (by simp) ?_)) rfl
    exact List.forall_mem_cons.2 ⟨numberTy _, List.forall_mem_singleton.2 (numberTy _)⟩
  have same : Completes .empty Ty.Instantiates (number (.ofInt 1)) (number (.ofInt 1)) :=
    .plain rfl rfl rfl
  have there : s.hasElement (number (.ofInt 1)) = .ok (bool true) := by cbv
  have there' : s'.hasElement (number (.ofInt 1)) = .ok (bool true) := by cbv
  refine ⟨formed, made, formedNumber _, ht, completes, same, there, bool true, there', fun no => ?_⟩
  rcases (hasElement_completions formed made (formedNumber _) ht completes same there there').2 rfl
    no with ⟨-, hidden⟩ | ⟨open_, -⟩
  · exact hidden fun marked => by cases marked
  · cases open_

/-- An unknown set of lists of some type is said not to have an empty list of strings, but a set of
lists of strings can have it. And a set with an untyped null is said to have a null of type number,
but it is a set of strings when its other element is one. -/
theorem hasElement_denies_member :
    (¬ ∀ (_ : Host) (heap : Heap) (s s' e e' a b : Value) (t : Ty), s.Formed → s.WellMade →
      e.Formed → s.ty = .set t → Completes heap Ty.Instantiates s s' →
      Completes heap Ty.Instantiates e e' → s.hasElement e = .ok a → s'.hasElement e' = .ok b →
      a.content = .bool false → b.content ≠ .bool true) ∧
    ¬ ∀ (_ : Host) (heap : Heap) (s s' e e' a b : Value) (t : Ty), s.Formed → s.WellMade →
      e.Formed → s.ty = .set t → Completes heap Ty.Instantiates s s' →
      Completes heap Ty.Instantiates e e' → s.hasElement e = .ok a → s'.hasElement e' = .ok b →
      a.content = .bool true → b.content ≠ .bool false := by
  let := Host.plain
  have closed := Scope.closed_upTo Refining.lengthLimit
  have structural := closed.structural
  constructor
  · intro claim
    have dynamic : (Ty.set (.list .dynamic)).Everywhere Scope.all.types :=
      Ty.everywhere_set.2 ⟨structural.set _,
        Ty.everywhere_list.2 ⟨structural.list _, (Ty.everywhere_leaf rfl).2 closed.dynamic⟩⟩
    have empty : (emptyList .string).Sound .empty := sound_leaf rfl trivial
    have emptyTy : (emptyList .string).ty = .list .string := by simp only [emptyList, bare, ty]
    have formed : (emptyList .string).Formed :=
      formed_of_within (.list ((Ty.everywhere_leaf rfl).2 structural.string)
        (List.forall_mem_nil _) (List.forall_mem_nil _)) empty
    have filled : Completes .empty Ty.Instantiates (unknown (.set (.list .dynamic)))
        (bare (.set (.list .string) [emptyList .string])) := by
      refine Admissible.completes ⟨rfl, ?_, ?_⟩
      · exact .intro (List.pairwise_singleton _ _) (List.forall_mem_singleton.2 empty)
      · rw [bare, ty]
        exact .set (.list (.dynamic _))
    have denied : (unknown (.set (.list .dynamic))).hasElement (emptyList .string) =
        .ok (bool false) := by cbv
    have there : (bare (.set (.list .string) [emptyList .string])).hasElement (emptyList .string) =
        .ok (bool true) := by cbv
    exact claim _ .empty _ _ _ _ _ _ _
      (formed_of_within (.unknown dynamic Refinement.coherent_unconstrained (Nat.zero_le _))
        (sound_leaf rfl trivial))
      (wellMade_unknown _) formed (ty_unknown _) filled (.plain rfl rfl rfl) denied there rfl rfl
  · intro claim
    have nullTy (t : Ty) : (null t).ty = t := by simp only [null, bare, ty]
    have stringTy : (string "x").ty = .string := by simp only [string, bare, ty]
    have open_ : Ty.dynamic.Everywhere Scope.all.types :=
      (Ty.everywhere_leaf rfl).2 closed.dynamic
    have typed : ∀ v ∈ [null .dynamic, unknown .dynamic], v.ty = .dynamic :=
      List.forall_mem_cons.2 ⟨nullTy _, List.forall_mem_singleton.2 (ty_unknown _)⟩
    have formed : (bare (.set .dynamic [null .dynamic, unknown .dynamic])).Formed := by
      refine formed_of_within (.set open_ typed ?_) (.intro ?_ ?_)
      · exact List.forall_mem_cons.2 ⟨.null open_, List.forall_mem_singleton.2
          (.unknown open_ Refinement.coherent_unconstrained (Nat.zero_le _))⟩
      · refine List.pairwise_pair.2 fun merged => ?_
        cases isWhollyKnown_of_equal (sound_leaf (v := unknown .dynamic) rfl trivial)
          (sound_leaf (v := null .dynamic) rfl trivial) merged.2.2
      · exact List.forall_mem_cons.2
          ⟨sound_leaf rfl trivial, List.forall_mem_singleton.2 (sound_leaf rfl trivial)⟩
    have made : (bare (.set .dynamic [null .dynamic, unknown .dynamic])).WellMade := by
      refine .intro ?_ (List.forall_mem_cons.2 ⟨wellMade_null _,
        List.forall_mem_singleton.2 (wellMade_unknown _)⟩)
      exact List.forall_mem_cons.2
        ⟨⟨nullTy _, rfl⟩, List.forall_mem_singleton.2 ⟨ty_unknown _, rfl⟩⟩
    have ty_open : (bare (.set .dynamic [null .dynamic, unknown .dynamic])).ty = .set .dynamic := by
      simp only [bare, ty]
    have common : commonType? [null .dynamic, string "x"] = some .string := by
      simp [commonType?, types, nullTy, stringTy, commonTypeFrom?]
    have filled : Completes .empty Ty.Instantiates
        (bare (.set .dynamic [null .dynamic, unknown .dynamic]))
        (setOf .string [null .dynamic, string "x"]) := by
      have related : List.Forall₂ (Completes .empty Ty.Instantiates)
          [null .dynamic, unknown .dynamic] [null .dynamic, string "x"] :=
        .cons (.plain rfl rfl rfl)
          (.cons (Admissible.completes ⟨rfl, sound_leaf rfl trivial, .dynamic _⟩) .nil)
      exact .set rfl related.length_eq (fun _ _ _ => getElem?_of_forall₂ related)
        (set_of_common (by simp) common) rfl
    have formedNull : (null .number).Formed :=
      formed_of_within (.null ((Ty.everywhere_leaf rfl).2 structural.number))
        (sound_leaf rfl trivial)
    have affirmed : (bare (.set .dynamic [null .dynamic, unknown .dynamic])).hasElement
        (null .number) = .ok (bool true) := by cbv
    have missing : (setOf .string [null .dynamic, string "x"]).hasElement (null .number) =
        .ok (bool false) := by cbv
    exact claim _ .empty _ _ _ _ _ _ _ formed made formedNull ty_open filled
      (.plain rfl rfl rfl) affirmed missing rfl rfl

end Value

end ValueAlgebra
