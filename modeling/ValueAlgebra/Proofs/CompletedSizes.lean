import ValueAlgebra.Proofs.Agreement
import ValueAlgebra.Proofs.Collapse
import ValueAlgebra.Proofs.CompletedEquality
import ValueAlgebra.Proofs.ArithmeticBounds

/-!
# Lengths and completions

A completion has one of the lengths that the range of a value has. Only sets make this an argument:
elements that are not wholly known may turn out to be equal to others, while those that are wholly
known stay apart, for equal completions would have been equal before. So an unknown length, which
`Value.length` answers for unknown collections and for sets with unknown elements, is completed by
the length that there is in the end.

Main statements:

* `Value.meetsLength_completed_set`: a completed set has as many elements as its range says.
* `Value.meetsLength_of_size`: the same for all values.
* `Value.lengthBare_completed`: the length of a completion completes the length.
-/

namespace ValueAlgebra

open Entries

theorem Ty.ne_dynamic {t : Ty} (closed : t.hasDynamic = false) : t ≠ .dynamic := by
  rintro rfl
  cases closed

namespace Value

variable [Host] {heap : Heap} {a u v w x : Value} {xs xs' : List Value} {e : Ty} {n : Nat}

/-! ## Wholly known elements -/

/-- A wholly known value with no open part of its type is known to be equal to itself. -/
theorem equal_refl (hv : v.Sound .empty) (known : v.isWhollyKnown = true)
    (closed : v.hasWhollyKnownType = true) : Equal v v := by
  have none {P : CapsuleType → Payload → Prop} : v.Capsules P := hv.mono fun w here c p hw => by
    obtain ⟨m, d⟩ := w
    cases hw
    exact here.2.1.elim
  exact (merged_of_same (sameBy_refl none) known closed none).2

/-- The elements of a set that are wholly known. -/
theorem Formed.knownElements (ha : a.Formed) (closed : a.hasWhollyKnownType = true)
    (hc : a.content = .set e xs) : Elements (xs.filter isWhollyKnown) where
  formed x hx := ha.inside (hc ▸ List.mem_of_mem_filter hx)
  known x hx := (List.mem_filter.1 hx).2
  closed x hx := hasWhollyKnownType_of_mem_parts closed (hc ▸ List.mem_of_mem_filter hx)
  distinct := by
    have lawful := ha.2.here
    rw [hc] at lawful
    exact lawful.filter _

/-- The elements of a completed set are completions without marks. -/
theorem mem_completed_set {z : Value}
    (h : z ∈ (RuleSet.ofList (ValueRules.mk e) (xs'.map unmarkDeep)).values) :
    ∃ x' ∈ xs', x'.unmarkDeep = z :=
  List.mem_map.1 (RuleSet.mem_of_mem_ofList h)

/-- Each completion of an element is kept in a completed set, or equal to one that is. -/
theorem exists_merged (h : x ∈ xs') :
    ∃ z ∈ (RuleSet.ofList (ValueRules.mk e) (xs'.map unmarkDeep)).values,
      z = x.unmarkDeep ∨ Equal z x.unmarkDeep := by
  obtain ⟨ps, -, perm, -, covered⟩ :=
    RuleSet.exists_kept (ValueRules.mk e) unmarkDeep xs'
  rcases covered x h with kept | ⟨p, hp, merge⟩
  · exact ⟨_, perm.mem_iff.2 (List.mem_map_of_mem kept), .inl rfl⟩
  · refine ⟨_, perm.mem_iff.2 (List.mem_map_of_mem hp), .inr ?_⟩
    exact equal_unmarkDeep.2 (equal_of_merge merge)

/-- Wholly known elements of a set stay apart in its completions. -/
theorem countP_le_length_completed (ha : a.Formed) (closed : a.hasWhollyKnownType = true)
    (hc : a.content = .set e xs) (related : List.Forall₂ (Completes heap Ty.Instantiates) xs xs') :
    xs.countP isWhollyKnown ≤
      (RuleSet.ofList (ValueRules.mk e) (xs'.map unmarkDeep)).values.length := by
  have hx := ha.knownElements closed hc
  have laws := equalityLaws heap
  have sound {x x' : Value} (hxs : x ∈ xs) (h : Completes heap Ty.Instantiates x x') :
      x'.unmarkDeep.Sound heap := (h.sound (ha.inside (hc ▸ hxs)).2).unmarkDeep
  rw [List.countP_eq_length_filter]
  refine length_le_of_found
    (R := fun x z => ∃ x', Completes heap Ty.Instantiates x x' ∧ Equal z x'.unmarkDeep) ?_ ?_
  · intro x hxs
    obtain ⟨x', hx', completes⟩ := exists_right_of_forall₂ related (List.mem_of_mem_filter hxs)
    obtain ⟨z, hz, merged⟩ := exists_merged (e := e) hx'
    refine ⟨z, hz, x', completes, ?_⟩
    rcases merged with rfl | equal
    · have formed := hx.formed x hxs
      have self := equal_refl formed.2 (hx.known x hxs) (hx.closed x hxs)
      exact equal_unmarkDeep.2 (equal_of_completes formed formed self completes completes)
    · exact equal
  · refine hx.distinct.imp_of_mem ?_
    rintro x y hxs hys apart z hz ⟨x', hx', equal⟩ ⟨y', hy', equal'⟩
    obtain ⟨w', hw', rfl⟩ := mem_completed_set hz
    obtain ⟨w, hws, completes⟩ := exists_left_of_forall₂ related hw'
    have sw := sound hws completes
    have sx := sound (List.mem_of_mem_filter hxs) hx'
    have sy := sound (List.mem_of_mem_filter hys) hy'
    have same : Equal x' y' :=
      equal_unmarkDeep.1 (laws.trans sx sw sy (laws.equal_symm sw sx equal) equal')
    exact apart (hx.merged reflects (hx.formed x hxs) (hx.formed y hys) hxs hys hx' hy' same)

/-- A set has at least as many elements when it is completed as are wholly known, and one if it has
any. It has no more than before. -/
theorem meetsLength_completed_set (ha : a.Formed) (closed : a.hasWhollyKnownType = true)
    (hc : a.content = .set e xs) (related : List.Forall₂ (Completes heap Ty.Instantiates) xs xs') :
    Refinement.Meets.MeetsLength (.ofContent (.set e xs))
      (RuleSet.ofList (ValueRules.mk e) (xs'.map unmarkDeep)).values.length := by
  constructor
  · change (if xs.isEmpty then 0 else max (xs.countP isWhollyKnown) 1) ≤ _
    split
    · exact Nat.zero_le _
    rename_i filled
    refine Nat.max_le.2 ⟨countP_le_length_completed ha closed hc related, ?_⟩
    obtain ⟨x, hx⟩ := List.exists_mem_of_ne_nil xs (by simpa using filled)
    obtain ⟨x', hx', -⟩ := exists_right_of_forall₂ related hx
    obtain ⟨z, hz, -⟩ := exists_merged (e := e) hx'
    exact List.length_pos_of_mem hz
  · intro max eq
    cases eq
    obtain ⟨ps, sublist, perm, -⟩ := RuleSet.exists_kept (ValueRules.mk e) unmarkDeep xs'
    rw [perm.length_eq, List.length_map, related.length_eq]
    exact sublist.length_le

/-- A value of a type without open parts that is there is completed part by part. -/
theorem Formed.completed (hu : u.Formed) (closed : u.ty.hasDynamic = false) (present : u.Present)
    (h : Completes heap Ty.Instantiates u w) : Completed heap u.content w.content :=
  h.completed hu.1 hu.2 ⟨present, hasWhollyKnownType_of_ty hu.1 closed⟩

/-- The length of a completed collection is one that the range of the collection has. -/
theorem meetsLength_of_completes (hu : u.Formed) (closed : u.ty.hasDynamic = false)
    (sized : u.ty.isCollection = true) (h : Completes heap Ty.Instantiates u w) (hw : w.Present) :
    Refinement.Meets.MeetsLength u.range.refinement w.content.parts.length := by
  have range : u.range.refinement = .ofContent u.content := rfl
  rw [range]
  rcases cases_present u with ⟨t, r, hc⟩ | ⟨t, hc⟩ | present
  · obtain ⟨type, meets⟩ := h.of_unknown hc
    rw [ty_of_content (w := bare (.unknown t r)) hc, bare, ty] at sized closed
    have sized : w.ty.isCollection = true := (type.eq_of_hasDynamic closed).symm ▸ sized
    rw [hc]
    obtain ⟨m, c⟩ := w
    cases c with
    | list | set => exact meets.2
    | map e entries =>
      rw [content, Content.parts, Entries.values, List.length_map]
      exact meets.2
    | unknown => cases hw.1
    | null => cases hw.2
    | _ =>
      rw [ty] at sized
      cases sized
  · exact absurd (h.null hc) hw.not_null
  · have completed := hu.completed closed present h
    have same {n k : Nat} (eq : n = k) : Refinement.Meets.MeetsLength (.exactLength k) n :=
      (meetsLength_iff_eq rfl).2 eq
    have set {e : Ty} {xs xs' : List Value} (hc : u.content = .set e xs)
        (related : List.Forall₂ (Completes heap Ty.Instantiates) xs xs') :=
      meetsLength_completed_set hu (hasWhollyKnownType_of_ty hu.1 closed) hc related
    obtain ⟨m, c⟩ := u
    obtain ⟨m', d⟩ := w
    simp only [content] at completed set ⊢
    cases completed with
    | matched matched =>
      cases matched with
      | list related => exact same related.length_eq.symm
      | map hn related =>
        refine same ?_
        rw [Content.parts, ← related.length_eq, Entries.values, List.length_map]
      | number | string | bool | tuple | object | union =>
        rw [ty] at sized
        cases sized
    | set related => exact set rfl related

omit [Host] in
/-- The range of what is no collection has all lengths. -/
theorem meetsLength_of_not_collection (made : u.WellMade) (sized : u.ty.isCollection = false) :
    Refinement.Meets.MeetsLength u.range.refinement n := by
  have free {r : Refinement} (h : r.minLength = 0 ∧ r.maxLength = none) :
      Refinement.Meets.MeetsLength r n := by
    rw [Refinement.Meets.MeetsLength, h.1, h.2]
    exact ⟨Nat.zero_le n, fun _ none => by cases none⟩
  have here := made.here
  obtain ⟨m, c⟩ := u
  refine free ?_
  cases c with
  | unknown t r =>
    rcases here with rfl | ⟨-, apt, -⟩
    · exact ⟨rfl, rfl⟩
    · exact apt.sized sized
  | list | set | map =>
    rw [ty] at sized
    cases sized
  | _ => exact ⟨rfl, rfl⟩

omit [Host] in
theorem present_of_size? (h : size? v.content = some n) : v.Present := by
  obtain ⟨m, c⟩ := v
  cases c <;> cases h <;> exact ⟨rfl, rfl⟩

omit [Host] in
theorem length_parts_of_size? {c : Content} (h : size? c = some n) : c.parts.length = n := by
  cases c with
  | list | tuple | set => exact Option.some.inj h
  | map e entries | object entries =>
    rw [Content.parts, Entries.values, List.length_map]
    exact Option.some.inj h
  | _ => cases h

/-- The size of a completion is a length that the range has. -/
theorem meetsLength_of_size (hu : u.Formed) (made : u.WellMade) (closed : u.ty.hasDynamic = false)
    (h : Completes heap Ty.Instantiates u w) (hn : size? w.content = some n) :
    Refinement.Meets.MeetsLength u.range.refinement n := by
  cases sized : u.ty.isCollection with
  | false => exact meetsLength_of_not_collection made sized
  | true =>
    rw [← length_parts_of_size? hn]
    exact meetsLength_of_completes hu closed sized h (present_of_size? hn)

/-- A number that a value admits completes it. -/
theorem Admits.completes {x : Number} (h : u.Admits x) (hw : w.content = .number x) :
    Completes heap Ty.Instantiates u w := by
  rcases admits_cases h with hc | ⟨r, hc, notNull, lower, upper⟩
  · exact .plain (isKnown_of_content (w := number x) hc) (hc ▸ rfl) (hw.trans hc.symm)
  · refine .unknown hc ?_ ?_ ?_ ?_
    · exact isWhollyKnown_of_content (w := number x) hw
    · exact Sound.of_content (a := number x) (.intro trivial (List.forall_mem_nil _)) hw
    · rw [ty_of_content (w := number x) hw]
      exact .number
    · rw [hw]
      exact ⟨notNull, lower, upper⟩

/-! ## Answers -/

omit [Host] in
/-- The length of what is no tuple is counted, or left open within the range. -/
theorem lengthBare_eq (tuple : ∀ ts, v.ty ≠ .tuple ts) (typed : v.ty ≠ .dynamic) :
    v.lengthBare =
      if !v.isKnown || (v.ty.isSet && !v.isWhollyKnown) then
        numberBetween (some ⟨.ofInt v.range.refinement.minLength, true⟩)
          (v.range.refinement.maxLength.map fun max : Nat => ⟨.ofInt max, true⟩)
      else v.size.map ofNat := by
  unfold lengthBare
  split
  · exact absurd ‹_› (tuple _)
  · exact absurd ‹_› typed
  · dsimp only
    cases v.range.refinement.maxLength <;> rfl

omit [Host] in
/-- Elements of what is wholly known are counted. -/
theorem size?_of_lengthBare (tuple : ∀ ts, v.ty ≠ .tuple ts) (typed : v.ty ≠ .dynamic)
    (known : v.isWhollyKnown = true) (h : v.lengthBare = .ok w) :
    ∃ n, size? v.content = some n ∧ w = ofNat n := by
  rw [lengthBare_eq tuple typed, known, (isWhollyKnown_iff.1 known).1] at h
  simp only [Bool.not_true, Bool.and_false, Bool.or_self, Bool.false_eq_true, if_false] at h
  cases hs : v.size with
  | error fault =>
    rw [hs] at h
    cases h
  | ok n =>
    rw [hs] at h
    cases h
    exact ⟨n, reading_eq_ok hs, rfl⟩

/-- A completion has as many elements as there were, if those of a set can be told apart. -/
theorem size?_of_completes (hu : u.Formed) (closed : u.ty.hasDynamic = false)
    (h : Completes heap Ty.Instantiates u w) (known : u.ty.isSet = true → u.isWhollyKnown = true)
    (hn : size? u.content = some n) : size? w.content = some n := by
  have completed := hu.completed closed (present_of_size? hn) h
  have sets {e : Ty} {xs xs' : List Value} (hc : u.content = .set e xs)
      (related : List.Forall₂ (Completes heap Ty.Instantiates) xs xs') :
      (RuleSet.ofList (ValueRules.mk e) (xs'.map unmarkDeep)).values.length = xs.length := by
    have type : u.ty = .set e := ty_of_content (w := bare (.set e xs)) hc
    have whole : allWhollyKnown xs = true :=
      allWhollyKnown_iff.2 fun x hx => (isWhollyKnown_iff.1 (known (type ▸ rfl))).2 x (hc ▸ hx)
    have least := Refinement.minLength_set_eq (e := e) (by rw [whole, Bool.true_or])
    rw [← least]
    refine (meetsLength_iff_eq ?_).1 (meetsLength_completed_set hu
      (hasWhollyKnownType_of_ty hu.1 closed) hc related)
    rw [least]
    rfl
  generalize u.content = c at completed sets hn
  generalize w.content = d at completed
  cases completed with
  | matched same =>
    rw [← hn]
    cases same with
    | list related | tuple related => exact congrArg some related.length_eq.symm
    | map names related | object names related =>
      rw [size?, size?, ← length_names, ← names, length_names]
    | _ => rfl
  | set related => exact (congrArg some (sets rfl related)).trans hn

omit [Host] in
/-- Where the length is left open, the answer may be any length within the range. -/
theorem admits_of_lengths {r : Refinement} (meets : Refinement.Meets.MeetsLength r n)
    (h : numberBetween (some ⟨.ofInt r.minLength, true⟩)
      (r.maxLength.map fun max : Nat => ⟨.ofInt max, true⟩) = .ok v) : v.Admits (.ofInt n) := by
  have counts {i j : Nat} : Number.ofInt i ≤ Number.ofInt j ↔ i ≤ j := by
    simp only [Number.ofInt, Number.finite_le_finite, Int.cast_natCast, Nat.cast_le]
  have lower : ((some ⟨.ofInt r.minLength, true⟩ : Option Bound).getD .lowest).admitsAbove
      (.ofInt n) = true := by
    simpa [Bound.admitsAbove, counts] using meets.1
  have upper : ((r.maxLength.map fun max : Nat => (⟨.ofInt max, true⟩ : Bound)).getD
      .highest).admitsBelow (.ofInt n) = true := by
    cases hm : r.maxLength with
    | none => exact Bound.admitsBelow_highest _
    | some max => simpa [Bound.admitsBelow, counts] using meets.2 max hm
  obtain ⟨w, hw, admits⟩ := numberBetween_ok lower upper
  cases hw.symm.trans h
  exact admits

/-- The length of a completion completes the length. -/
theorem lengthBare_completed (hu : u.Formed) (made : u.WellMade) (closed : u.ty.hasDynamic = false)
    (h : Completes heap Ty.Instantiates u w) {b : Value} (ha : u.lengthBare = .ok a)
    (hb : w.lengthBare = .ok b) : Completes heap Ty.Instantiates a b := by
  have type := h.ty_eq hu.1 closed
  by_cases tuple : ∃ ts, u.ty = .tuple ts
  · obtain ⟨ts, ht⟩ := tuple
    simp only [lengthBare, type, ht] at ha hb
    cases ha
    cases hb
    exact .plain rfl rfl rfl
  have tuple : ∀ ts, u.ty ≠ .tuple ts := fun ts ht => tuple ⟨ts, ht⟩
  have typed : u.ty ≠ .dynamic := Ty.ne_dynamic closed
  obtain ⟨n, hn, rfl⟩ := size?_of_lengthBare (type ▸ tuple) (type ▸ typed) h.isWhollyKnown hb
  rw [lengthBare_eq tuple typed] at ha
  split at ha
  · exact (admits_of_lengths (meetsLength_of_size hu made closed h hn) ha).completes rfl
  · rename_i counted
    have whole (set : u.ty.isSet = true) : u.isWhollyKnown = true := by
      rw [set, Bool.true_and, Bool.or_eq_true, not_or] at counted
      simpa using counted.2
    cases hs : u.size with
    | error fault =>
      rw [hs] at ha
      cases ha
    | ok m =>
      rw [hs] at ha
      cases ha
      have same := size?_of_completes hu closed h whole (reading_eq_ok hs)
      cases hn.symm.trans same
      exact .plain rfl rfl rfl

end Value

end ValueAlgebra
