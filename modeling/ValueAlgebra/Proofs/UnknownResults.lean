import ValueAlgebra.Proofs.RunParts

/-!
# Unknowns that are converted

`Value.convertUnknown` makes an unknown of the new type and tells it what is known about null and
about the number of elements. Where that leaves one value alone, this value is the result.

Main statements:

* `Value.convertUnknown_ok`: the result has the new type and is within the scope of the value.
* `Value.convertUnknown_error`: nothing goes wrong, unless a list of a fixed length has no room.
-/

namespace ValueAlgebra

open Refining

variable {S : Scope}

/-! ## Steps of refining -/

/-- An unknown of a type that is being refined. What is known is within a scope, and only a value of
height two is known not to be null. -/
structure Refining.Narrowed (S : Scope) (t : Ty) (n : Nat) (s : Refining) (r : Refinement) :
    Prop where
  value : s.value = .unknown t
  refinement : s.refinement = some r
  coherent : r.Coherent
  lengths : S.lengths r.minLength
  lower : r.lower = .lowest
  upper : r.upper = .highest
  height : r.nullness = .notNull → 2 ≤ n

namespace Refining

variable {t : Ty} {n : Nat} {s s' : Refining} {r : Refinement}

theorem Narrowed.ty (h : Narrowed S t n s r) : s.value.ty = t := by
  rw [h.value]
  simp only [Value.unknown, Value.refined, Value.bare, Value.ty]

theorem narrowed_refine (hS : S.Closed) (ht : t ≠ .dynamic) (n : Nat) :
    Narrowed S t n (Value.unknown t).refine .unconstrained := by
  refine ⟨rfl, ?_, Refinement.coherent_unconstrained, hS.empty, rfl, rfl, by intro h; cases h⟩
  have : (Value.unknown t).ty.isDynamic = false := by
    simp only [Value.unknown, Value.refined, Value.bare, Value.ty]
    cases t <;> first | rfl | exact absurd rfl ht
  simp only [Value.refine, this, Bool.and_false, Bool.false_eq_true, if_false]
  rfl

theorem Narrowed.notNull (h : Narrowed S t n s r) (hn : 2 ≤ n) :
    ∃ s' r', s.notNull = .ok s' ∧ Narrowed S t n s' r' ∧ r'.minLength = r.minLength ∧
      r'.maxLength = r.maxLength := by
  have hr := h.coherent.1
  refine ⟨{ s with refinement := some { r with nullness := .notNull } }, _, ?_,
    ⟨h.value, rfl, ⟨(by intro h; cases h), h.coherent.2⟩, h.lengths, h.lower, h.upper, fun _ => hn⟩, rfl, rfl⟩
  simp [Refining.notNull, narrow, h.refinement, hr, Except.map]

theorem Narrowed.lengthAtLeast_ok {min : Nat} (h : Narrowed S t n s r) (hl : S.lengths min)
    (hs : s.lengthAtLeast min = .ok s') : ∃ r', Narrowed S t n s' r' := by
  simp only [Refining.lengthAtLeast, narrow, h.refinement] at hs
  split at hs
  · cases hs
  split at hs
  · cases hs
    exact ⟨r, h.value, rfl, h.coherent, h.lengths, h.lower, h.upper, h.height⟩
  split at hs
  · cases hs
  · rename_i fits
    cases hs
    exact ⟨_, h.value, rfl, ⟨h.coherent.1, Nat.le_of_not_lt fits⟩, hl, h.lower, h.upper, h.height⟩

theorem Narrowed.lengthAtMost_ok {max : Nat} (h : Narrowed S t n s r)
    (hs : s.lengthAtMost max = .ok s') : ∃ r', Narrowed S t n s' r' := by
  simp only [Refining.lengthAtMost, narrow, h.refinement] at hs
  split at hs
  · cases hs
  split at hs
  · cases hs
    exact ⟨r, h.value, rfl, h.coherent, h.lengths, h.lower, h.upper, h.height⟩
  split at hs
  · cases hs
  · rename_i fits
    cases hs
    exact ⟨_, h.value, rfl, ⟨h.coherent.1, Nat.le_of_not_lt fits⟩, h.lengths, h.lower, h.upper,
      h.height⟩

/-- A lower bound that leaves room below the upper one is taken. -/
theorem Narrowed.lengthAtLeast_spec {min : Nat} (h : Narrowed S t n s r) (hl : S.lengths min)
    (ht : t.isCollection = true) (hr : r.minLength = 0) (hm : r.maxLength = none)
    (fits : min ≤ lengthLimit) :
    ∃ s' r', s.lengthAtLeast min = .ok s' ∧ Narrowed S t n s' r' ∧ r'.minLength = min := by
  simp only [Refining.lengthAtLeast, narrow, h.refinement, h.ty, ht, hr, hm]
  by_cases zero : min ≤ 0
  · refine ⟨s, r, ?_, h, by omega⟩
    have hs : { s with refinement := some r } = s := by rw [← h.refinement]
    simp [zero, Except.map, hs]
  · refine ⟨{ s with refinement := some { r with minLength := min } }, _, ?_,
      ⟨h.value, rfl, ⟨h.coherent.1, by simpa [hm] using fits⟩, hl, h.lower, h.upper, h.height⟩,
      rfl⟩
    simp [zero, Except.map, Nat.not_lt.2 fits, hm]

theorem Narrowed.lengthAtMost_spec {max : Nat} (h : Narrowed S t n s r)
    (ht : t.isCollection = true) (fits : r.minLength ≤ max) :
    ∃ s' r', s.lengthAtMost max = .ok s' ∧ Narrowed S t n s' r' := by
  simp only [Refining.lengthAtMost, narrow, h.refinement, h.ty, ht]
  by_cases small : r.maxLength.getD lengthLimit ≤ max
  · refine ⟨s, r, ?_, h⟩
    have hs : { s with refinement := some r } = s := by rw [← h.refinement]
    simp [small, Except.map, hs]
  · refine ⟨{ s with refinement := some { r with maxLength := some max } }, _, ?_,
      ⟨h.value, rfl, ⟨h.coherent.1, fits⟩, h.lengths, h.lower, h.upper, h.height⟩⟩
    simp [small, Except.map, Nat.not_lt.2 fits]

/-! ## Results of refining -/

theorem height_bare_unknown (r : Refinement) :
    (Value.bare (.unknown t r)).height ≤ if r.nullness = .notNull then 2 else 1 := by
  simp only [Value.bare, Value.height]
  exact Nat.le_refl _

/-- The one value that is left, if there is one. -/
theorem Narrowed.onlyResult (hS : S.Closed) (h : Narrowed S t n s r) (ht : t.Everywhere S.types)
    {w : Value} (hw : onlyResult? t r = .ok (some w)) :
    w.Within S ∧ w.ty = t ∧ 2 ≤ n ∧ w.height ≤ 2 := by
  have hu {e : Ty} (he : e.Everywhere S.types) := Value.within_unknown hS he
  have tyu (e : Ty) : (Value.unknown e).ty = e := by
    simp only [Value.unknown, Value.refined, Value.bare, Value.ty]
  have heightu (e : Ty) : (Value.unknown e).height = 1 := by
    simp [Value.unknown, Value.refined, Value.bare, Value.height, Refinement.unconstrained]
  unfold onlyResult? at hw
  split at hw
  · rename_i null
    exact absurd null h.coherent.1
  · cases hw
  · rw [h.lower, h.upper] at hw
    cases hw
  · rename_i e notNull
    have he := (Ty.everywhere_list.1 ht).2
    split at hw
    · cases hw
    split at hw
    · cases hw
    · cases hw
      refine ⟨.list he ?_ ?_, by simp only [Value.bare, Value.ty], h.height notNull, ?_⟩
      · intro v hv
        rw [List.eq_of_mem_replicate hv, tyu]
      · intro v hv
        rw [List.eq_of_mem_replicate hv]
        exact hu he
      · simp only [Value.bare, Value.height]
        refine Nat.succ_le_succ (Value.heightAll_le Nat.one_pos fun v hv => ?_)
        rw [List.eq_of_mem_replicate hv, heightu]
  · rename_i e notNull
    have he := (Ty.everywhere_set.1 ht).2
    split at hw <;> cases hw
    · refine ⟨.set he (by simp) (by simp), by simp only [Value.bare, Value.ty], h.height notNull, ?_⟩
      simp [Value.bare, Value.height, Value.heightAll]
    · refine ⟨.set he ?_ ?_, by simp only [Value.bare, Value.ty], h.height notNull, ?_⟩
      · intro v hv
        rw [List.mem_singleton.1 hv, tyu]
      · intro v hv
        rw [List.mem_singleton.1 hv]
        exact hu he
      · simp [Value.bare, Value.height, Value.heightAll, heightu]
  · rename_i e notNull
    have he := (Ty.everywhere_map.1 ht).2
    have hw := Except.ok.inj hw
    split at hw <;> cases hw
    refine ⟨.map he Names.proper_nil (by simp) (by simp), by simp only [Value.bare, Value.ty],
      h.height notNull, ?_⟩
    simp [Value.bare, Value.height, Value.heightEntries]
  · cases hw

theorem Narrowed.result_ok (hS : S.Closed) (h : Narrowed S t n s r) (hn : 0 < n)
    (ht : t.Everywhere S.types) {w : Value} (hw : s.result = .ok w) :
    w.Within S ∧ w.ty = t ∧ w.height ≤ n := by
  have hk : s.value.isKnown = false := by rw [h.value]; rfl
  simp only [result, hk, h.refinement, h.ty] at hw
  obtain ⟨only, ho, hw⟩ := bind_eq_ok hw
  cases only with
  | none =>
    cases hw
    refine ⟨(Value.Within.unknown ht h.coherent h.lengths).withMarks _, ?_, ?_⟩
    · rw [Value.ty_withMarks]
      simp only [Value.refined, Value.bare, Value.ty]
    · rw [Value.height_withMarks]
      refine Nat.le_trans (height_bare_unknown r) ?_
      split
      · rename_i notNull
        exact h.height notNull
      · exact hn
  | some v =>
    cases hw
    obtain ⟨hv, hty, hn, hh⟩ := h.onlyResult hS ht ho
    refine ⟨hv.withMarks _, ?_, ?_⟩
    · rw [Value.ty_withMarks, hty]
    · rw [Value.height_withMarks]
      omega

theorem Narrowed.result_error (h : Narrowed S t n s r) {fault : Fault}
    (hw : s.result = .error fault) :
    fault = .capacityOverflow ∧ S.lengths r.minLength ∧ listCapacity < r.minLength := by
  have hk : s.value.isKnown = false := by rw [h.value]; rfl
  simp only [result, hk, h.refinement, h.ty] at hw
  rcases bind_eq_error hw with hw | ⟨only, -, hw⟩
  · unfold onlyResult? at hw
    split at hw <;> try cases hw
    split at hw
    · cases hw
    split at hw <;> cases hw
    rename_i big
    exact ⟨rfl, h.lengths, big⟩
  · cases only <;> cases hw

end Refining

namespace Value

/-! ## Converted unknowns -/

/-- Tells an unknown whether the value that it is made of can be null. -/
def tellNull (v : Value) (s : Refining) : Except Fault Refining :=
  if v.range.definitelyNotNull then s.notNull else .ok s

/-- Tells an unknown of a collection type the bounds of the length of the value that it is made of.
A set may have fewer elements, but it is as empty as the value. -/
def tellLength (v : Value) (t : Ty) (s : Refining) : Except Fault Refining :=
  match t.isCollection, v.lengthBounds? with
  | true, some (lower, upper?) =>
    (s.lengthAtLeast (if t.isSet then min lower 1 else lower)).bind fun s =>
      match upper? with
      | some upper => s.lengthAtMost upper
      | none => .ok s
  | _, _ => .ok s

/-- The bounds of the length of an unknown value are within its scope and leave a length. -/
theorem lengthBounds?_spec (hS : S.Closed) {t : Ty} {r : Refinement}
    (h : (bare (.unknown t r)).Within S) {lower : Nat} {upper? : Option Nat}
    (hb : (bare (.unknown t r)).lengthBounds? = some (lower, upper?)) :
    S.lengths lower ∧ lower ≤ upper?.getD (max lower lengthLimit) := by
  cases h with
  | unknown ht hr hl =>
    have hrange : (bare (.unknown t r)).range.refinement = r := rfl
    have hc : r.minLength ≤ r.maxLength.getD (max r.minLength lengthLimit) := by
      have := hr.2
      cases hm : r.maxLength with
      | none => exact Nat.le_max_left ..
      | some m => simpa [hm] using this
    unfold lengthBounds? at hb
    rw [hrange] at hb
    simp only [bare, ty] at hb
    split at hb <;> cases hb
    · exact ⟨hl, hc⟩
    · exact ⟨hl, hc⟩
    · exact ⟨hl, hc⟩
    · exact ⟨hS.tuple _ ht.here, Nat.le_refl _⟩
    · exact ⟨hS.object _ _ ht.here, Nat.le_refl _⟩

theorem tellNull_spec (hS : S.Closed) {s t : Ty} {r : Refinement} (ht : t ≠ .dynamic) :
    ∃ refining r', tellNull (bare (.unknown s r)) (Value.unknown t).refine = .ok refining ∧
      Narrowed S t (bare (.unknown s r)).height refining r' ∧ r'.minLength = 0 ∧
      r'.maxLength = none := by
  have start := narrowed_refine hS ht (bare (.unknown s r)).height
  unfold tellNull
  split
  · rename_i notNull
    have hn : 2 ≤ (bare (.unknown s r)).height := by
      have : r.nullness = .notNull := by
        simpa [Range.definitelyNotNull, range, Refinement.ofContent, bare, content] using notNull
      simp [bare, height, this]
    obtain ⟨refining, r', hr, hs, hmin, hmax⟩ := start.notNull hn
    exact ⟨refining, r', hr, hs, hmin, hmax⟩
  · exact ⟨_, _, rfl, start, rfl, rfl⟩

theorem tellLength_ok (hS : S.Closed) {s t : Ty} {r r' : Refinement} {n : Nat}
    {refining result : Refining} (hv : (bare (.unknown s r)).Within S)
    (start : Narrowed S t n refining r')
    (h : tellLength (bare (.unknown s r)) t refining = .ok result) :
    ∃ r'', Narrowed S t n result r'' := by
  unfold tellLength at h
  split at h
  · rename_i lower upper? _ hb
    have hl := (lengthBounds?_spec hS hv hb).1
    have hm : S.lengths (if t.isSet then min lower 1 else lower) := by
      split
      · exact hS.shorter hl (Nat.min_le_left ..)
      · exact hl
    obtain ⟨s₁, h₁, h⟩ := bind_eq_ok h
    obtain ⟨r₁, n₁⟩ := start.lengthAtLeast_ok hm h₁
    cases upper? with
    | none =>
      cases h
      exact ⟨r₁, n₁⟩
    | some upper => exact n₁.lengthAtMost_ok h
  · cases h
    exact ⟨r', start⟩

/-- What is told about the length is never contradictory. -/
theorem tellLength_spec (hS : S.Closed) (limit : ∀ n, S.lengths n → n ≤ lengthLimit) {s t : Ty}
    {r r' : Refinement} {n : Nat} {refining : Refining} (hv : (bare (.unknown s r)).Within S)
    (start : Narrowed S t n refining r') (hmin : r'.minLength = 0) (hmax : r'.maxLength = none) :
    ∃ result, tellLength (bare (.unknown s r)) t refining = .ok result := by
  unfold tellLength
  split
  · rename_i lower upper? hc hb
    obtain ⟨hl, hu⟩ := lengthBounds?_spec hS hv hb
    have le : (if t.isSet then min lower 1 else lower) ≤ lower := by
      split
      · exact Nat.min_le_left ..
      · exact Nat.le_refl _
    have hm := hS.shorter hl le
    obtain ⟨s₁, r₁, h₁, n₁, min₁⟩ := start.lengthAtLeast_spec hm hc hmin hmax (limit _ hm)
    rw [h₁]
    cases upper? with
    | none => exact ⟨s₁, rfl⟩
    | some upper =>
      obtain ⟨s₂, -, h₂, -⟩ := @Narrowed.lengthAtMost_spec _ _ _ _ _ upper n₁ hc (min₁ ▸ Nat.le_trans le hu)
      exact ⟨s₂, h₂⟩
  · exact ⟨refining, rfl⟩

variable [Host]

theorem convertUnknown_of_dynamic {s target : Ty} {r : Refinement}
    (h : (s.isDynamic || (s.converted target).isDynamic) = true) :
    (bare (.unknown s r)).convertUnknown target = .ok (.unknown (s.converted target)) := by
  have hty : (bare (.unknown s r)).ty = s := by simp only [bare, ty]
  simp only [convertUnknown, hty, h, if_true]
  rfl

theorem convertUnknown_of_not_dynamic {s target : Ty} {r : Refinement}
    (h : ¬ (s.isDynamic || (s.converted target).isDynamic) = true) :
    (bare (.unknown s r)).convertUnknown target =
      (tellNull (bare (.unknown s r)) (Value.unknown (s.converted target)).refine).bind fun s' =>
        (tellLength (bare (.unknown s r)) (s.converted target) s').bind Refining.result := by
  have hty : (bare (.unknown s r)).ty = s := by simp only [bare, ty]
  simp only [convertUnknown, hty, if_neg h, tellNull, tellLength]
  cases (s.converted target).isCollection with
  | false => split <;> rfl
  | true =>
    rcases (bare (.unknown s r)).lengthBounds? with _ | ⟨lower, upper?⟩
    · split <;> rfl
    · have told (s' : Refining) (f : Refining → Except Fault Value) :
          ((s'.lengthAtLeast (if (s.converted target).isSet then min lower 1 else lower)) >>=
            fun s => match upper? with
              | some upper => s.lengthAtMost upper >>= f
              | none => pure s >>= f) =
          ((s'.lengthAtLeast (if (s.converted target).isSet then min lower 1 else lower)).bind
            fun s => match upper? with
              | some upper => s.lengthAtMost upper
              | none => .ok s).bind f := by
        cases upper? <;> cases s'.lengthAtLeast _ <;> rfl
      split
      · exact congrArg (Except.bind _) (funext fun s' => told s' Refining.result)
      · exact told _ Refining.result

/-- A converted unknown has the new type and is within the scope of the old one. -/
theorem convertUnknown_ok (hS : S.Closed) {s target : Ty} {r : Refinement} {w : Value}
    (hv : (bare (.unknown s r)).Within S) (ht : (s.converted target).Everywhere S.types)
    (h : (bare (.unknown s r)).convertUnknown target = .ok w) :
    w.Within S ∧ w.ty = s.converted target ∧ w.height ≤ (bare (.unknown s r)).height := by
  by_cases open_ : (s.isDynamic || (s.converted target).isDynamic) = true
  · rw [convertUnknown_of_dynamic open_] at h
    cases h
    refine ⟨within_unknown hS ht, by simp only [unknown, refined, bare, ty], ?_⟩
    exact Nat.le_trans (height_bare_unknown _) (height_pos _)
  · rw [convertUnknown_of_not_dynamic open_] at h
    have hne : s.converted target ≠ .dynamic := fun eq => by simp [eq, Ty.isDynamic] at open_
    obtain ⟨s₁, h₁, h⟩ := bind_eq_ok h
    obtain ⟨s₂, h₂, h⟩ := bind_eq_ok h
    obtain ⟨_, r₁, eq, n₁, -, -⟩ := tellNull_spec (s := s) (r := r) hS hne
    rw [eq] at h₁
    cases h₁
    obtain ⟨r₂, n₂⟩ := tellLength_ok hS hv n₁ h₂
    exact n₂.result_ok hS (height_pos _) ht h

/-- An unknown is converted, unless a list of a fixed length has no room for its elements. -/
theorem convertUnknown_error (hS : S.Closed) (limit : ∀ n, S.lengths n → n ≤ lengthLimit)
    {s target : Ty} {r : Refinement} {fault : Fault} (hv : (bare (.unknown s r)).Within S)
    (h : (bare (.unknown s r)).convertUnknown target = .error fault) :
    fault = .capacityOverflow ∧ ∃ n, S.lengths n ∧ listCapacity < n := by
  by_cases open_ : (s.isDynamic || (s.converted target).isDynamic) = true
  · rw [convertUnknown_of_dynamic open_] at h
    cases h
  · rw [convertUnknown_of_not_dynamic open_] at h
    have hne : s.converted target ≠ .dynamic := fun eq => by simp [eq, Ty.isDynamic] at open_
    obtain ⟨s₁, r₁, h₁, n₁, hmin, hmax⟩ := tellNull_spec (s := s) (r := r) hS hne
    obtain ⟨s₂, h₂⟩ := tellLength_spec hS limit hv n₁ hmin hmax
    obtain ⟨r₂, n₂⟩ := tellLength_ok hS hv n₁ h₂
    rw [h₁] at h
    change (tellLength _ _ s₁).bind Refining.result = _ at h
    rw [h₂] at h
    obtain ⟨rfl, hl, big⟩ := n₂.result_error h
    exact ⟨rfl, _, hl, big⟩

end Value

end ValueAlgebra
