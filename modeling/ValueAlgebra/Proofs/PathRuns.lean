import ValueAlgebra.Proofs.ErrorPaths
import ValueAlgebra.Proofs.Obtained

/-!
# Following paths

A path is followed step by step. A step leads to a part, or nowhere with a complaint, and a path
stops at the first step that leads nowhere, with the steps before it as the path of the complaint
(`Path.Ending`). Before it looks an element up, a step makes sure that the value is not null, that
the key is of the right type and that there is an element. This leaves out one case: for a null key
`Value.hasIndex` answers of an unknown map that it is undecided, and `Value.index` refuses the key.
So a step by a null string traps in an unknown map (`Step.Traps`), and nothing else does.

Main statements:

* `Step.apply_cases`: a step leads somewhere or nowhere unless it traps.
* `Path.apply_ending`: where following a path ends, by induction from the back.
* `Path.apply_total`: the traps are all that goes wrong, and paths compose.
-/

namespace ValueAlgebra

open Value

/-! ## One step -/

namespace Step

variable {v key : Value} {step : Step} {name : String} {fault : Fault}

/-- A step by a null string in an unknown map. -/
inductive Traps : Step → Value → Prop
  | nullKey {key v : Value} {e : Ty} {r : Refinement} (hk : key.content = .null .string)
    (hv : v.content = .unknown (.map e) r) : Traps (.index key) v

/-- A step to an attribute leads somewhere or nowhere. -/
theorem applyAttr_ne_error : applyAttr v name ≠ .error fault := by
  intro h
  unfold applyAttr at h
  split at h
  · cases h
  rename_i present
  have attr (declared : name ∈ v.ty.partNames) : v.attr name ≠ .error fault := fun failed =>
    present (isNull_of_attr_error failed declared)
  cases hv : v.ty with
  | object attributes optional | union variants =>
    rw [hv] at h attr
    dsimp only at h
    split at h
    · rename_i named
      exact attr (List.contains_iff_mem.1 named) (ValueAlgebra.map_eq_error h)
    · cases h
  | _ =>
    rw [hv] at h
    cases h

/-- Where the answer announces what the lookup does, the step leads to the element or nowhere. -/
theorem applyKey_of_announces (told : Announces (v.hasIndex key) (v.index key)) :
    (∃ w, applyKey v key = .ok (.part w)) ∨ applyKey v key = .ok (.nowhere .noElement) := by
  unfold applyKey
  generalize v.hasIndex key = asked at told
  generalize v.index key = got at told
  cases told with
  | @found answer w yes =>
    left
    obtain ⟨m, c⟩ := answer
    cases yes
    exact ⟨w, rfl⟩
  | @missing answer fault no =>
    right
    obtain ⟨m, c⟩ := answer
    cases no
    rfl
  | @undecided answer w open_ unknown =>
    left
    obtain ⟨m, c⟩ := answer
    cases c <;> cases open_
    exact ⟨w, rfl⟩

/-- The step leads nowhere where no element is announced. -/
theorem applyKey_of_missing (h : v.unmark.hasIndexBare key.unmark = .ok (bool false)) :
    applyKey v key = .ok (.nowhere .noElement) := by
  rw [applyKey, hasIndex, h]
  rfl

/-- With a key of the type that it has elements at, a value other than null is taken a step from, or
the step traps. -/
theorem applyKey_cases (present : v.isNull = false) (ht : v.ty.key? = some key.ty) :
    (∃ outcome, applyKey v key = .ok outcome) ∨ Traps (.index key) v := by
  have closed : key.ty ≠ .dynamic := by
    intro eq
    cases hv : v.ty <;> rw [hv, eq] at ht <;> cases ht
  by_cases hm : Misleads v.content key.content
  · obtain ⟨m, c⟩ := v
    obtain ⟨k, d⟩ := key
    simp only [content] at hm
    cases hm with
    | nullTuple => cases present
    | @unknownList e r n hn =>
      have missing : (bare (.unknown (.list e) r)).hasIndexBare (bare (.number n)) =
          .ok (bool false) := by simp [hasIndexBare, bare, ty, content, hn]
      exact .inl ⟨_, applyKey_of_missing missing⟩
    | unknownMap => exact .inr (.nullKey rfl rfl)
  · refine .inl ?_
    rcases applyKey_of_announces ((announces_iff ht closed).2 hm) with ⟨w, eq⟩ | eq
    · exact ⟨_, eq⟩
    · exact ⟨_, eq⟩

/-- A step leads somewhere or nowhere unless it traps. -/
theorem apply_cases (v : Value) (step : Step) :
    (∃ outcome, step.apply v = .ok outcome) ∨ step.Traps v := by
  cases step with
  | attr name =>
    cases h : applyAttr v name with
    | error => exact (applyAttr_ne_error h).elim
    | ok outcome => exact .inl ⟨outcome, h⟩
  | index key =>
    rw [apply, applyIndex]
    split
    · exact .inl ⟨_, rfl⟩
    rename_i present
    rw [Bool.not_eq_true] at present
    cases hk : key.ty with
    | number =>
      dsimp only
      split
      · rename_i seq
        refine applyKey_cases present ?_
        cases hv : v.ty <;> rw [hv] at seq <;> first | exact hk ▸ rfl | cases seq
      · exact .inl ⟨_, rfl⟩
    | string =>
      dsimp only
      split
      · rename_i map
        refine applyKey_cases present ?_
        cases hv : v.ty <;> rw [hv] at map <;> first | exact hk ▸ rfl | cases map
      · exact .inl ⟨_, rfl⟩
    | _ => exact .inl ⟨_, rfl⟩

/-- In a trap the lookup refuses the key. -/
theorem Traps.apply_eq (trap : step.Traps v) : step.apply v = .error .nullKey := by
  cases trap with
  | @nullKey key v e r hk hv =>
    obtain ⟨m, c⟩ := v
    obtain ⟨k, d⟩ := key
    cases hk
    cases hv
    rfl

end Step

/-! ## Runs -/

namespace Path

variable {v u w : Value} {p q : Path} {step : Step} {steps rest done : List Step}

/-- Where following a path from a value ends. -/
inductive Ending (p : Path) (v : Value) : Except Failure Value → Prop
  | arrived (w : Value) : Ending p v (.ok w)
  /-- The value that the steps before have led to has nothing where the step goes. -/
  | stuck {i : Nat} {step : Step} {u : Value} {problem : StepProblem} (h : p.steps[i]? = some step)
    (reached : apply ⟨p.steps.take i⟩ v = .ok u) (nowhere : step.apply u = .ok (.nowhere problem)) :
    Ending p v (.error (.path ⟨⟨p.steps.take i⟩, .step i problem⟩))
  | trapped {i : Nat} {step : Step} {u : Value} (h : p.steps[i]? = some step)
    (reached : apply ⟨p.steps.take i⟩ v = .ok u) (trap : step.Traps u) :
    Ending p v (.error (.fault .nullKey))

/-- A path that goes on is followed from where its start has led to. -/
theorem applyFrom_append : applyFrom done v (steps ++ rest) =
    (applyFrom done v steps).bind fun u => applyFrom (done ++ steps) u rest := by
  induction steps generalizing done v with
  | nil => simp [applyFrom, Except.bind]
  | cons step steps ih =>
    rw [List.cons_append, applyFrom, applyFrom]
    cases step.apply v with
    | error => rfl
    | ok outcome =>
      cases outcome with
      | nowhere => rfl
      | part w =>
        dsimp only
        rw [ih, List.append_assoc, List.singleton_append]

/-- What was followed before shows in complaints alone. -/
theorem applyFrom_ok_iff : applyFrom done v steps = .ok w ↔ applyFrom [] v steps = .ok w := by
  have carried (done others : List Step) {v : Value} (h : applyFrom done v steps = .ok w) :
      applyFrom others v steps = .ok w := by
    induction steps generalizing done others v with
    | nil => exact h
    | cons step steps ih =>
      rw [applyFrom] at h ⊢
      cases hs : step.apply v with
      | error => simp [hs] at h
      | ok outcome =>
        rw [hs] at h
        cases outcome with
        | nowhere => cases h
        | part x => exact ih _ _ h
  exact ⟨carried _ _, carried _ _⟩

/-- A path and another one after it lead where the second leads from where the first has led to. -/
theorem apply_append : (p ++ q).apply v = .ok w ↔ ∃ u, p.apply v = .ok u ∧ q.apply u = .ok w := by
  change applyFrom [] v (p.steps ++ q.steps) = .ok w ↔
    ∃ u, applyFrom [] v p.steps = .ok u ∧ applyFrom [] u q.steps = .ok w
  rw [applyFrom_append]
  constructor
  · intro h
    obtain ⟨u, hu, hw⟩ := bind_eq_ok h
    exact ⟨u, hu, applyFrom_ok_iff.1 hw⟩
  · rintro ⟨u, hu, hw⟩
    rw [hu]
    exact applyFrom_ok_iff.2 hw

/-- The steps after a trap are not followed. -/
theorem apply_of_traps {i : Nat} (h : p.steps[i]? = some step)
    (reached : apply ⟨p.steps.take i⟩ v = .ok u) (trap : step.Traps u) :
    p.apply v = .error (.fault .nullKey) := by
  have split : p.steps = p.steps.take i ++ step :: p.steps.drop (i + 1) := by
    obtain ⟨within, rfl⟩ := List.getElem?_eq_some_iff.1 h
    rw [List.getElem_cons_drop, List.take_append_drop]
  rw [apply, split, applyFrom_append, show applyFrom [] v (p.steps.take i) = .ok u from reached]
  simp only [Except.bind, applyFrom, trap.apply_eq]

/-- A path that has stopped does not go on. -/
theorem Ending.push {failure : Failure} (h : Ending ⟨steps⟩ v (.error failure)) (step : Step) :
    Ending ⟨steps ++ [step]⟩ v (.error failure) := by
  have before {i : Nat} {earlier : Step} (h : steps[i]? = some earlier) :
      (steps ++ [step])[i]? = some earlier ∧ (steps ++ [step]).take i = steps.take i := by
    have within : i < steps.length := (List.getElem?_eq_some_iff.1 h).1
    exact ⟨(List.getElem?_append_left within).trans h,
      List.take_append_of_le_length (Nat.le_of_lt within)⟩
  cases h with
  | stuck h reached nowhere =>
    obtain ⟨at_, same⟩ := before h
    have ending := Ending.stuck (p := ⟨steps ++ [step]⟩) at_ (same ▸ reached) nowhere
    rw [same] at ending
    exact ending
  | trapped h reached trap =>
    obtain ⟨at_, same⟩ := before h
    exact .trapped at_ (same ▸ reached) trap

/-- Following a path ends at a part, at the first step that leads nowhere, or in a trap. -/
theorem apply_ending (p : Path) (v : Value) : Ending p v (p.apply v) := by
  obtain ⟨steps⟩ := p
  induction steps using List.reverseRecOn with
  | nil => exact .arrived v
  | append_singleton steps step ih =>
    rw [apply, applyFrom_append]
    cases reached : applyFrom [] v steps with
    | error failure =>
      rw [apply, reached] at ih
      exact ih.push step
    | ok u =>
      have last : (steps ++ [step])[steps.length]? = some step := by simp
      have reached : apply ⟨(steps ++ [step]).take steps.length⟩ v = .ok u := by
        rw [List.take_left]
        exact reached
      simp only [Except.bind, applyFrom, List.nil_append]
      rcases step.apply_cases u with ⟨outcome, hs⟩ | trap
      · rw [hs]
        cases outcome with
        | part w => exact .arrived w
        | nowhere problem =>
          have ending := Ending.stuck last reached hs
          rw [List.take_left] at ending
          exact ending
      · rw [trap.apply_eq]
        exact .trapped last reached trap

/-- Following a path leads to a part, or stops with the steps before the one that leads nowhere,
unless it comes to a trap. A path made of two leads where the second leads from where the first
leads. -/
theorem apply_total (p : Path) (v : Value) :
    Ending p v (p.apply v) ∧
      ((∃ fault, p.apply v = .error (.fault fault)) ↔
        ∃ i step u, p.steps[i]? = some step ∧ apply ⟨p.steps.take i⟩ v = .ok u ∧ step.Traps u) ∧
      ∀ q w, (p ++ q).apply v = .ok w ↔ ∃ u, p.apply v = .ok u ∧ q.apply u = .ok w := by
  refine ⟨apply_ending p v, ⟨?_, ?_⟩, fun q w => apply_append⟩
  · rintro ⟨fault, failed⟩
    have ending := apply_ending p v
    rw [failed] at ending
    cases ending with
    | trapped h reached trap => exact ⟨_, _, _, h, reached, trap⟩
  · rintro ⟨i, step, u, h, reached, trap⟩
    exact ⟨.nullKey, apply_of_traps h reached trap⟩

/-- A null key in an unknown map. -/
theorem apply_null_key : (⟨[.index (null .string)]⟩ : Path).apply (unknown (.map .number)) =
    .error (.fault .nullKey) :=
  rfl

end Path

end ValueAlgebra
