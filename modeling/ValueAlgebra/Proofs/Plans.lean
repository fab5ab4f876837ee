import ValueAlgebra.Conversion.Resolve
import ValueAlgebra.Proofs.Filling

/-!
# What plans of conversions are made of

`Rule.Planned mode s t rule` lists the rules that `Rule.between?` can plan from a type to another,
with what is known about the plans of the parts. Proofs about planned conversions go by its cases
and leave the planning functions closed.

Main statements:

* `Rule.planned_of_between?`: every rule that is planned is one of these.
* `Conversion.plan?_self`, `Conversion.plan?_dynamic`: every type converts to itself and to
  `dynamic`.
* `Conversion.plan?_object_isSome`, `Conversion.plan?_tuple_isSome`: structures of one shape convert
  where their parts do.
-/

namespace ValueAlgebra

open Entries

theorem eq_some_of_orElse {α : Type} {o : Option α} {f : Unit → Option α} {a : α}
    (h : o.orElse f = some a) : o = some a ∨ o = none ∧ f () = some a := by
  cases o with
  | none => exact .inr ⟨rfl, h⟩
  | some => exact .inl h

variable [Host] {mode : Mode}

/-! ## Plans for lists of parts -/

namespace Conversion

theorem planAll?_spec {target : Ty} {sources : List Ty} {plans : List Conversion}
    (h : planAll? mode target sources = some plans) :
    List.Forall₂ (fun s c => plan? mode s target = some c) sources plans := by
  induction sources generalizing plans with
  | nil =>
    rw [planAll?] at h
    cases h
    exact .nil
  | cons s sources ih =>
    rw [planAll?] at h
    simp only [Option.bind_eq_bind, Option.bind_eq_some_iff, Option.pure_def, Option.some.injEq] at h
    obtain ⟨c, hc, cs, hcs, rfl⟩ := h
    exact .cons hc (ih hcs)

theorem planEach?_spec {sources targets : List Ty} {plans : List Conversion}
    (h : planEach? mode sources targets = some plans) :
    sources.length = targets.length ∧
      List.Forall₂ (fun p c => plan? mode p.1 p.2 = some c) (sources.zip targets) plans := by
  induction sources generalizing targets plans with
  | nil =>
    cases targets with
    | nil =>
      rw [planEach?] at h
      cases h
      exact ⟨rfl, .nil⟩
    | cons => simp [planEach?] at h
  | cons s sources ih =>
    cases targets with
    | nil => simp [planEach?] at h
    | cons t targets =>
      rw [planEach?] at h
      simp only [Option.bind_eq_bind, Option.bind_eq_some_iff, Option.pure_def,
        Option.some.injEq] at h
      obtain ⟨c, hc, cs, hcs, rfl⟩ := h
      obtain ⟨hl, hp⟩ := ih hcs
      exact ⟨by rw [List.length_cons, List.length_cons, hl], .cons hc hp⟩

theorem planEntries?_spec {target : Ty} {sources : List (String × Ty)}
    {plans : List (String × Conversion)} (h : planEntries? mode target sources = some plans) :
    Paired (fun _ s c => plan? mode s target = some c) sources plans := by
  induction sources generalizing plans with
  | nil =>
    rw [planEntries?] at h
    cases h
    exact .nil
  | cons entry sources ih =>
    obtain ⟨name, s⟩ := entry
    rw [planEntries?] at h
    simp only [Option.bind_eq_bind, Option.bind_eq_some_iff, Option.pure_def, Option.some.injEq] at h
    obtain ⟨c, hc, cs, hcs, rfl⟩ := h
    exact .cons ⟨rfl, hc⟩ (ih hcs)

theorem planNamed?_spec {targets sources : List (String × Ty)}
    {plans : List (String × Conversion)} (h : planNamed? mode targets sources = some plans) :
    Paired (fun name s c => ∃ t, targets.lookup name = some t ∧ plan? mode s t = some c)
      sources plans := by
  induction sources generalizing plans with
  | nil =>
    rw [planNamed?] at h
    cases h
    exact .nil
  | cons entry sources ih =>
    obtain ⟨name, s⟩ := entry
    rw [planNamed?] at h
    simp only [Option.bind_eq_bind, Option.bind_eq_some_iff, Option.pure_def, Option.some.injEq] at h
    obtain ⟨t, ht, c, hc, cs, hcs, rfl⟩ := h
    exact .cons ⟨rfl, t, ht, hc⟩ (ih hcs)

theorem planFrom?_spec {source : Ty} {targets : List (String × Ty)}
    {plans : List (String × Conversion)} (h : planFrom? source targets = some plans) :
    Paired (fun _ t c => plan? .lenient source t = some c) targets plans := by
  induction targets generalizing plans with
  | nil =>
    rw [planFrom?] at h
    cases h
    exact .nil
  | cons entry targets ih =>
    obtain ⟨name, t⟩ := entry
    rw [planFrom?] at h
    simp only [Option.bind_eq_bind, Option.bind_eq_some_iff, Option.pure_def, Option.some.injEq] at h
    obtain ⟨c, hc, cs, hcs, rfl⟩ := h
    exact .cons ⟨rfl, hc⟩ (ih hcs)

/-- How the attributes of a target object split into those that are converted and those that are
absent from the source. -/
structure ObjectPlan (mode : Mode) (sources : List (String × Ty)) (optional : List String)
    (targets : List (String × Ty)) (plans : List (String × Conversion))
    (absent : List (String × Ty)) : Prop where
  converted : ∀ name c, (name, c) ∈ plans → ∃ s t, sources.lookup name = some s ∧
    (name, t) ∈ targets ∧ plan? mode s t = some c
  missing : ∀ name a, (name, a) ∈ absent → sources.lookup name = none ∧
    optional.contains name = true ∧ ∃ t, (name, t) ∈ targets ∧ a = t.withoutOptional
  cover : ∀ name, name ∈ names targets → name ∈ names plans ∨ name ∈ names absent
  names_plans : (names plans).Sublist (names targets)
  names_absent : (names absent).Sublist (names targets)

theorem planObject?_spec {sources targets absent : List (String × Ty)} {optional : List String}
    {plans : List (String × Conversion)}
    (h : planObject? mode sources optional targets = some (plans, absent)) :
    ObjectPlan mode sources optional targets plans absent := by
  induction targets generalizing plans absent with
  | nil =>
    rw [planObject?] at h
    cases h
    exact ⟨by simp, by simp, by simp, .slnil, .slnil⟩
  | cons entry targets ih =>
    obtain ⟨name, t⟩ := entry
    rw [planObject?] at h
    split at h
    · rename_i s hs
      simp only [Option.bind_eq_bind, Option.bind_eq_some_iff, Option.pure_def, Option.some.injEq,
        Prod.exists, Prod.mk.injEq] at h
      obtain ⟨c, hc, cs, rest, hcs, rfl, rfl⟩ := h
      have ih := ih hcs
      refine ⟨?_, ?_, ?_, ih.names_plans.cons_cons _, ih.names_absent.cons _⟩
      · intro n d hd
        rcases List.mem_cons.1 hd with hd | hd
        · cases hd
          exact ⟨s, t, hs, List.mem_cons_self, hc⟩
        · obtain ⟨s', t', hs', ht', hp⟩ := ih.converted n d hd
          exact ⟨s', t', hs', List.mem_cons_of_mem _ ht', hp⟩
      · intro n a ha
        obtain ⟨hs', ho, t', ht', eq⟩ := ih.missing n a ha
        exact ⟨hs', ho, t', List.mem_cons_of_mem _ ht', eq⟩
      · intro n hn
        rcases List.mem_cons.1 hn with rfl | hn
        · exact .inl List.mem_cons_self
        · exact (ih.cover n hn).imp_left (List.mem_cons_of_mem _)
    · rename_i hs
      split at h
      · rename_i ho
        simp only [Option.bind_eq_bind, Option.bind_eq_some_iff, Option.pure_def, Option.some.injEq,
          Prod.exists, Prod.mk.injEq] at h
        obtain ⟨cs, rest, hcs, rfl, rfl⟩ := h
        have ih := ih hcs
        refine ⟨?_, ?_, ?_, ih.names_plans.cons _, ih.names_absent.cons_cons _⟩
        · intro n d hd
          obtain ⟨s', t', hs', ht', hp⟩ := ih.converted n d hd
          exact ⟨s', t', hs', List.mem_cons_of_mem _ ht', hp⟩
        · intro n a ha
          rcases List.mem_cons.1 ha with ha | ha
          · cases ha
            exact ⟨hs, ho, t, List.mem_cons_self, rfl⟩
          · obtain ⟨hs', ho', t', ht', eq⟩ := ih.missing n a ha
            exact ⟨hs', ho', t', List.mem_cons_of_mem _ ht', eq⟩
        · intro n hn
          rcases List.mem_cons.1 hn with rfl | hn
          · exact .inr List.mem_cons_self
          · exact (ih.cover n hn).imp_right (List.mem_cons_of_mem _)
      · cases h

end Conversion

/-! ## Planned rules -/

/-- The conversions of the parts. -/
def Rule.conversions {γ : Type} : Rule γ → List γ
  | .object attributes _ | .entries _ attributes | .pick attributes _ _ | .union attributes
  | .select attributes => values attributes
  | .tuple elements | .gather _ _ elements _ => elements
  | .collection _ _ element _ => [element]
  | _ => []

/-- The type that the elements of a gathered collection are converted to: the wanted one, or where
that is open what the types of the parts have in common. -/
inductive Rule.Gathers (mode : Mode) (sources : List Ty) : Ty → Ty → Prop where
  | wanted {t : Ty} (h : t ≠ .dynamic ∨ sources = []) : Gathers mode sources t t
  | common {u : Unification} (hs : sources ≠ [])
      (h : Unification.plan? mode sources = some u) : Gathers mode sources .dynamic u.target

/-- The rules that are planned from one type to another, with the plans of the parts. -/
inductive Rule.Planned (mode : Mode) : Ty → Ty → Rule Conversion → Prop where
  | toDynamic (s : Ty) : Planned mode s .dynamic .keep
  | later {t : Ty} (hm : mode = .lenient) (ht : t ≠ .dynamic) : Planned mode .dynamic t .decideLater
  | same (t : Ty) : Planned mode t t .keep
  | object {sources targets absent : List (String × Ty)} {os optional : List String}
      {plans : List (String × Conversion)}
      (h : Conversion.ObjectPlan mode sources optional targets plans absent) :
      Planned mode (.object sources os) (.object targets optional) (.object plans absent)
  | tuple {sources targets : List Ty} {plans : List Conversion}
      (hl : sources.length = targets.length)
      (h : List.Forall₂ (fun p c => Conversion.plan? mode p.1 p.2 = some c)
        (sources.zip targets) plans) :
      Planned mode (.tuple sources) (.tuple targets) (.tuple plans)
  | items {source wanted s : Ty} {kind : CollectionKind} {c : Conversion} (hk : kind ≠ .map)
      (hs : source = .list s ∨ source = .set s) (h : Conversion.plan? mode s wanted = some c) :
      Planned mode source (kind.type wanted) (.collection kind mode c wanted)
  | mapItems {wanted s : Ty} {c : Conversion} (h : Conversion.plan? mode s wanted = some c) :
      Planned mode (.map s) (.map wanted) (.collection .map mode c wanted)
  | gather {sources : List Ty} {wanted e : Ty} {kind : CollectionKind} {plans : List Conversion}
      (hk : kind ≠ .map) (he : Rule.Gathers mode sources wanted e)
      (h : List.Forall₂ (fun s c => Conversion.plan? mode s e = some c) sources plans) :
      Planned mode (.tuple sources) (kind.type wanted) (.gather kind mode plans e)
  | emptyMap {os : List String} {wanted : Ty} :
      Planned mode (.object [] os) (.map wanted) (.emptyMap wanted.withoutOptional)
  | entries {sources : List (String × Ty)} {os : List String} {wanted e : Ty}
      {plans : List (String × Conversion)} (hs : sources ≠ [])
      (he : Rule.Gathers mode (values sources) wanted e)
      (h : Paired (fun _ s c => Conversion.plan? mode s e = some c) sources plans) :
      Planned mode (.object sources os) (.map wanted) (.entries mode plans)
  | pick {s : Ty} {targets : List (String × Ty)} {optional : List String}
      {plans : List (String × Conversion)} (hm : mode = .lenient)
      (h : Paired (fun _ t c => Conversion.plan? .lenient s t = some c) targets plans) :
      Planned mode (.map s) (.object targets optional) (.pick plans targets optional)
  | union {sources targets : List (String × Ty)} {plans : List (String × Conversion)}
      (h : Paired (fun name s c => ∃ t, targets.lookup name = some t ∧
        Conversion.plan? mode s t = some c) sources plans) :
      Planned mode (.union sources) (.union targets) (.union plans)
  | select {sources targets : List (String × Ty)} {os : List String}
      {plans : List (String × Conversion)} (hm : mode = .lenient) (hs : sources ≠ [])
      (h : Paired (fun name s c => ∃ t, targets.lookup name = some t ∧
        Conversion.plan? mode s t = some c) sources plans) :
      Planned mode (.object sources os) (.union targets) (.select plans)
  | primitive {s t : Ty} {rule : PrimitiveRule}
      (h : PrimitiveRule.between? mode s t = some rule) : Planned mode s t (.primitive rule)
  | ofCapsules {s t : Ty} {rule : Rule Conversion} (hm : mode = .lenient)
      (hc : s.isCapsule = true ∨ t.isCapsule = true)
      (h : Rule.ofCapsules? mode s t = some rule) : Planned mode s t rule

namespace Rule

/-- Capsule types provide a way into the target or out of the source. -/
theorem ofCapsules?_eq_some {s t : Ty} {rule : Rule Conversion}
    (h : ofCapsules? mode s t = some rule) :
    mode = .lenient ∧
      ((∃ c accept, t = .capsule c ∧ c.accepting? s = some accept ∧ rule = .intoCapsule accept) ∨
        ∃ c offer, s = .capsule c ∧ c.offering? t = some offer ∧ rule = .outOfCapsule offer) := by
  unfold ofCapsules? at h
  simp only at h
  split at h
  · rename_i hm
    refine ⟨hm, ?_⟩
    rcases eq_some_of_orElse h with into | ⟨-, outOf⟩
    · refine .inl ?_
      cases t with
      | capsule c =>
        obtain ⟨accept, ha, rfl⟩ := Option.map_eq_some_iff.1 into
        exact ⟨c, accept, rfl, ha, rfl⟩
      | _ => cases into
    · refine .inr ?_
      cases s with
      | capsule c =>
        obtain ⟨offer, ho, rfl⟩ := Option.map_eq_some_iff.1 outOf
        exact ⟨c, offer, rfl, ho, rfl⟩
      | _ => cases outOf
  · cases h

theorem planned_of_ofCapsules? {s t : Ty} {rule : Rule Conversion}
    (h : ofCapsules? mode s t = some rule) : Planned mode s t rule := by
  obtain ⟨hm, ⟨c, accept, rfl, -, -⟩ | ⟨c, offer, rfl, -, -⟩⟩ := ofCapsules?_eq_some h
  · exact .ofCapsules hm (.inr rfl) h
  · exact .ofCapsules hm (.inl rfl) h

theorem planned_of_gathering? {kind : CollectionKind} (hk : kind ≠ .map) {sources : List Ty}
    {wanted : Ty} {rule : Rule Conversion}
    (h : gathering? mode kind sources wanted = some rule) :
    Planned mode (.tuple sources) (kind.type wanted) rule := by
  have finish {e : Ty} (he : Gathers mode sources wanted e)
      (h : ((Conversion.planAll? mode e sources).bind fun plans =>
        some (gather kind mode plans e)) = some rule) :
      Planned mode (.tuple sources) (kind.type wanted) rule := by
    obtain ⟨plans, hp, h⟩ := Option.bind_eq_some_iff.1 h
    cases h
    exact .gather hk he (Conversion.planAll?_spec hp)
  rw [gathering?.eq_def] at h
  simp only [Option.bind_eq_bind, Option.pure_def, Option.bind_some, Option.bind_none] at h
  split at h
  · rename_i open_
    rw [Bool.and_eq_true, Bool.not_eq_true', List.isEmpty_eq_false_iff] at open_
    have hd : wanted = .dynamic := by
      cases wanted <;> simp_all [Ty.isDynamic]
    split at h
    · rename_i u hu
      split at h
      · cases h
      · exact finish (hd ▸ .common open_.2 hu) h
    · cases h
  · rename_i closed
    refine finish (.wanted ?_) h
    by_cases hd : wanted = .dynamic
    · refine .inr ?_
      simpa [hd, Ty.isDynamic] using closed
    · exact .inl hd

theorem planned_of_ofEntries? {sources : List (String × Ty)} {os : List String} {wanted : Ty}
    {rule : Rule Conversion} (h : ofEntries? mode sources wanted = some rule) :
    Planned mode (.object sources os) (.map wanted) rule := by
  rw [ofEntries?.eq_def] at h
  split at h
  · rename_i empty
    cases h
    rw [List.isEmpty_iff.1 empty]
    exact .emptyMap
  · rename_i nonempty
    have hs : sources ≠ [] := fun eq => nonempty (eq ▸ rfl)
    have finish {e : Ty} (he : Gathers mode (values sources) wanted e)
        (h : ((Conversion.planEntries? mode e sources).bind fun plans =>
          some (entries mode plans)) = some rule) :
        Planned mode (.object sources os) (.map wanted) rule := by
      obtain ⟨plans, hp, h⟩ := Option.bind_eq_some_iff.1 h
      cases h
      exact .entries hs he (Conversion.planEntries?_spec hp)
    simp only [Option.bind_eq_bind, Option.pure_def, Option.bind_some] at h
    split at h
    · rename_i open_
      have hd : wanted = .dynamic := by
        cases wanted <;> simp_all [Ty.isDynamic]
      obtain ⟨e, he, h⟩ := Option.bind_eq_some_iff.1 h
      rw [Option.map_eq_some_iff] at he
      obtain ⟨u, hu, rfl⟩ := he
      exact finish (hd ▸ .common (fun eq => hs (List.map_eq_nil_iff.1 eq)) hu) h
    · rename_i closed
      exact finish (.wanted (.inl fun hd => closed (hd ▸ rfl))) h

/-- Every rule that is planned is one of `Rule.Planned`. -/
theorem planned_of_between? {s t : Ty} {rule : Rule Conversion}
    (h : between? mode s t = some rule) : Planned mode s t rule := by
  rw [between?.eq_def] at h
  split at h
  · rename_i ht
    cases h
    exact ht ▸ .toDynamic s
  split at h
  · rename_i ht hs
    split at h
    · rename_i hm
      cases h
      exact hs ▸ .later hm ht
    · cases h
  split at h
  · rename_i eq
    cases h
    exact eq ▸ .same s
  split at h
  · rw [Option.map_eq_some_iff] at h
    obtain ⟨⟨plans, absent⟩, hp, rfl⟩ := h
    exact .object (Conversion.planObject?_spec hp)
  · rw [Option.map_eq_some_iff] at h
    obtain ⟨plans, hp, rfl⟩ := h
    exact .tuple (Conversion.planEach?_spec hp).1 (Conversion.planEach?_spec hp).2
  · rw [Option.map_eq_some_iff] at h
    obtain ⟨c, hc, rfl⟩ := h
    exact @Planned.items _ _ _ _ _ .list _ (by simp) (.inl rfl) hc
  · rw [Option.map_eq_some_iff] at h
    obtain ⟨c, hc, rfl⟩ := h
    exact @Planned.items _ _ _ _ _ .list _ (by simp) (.inr rfl) hc
  · split at h
    · rw [Option.map_eq_some_iff] at h
      obtain ⟨c, hc, rfl⟩ := h
      exact @Planned.items _ _ _ _ _ .set _ (by simp) (.inl rfl) hc
    · cases h
  · rw [Option.map_eq_some_iff] at h
    obtain ⟨c, hc, rfl⟩ := h
    exact @Planned.items _ _ _ _ _ .set _ (by simp) (.inr rfl) hc
  · rw [Option.map_eq_some_iff] at h
    obtain ⟨c, hc, rfl⟩ := h
    exact .mapItems hc
  · exact @planned_of_gathering? _ _ .list (by simp) _ _ _ h
  · exact @planned_of_gathering? _ _ .set (by simp) _ _ _ h
  · exact planned_of_ofEntries? h
  · split at h
    · rename_i hm
      rw [Option.map_eq_some_iff] at h
      obtain ⟨plans, hp, rfl⟩ := h
      exact .pick hm (Conversion.planFrom?_spec hp)
    · cases h
  · rw [Option.map_eq_some_iff] at h
    obtain ⟨plans, hp, rfl⟩ := h
    exact .union (Conversion.planNamed?_spec hp)
  · split at h
    · rename_i hm
      rw [Option.map_eq_some_iff] at h
      obtain ⟨plans, hp, rfl⟩ := h
      exact .select hm.1 hm.2 (Conversion.planNamed?_spec hp)
    · cases h
  · cases hr : PrimitiveRule.between? mode s t with
    | some rule =>
      rw [hr] at h
      cases h
      exact .primitive hr
    | none =>
      rw [hr] at h
      exact planned_of_ofCapsules? h

/-- How objects are made. -/
inductive PlannedObject (mode : Mode) (targets : List (String × Ty)) (optional : List String) :
    Ty → Rule Conversion → Prop where
  | later (hm : mode = .lenient) : PlannedObject mode targets optional .dynamic .decideLater
  | same : PlannedObject mode targets optional (.object targets optional) .keep
  | object {sources absent : List (String × Ty)} {os : List String}
      {plans : List (String × Conversion)}
      (h : Conversion.ObjectPlan mode sources optional targets plans absent) :
      PlannedObject mode targets optional (.object sources os) (.object plans absent)
  | pick {s : Ty} {plans : List (String × Conversion)} (hm : mode = .lenient)
      (h : Paired (fun _ t c => Conversion.plan? .lenient s t = some c) targets plans) :
      PlannedObject mode targets optional (.map s) (.pick plans targets optional)
  | ofCapsule {s : Ty} {rule : Rule Conversion} (hm : mode = .lenient) (hs : s.isCapsule = true) :
      PlannedObject mode targets optional s rule

theorem Planned.toObject {targets : List (String × Ty)} {optional : List String} {s : Ty}
    {rule : Rule Conversion} (h : Planned mode s (.object targets optional) rule) :
    PlannedObject mode targets optional s rule := by
  generalize ht : Ty.object targets optional = t at h
  cases h with
  | toDynamic => cases ht
  | later hm => exact .later hm
  | same => exact ht ▸ .same
  | object h =>
    cases ht
    exact .object h
  | @items _ _ _ kind | @gather _ _ _ kind => cases kind <;> cases ht
  | pick hm h =>
    cases ht
    exact .pick hm h
  | primitive h =>
    rw [← ht] at h
    cases s <;> cases h
  | ofCapsules hm hc =>
    rw [← ht] at hc
    exact .ofCapsule hm (hc.resolve_right (by intro h; cases h))
  | tuple | mapItems | emptyMap | entries | union | select => cases ht

end Rule

namespace Conversion

theorem planned_of_plan? {s t : Ty} {c : Conversion} (h : plan? mode s t = some c) :
    ∃ rule, c = .toward t rule ∧ Rule.Planned mode s t rule := by
  rw [plan?, Option.map_eq_some_iff] at h
  obtain ⟨rule, hr, rfl⟩ := h
  exact ⟨rule, rfl, Rule.planned_of_between? hr⟩

/-! ## Types that convert -/

theorem plan?_dynamic (s : Ty) : plan? mode s .dynamic = some (.toward .dynamic .keep) := by
  rw [plan?, Rule.between?.eq_def, if_pos rfl]
  rfl

theorem plan?_self {t : Ty} : (plan? mode t t).isSome = true := by
  by_cases hd : t = .dynamic
  · rw [hd, plan?_dynamic]
    rfl
  · rw [plan?, Rule.between?.eq_def, if_neg hd, if_neg hd, if_pos rfl]
    rfl

/-- Whether an attribute of a target object has a source that converts to it, or may be absent. -/
def Served (mode : Mode) (sources : List (String × Ty)) (optional : List String) (name : String)
    (t : Ty) : Prop :=
  match sources.lookup name with
  | some s => (plan? mode s t).isSome = true
  | none => optional.contains name = true

theorem planObject?_isSome_iff {sources targets : List (String × Ty)} {optional : List String} :
    (planObject? mode sources optional targets).isSome = true ↔
      ∀ name t, (name, t) ∈ targets → Served mode sources optional name t := by
  induction targets with
  | nil => simp [planObject?]
  | cons entry targets ih =>
    obtain ⟨name, t⟩ := entry
    have all : (∀ n u, (n, u) ∈ (name, t) :: targets → Served mode sources optional n u) ↔
        Served mode sources optional name t ∧
          ∀ n u, (n, u) ∈ targets → Served mode sources optional n u := by
      constructor
      · exact fun h => ⟨h name t List.mem_cons_self, fun n u hu => h n u (List.mem_cons_of_mem _ hu)⟩
      · rintro ⟨here, rest⟩ n u hu
        rcases List.mem_cons.1 hu with hu | hu
        · cases hu
          exact here
        · exact rest n u hu
    rw [all, ← ih, planObject?, Served]
    split
    · rename_i s hs
      simp only [hs]
      cases plan? mode s t with
      | none => simp
      | some c => cases planObject? mode sources optional targets <;> simp
    · rename_i hs
      simp only [hs]
      cases optional.contains name with
      | false => simp
      | true => cases planObject? mode sources optional targets <;> simp

/-- An object converts to another one if it serves all of its attributes. -/
theorem plan?_object_isSome_iff {sources targets : List (String × Ty)} {os optional : List String}
    (hne : Ty.object sources os ≠ .object targets optional) :
    (plan? mode (.object sources os) (.object targets optional)).isSome = true ↔
      ∀ name t, (name, t) ∈ targets → Served mode sources optional name t := by
  rw [plan?, Rule.between?.eq_def, if_neg (by simp), if_neg (by simp), if_neg hne,
    ← planObject?_isSome_iff]
  simp

/-- Objects convert where every attribute of the target is there and converts. -/
theorem plan?_object_isSome {sources targets : List (String × Ty)} {os optional : List String}
    (h : ∀ name t, (name, t) ∈ targets →
      ∃ s, sources.lookup name = some s ∧ (plan? mode s t).isSome = true) :
    (plan? mode (.object sources os) (.object targets optional)).isSome = true := by
  by_cases eq : Ty.object sources os = .object targets optional
  · rw [eq]
    exact plan?_self
  · refine (plan?_object_isSome_iff eq).2 fun name t ht => ?_
    obtain ⟨s, hs, hp⟩ := h name t ht
    rwa [Served, hs]

theorem planEach?_isSome {sources targets : List Ty} (hl : sources.length = targets.length)
    (h : ∀ (i : Nat) s t, sources[i]? = some s → targets[i]? = some t →
      (plan? mode s t).isSome = true) :
    (planEach? mode sources targets).isSome = true := by
  induction sources generalizing targets with
  | nil =>
    cases targets with
    | nil => rw [planEach?]; rfl
    | cons => cases hl
  | cons s sources ih =>
    cases targets with
    | nil => cases hl
    | cons t targets =>
      obtain ⟨c, hc⟩ := Option.isSome_iff_exists.1 (h 0 s t rfl rfl)
      obtain ⟨plans, hp⟩ := Option.isSome_iff_exists.1 (ih (Nat.succ.inj hl) fun i => h (i + 1))
      rw [planEach?]
      simp [hc, hp]

/-- Tuples of one length convert where every element converts. -/
theorem plan?_tuple_isSome {sources targets : List Ty} (hl : sources.length = targets.length)
    (h : ∀ (i : Nat) s t, sources[i]? = some s → targets[i]? = some t →
      (plan? mode s t).isSome = true) :
    (plan? mode (.tuple sources) (.tuple targets)).isSome = true := by
  by_cases eq : Ty.tuple sources = .tuple targets
  · rw [eq]
    exact plan?_self
  · obtain ⟨plans, hp⟩ := Option.isSome_iff_exists.1 (planEach?_isSome hl h)
    rw [plan?, Rule.between?.eq_def, if_neg (by simp), if_neg (by simp), if_neg eq]
    simp [hp]

end Conversion

end ValueAlgebra
