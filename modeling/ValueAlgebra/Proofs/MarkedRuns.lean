import ValueAlgebra.Proofs.Twins

/-!
# Conversions and marks

Marks do not influence conversions: a conversion fails on a marked value where it fails on the value
without marks, and in the same way, and otherwise the results are the same apart from marks.

Two runs go side by side here, of the same conversion on values that are alike. They are at the same
place, or at any two places if they keep away from capsules: a new capsule has the place where it
was made for an identity.

Main statements:

* `Rule.agree_apply`, `Conversion.agree_runWith`: one step of the two runs.
* `Conversion.agree_run`: whole runs, by induction on the height of the values.
* `Value.convert_apart_from_marks`: conversions to a type.
-/

namespace ValueAlgebra

open Entries Value

/-- What a capsule type makes of a value does not hang on the marks inside of it. Its own marks are
taken off before. -/
def Host.DisregardsMarks [Host] : Prop :=
  ∀ (c : CapsuleType) (s : Ty) (accept : Value → Path → Except Failure Native),
    c.accepting? s = some accept →
      ∀ (v : Value) path, accept v.unmark path = accept v.unmarkDeep path

variable {free : Prop} {run run' : Runner} {site site' : List Nat} {path : Path}

section

variable [Host]

/-- A planned conversion. If it has to be free of capsules, both of its types are. -/
def Conversion.Fair (free : Prop) (c : Conversion) : Prop :=
  ∃ mode s t, Conversion.Leads mode s t c ∧ (free → s.CapsuleFree ∧ t.CapsuleFree)

/-- The conversions of the parts are fair, and a capsule is made only where that is allowed and in a
way that does not hang on marks. -/
structure Rule.Fair (free : Prop) (rule : Rule Conversion) : Prop where
  parts : ∀ c ∈ rule.conversions, c.Fair free
  accepts : ∀ accept, rule = .intoCapsule accept →
    ¬ free ∧ ∀ (v : Value) path, accept v.unmark path = accept v.unmarkDeep path

theorem Rule.Planned.fair {mode : Mode} {s t : Ty} {rule : Rule Conversion}
    (h : Rule.Planned mode s t rule) (types : free → s.CapsuleFree ∧ t.CapsuleFree)
    (host : ¬ free → Host.DisregardsMarks) : rule.Fair free where
  parts c hc := by
    obtain ⟨mode', s', t', hp, kept⟩ := h.plans hc
    exact ⟨mode', s', t', .planned hp, fun hf => kept (types hf).1 (types hf).2⟩
  accepts accept eq := by
    subst eq
    cases h with
    | ofCapsules _ _ h =>
      obtain ⟨-, ⟨c, _, rfl, ha, eq⟩ | ⟨_, _, _, _, eq⟩⟩ := Rule.ofCapsules?_eq_some h
      · cases eq
        have made : ¬ free := fun hf => by
          have := (types hf).2.here
          cases this
        exact ⟨made, host made c s accept ha⟩
      · cases eq

theorem Unification.fair {mode : Mode} {vs ws : List Value} {u : Unification}
    (h : List.Forall₂ (Twins free) vs ws) (hu : Unification.plan? mode (types vs) = some u)
    {c : Conversion} (hc : some c ∈ u.conversions) : c.Fair free := by
  obtain ⟨s, hs, leads⟩ := leads_of_conversion hu hc
  refine ⟨mode, s, u.target, leads, fun hf => ?_⟩
  have types : ∀ t ∈ types vs, t.CapsuleFree := fun t ht => by
    obtain ⟨v, hv, rfl⟩ := mem_types.1 ht
    obtain ⟨w, -, twins⟩ := exists_right_of_forall₂ h hv
    exact (twins.sterile hf).1.free.here
  exact ⟨types s hs, .unified types hu⟩

end

/-! ## Parts that are converted side by side -/

section

variable [Host]

/-- Two ways to run the conversions of parts take twins to twins. Only where there are no capsules
may the places differ. -/
def Runner.Parallel (free : Prop) (run run' : Runner) : Prop :=
  ∀ {c : Conversion} {v w : Value} {site site' : List Nat} (path : Path), c.Fair free →
    Twins free v w → (¬ free → site = site') →
      Agree (Twins free) (run c v path site) (run' c w path site')

/-- Plans for parts that are twins, by one conversion at one path. -/
inductive PartPlan.Twins (free : Prop) : PartPlan → PartPlan → Prop
  | mk {c : Conversion} {v w : Value} {path : Path} (part : Value.Twins free v w)
    (fair : c.Fair free) : Twins free ⟨c, v, path⟩ ⟨c, w, path⟩

variable (hrun : Runner.Parallel free run run') (place : ¬ free → site = site')

include hrun place

theorem agree_runAll {ps qs : List PartPlan} (h : List.Forall₂ (PartPlan.Twins free) ps qs) :
    Agree (List.Forall₂ (Twins free)) (run.runAll site ps) (run'.runAll site' qs) := by
  refine .mapM (forall₂_zipIdx h 0) ?_
  rintro ⟨p, i⟩ ⟨q, j⟩ ⟨part, rfl⟩
  cases part with
  | mk part fair => exact hrun _ fair part fun hf => by rw [place hf]

theorem agree_runSecond {xs ys : List (Value × Option Conversion)}
    (h : List.Forall₂ (fun x y => Twins free x.1 y.1 ∧ x.2 = y.2) xs ys)
    (fair : ∀ x c, (x, some c) ∈ xs → c.Fair free) :
    Agree (List.Forall₂ (Twins free)) (run.runSecond path site xs)
      (run'.runSecond path site' ys) := by
  have known := forall₂_of_mem (S := fun x y => (Twins free x.1 y.1 ∧ x.2 = y.2) ∧
    ∀ c, x.2 = some c → c.Fair free) h fun x hx y _ hxy =>
      ⟨hxy, fun c hc => fair x.1 c (hc ▸ hx)⟩
  refine .mapM (forall₂_zipIdx known 0) ?_
  rintro ⟨⟨v, c?⟩, i⟩ ⟨⟨w, d?⟩, j⟩ ⟨⟨⟨twins, rfl⟩, fair⟩, rfl⟩
  cases c? with
  | none => exact .ok twins
  | some c => exact hrun path (fair c rfl) twins fun hf => by rw [place hf]

/-- Which types there are decides on the conversions into a common one, and marks do not change
them. -/
theorem agree_homogenize {kind : CollectionKind} {mode : Mode} {vs ws : List Value}
    (h : List.Forall₂ (Twins free) vs ws) :
    Agree (fun xs ys => List.Forall₂ (Twins free) xs ys ∧ (commonType? xs).isSome = true)
      (homogenize run kind mode path site vs) (homogenize run' kind mode path site' ws) := by
  have alike := Twins.alike_all h
  unfold homogenize
  rw [← Alike.commonType? alike, ← Alike.types alike]
  split
  · exact .ok ⟨h, ‹_›⟩
  split
  · exact .error _
  · rename_i u hu
    have zipped := forall₂_zip_zip h (List.forall₂_same.2 fun c? (_ : c? ∈ u.conversions) =>
      Eq.refl c?)
    refine (agree_runSecond hrun place zipped fun x c hc =>
      Unification.fair h hu (List.of_mem_zip hc).2).bind fun xs ys hxy => ?_
    rw [← Alike.commonType? (Twins.alike_all hxy)]
    split
    · exact .ok ⟨hxy, ‹_›⟩
    · exact .error _

omit hrun place in
/-- Values of a common type make maps under the same names. -/
theorem agree_zip_map {names : List String} {vs ws : List Value}
    (h : List.Forall₂ (Twins free) vs ws) (hc : (commonType? vs).isSome = true) :
    Agree Alike (orFailure (Value.map (names.zip vs))) (orFailure (Value.map (names.zip ws))) := by
  have entries := forall₂_zip_zip (List.forall₂_same.2 fun n (_ : n ∈ names) => Eq.refl n) h
  refine (agree_map (entries.imp fun x y hxy => ⟨hxy.1, hxy.2.alike⟩) ?_).orFailure
  refine commonType?_of_subset hc fun x hx => ?_
  obtain ⟨⟨name, y⟩, hm, rfl⟩ := List.mem_map.1 hx
  exact (List.of_mem_zip hm).2

omit hrun place in
theorem agree_collection {kind : CollectionKind} {vs ws : List Value}
    (h : List.Forall₂ (Twins free) vs ws) (hc : (commonType? vs).isSome = true) :
    Agree Alike (if kind = .set then orFailure (Value.set vs) else orFailure (Value.list vs))
      (if kind = .set then orFailure (Value.set ws) else orFailure (Value.list ws)) := by
  split
  · exact (agree_set (Twins.alike_all h) hc).orFailure
  · exact (agree_list (Twins.alike_all h) hc).orFailure

/-! ## Helpers of rules -/

variable {v w : Value} (marks : v.marks = w.marks) (h : Twins free v w)

include marks h

theorem agree_convertItems {kind : CollectionKind} {mode : Mode} {c : Conversion} {wanted : Ty}
    (hc : c.Fair free) :
    Agree Alike (convertItems run kind mode c wanted v path site)
      (convertItems run' kind mode c wanted w path site') := by
  refine (h.elements marks).orFailure.bind fun es fs hes =>
    (agree_runAll hrun place ?plans).bind fun xs ys hxy => ?_
  case plans =>
    rw [List.forall₂_map_left_iff, List.forall₂_map_right_iff]
    refine hes.imp ?_
    rintro ⟨key, x⟩ ⟨_, y⟩ ⟨rfl, part⟩
    exact .mk part hc
  rw [isEmpty_eq_of_forall₂ hxy, h.alike.ty]
  split
  · exact .refl Alike.refl _
  · exact (agree_homogenize hrun place hxy).bind fun xs ys hxy => agree_collection hxy.1 hxy.2

theorem agree_convertTuple {conversions : List Conversion}
    (hc : ∀ c ∈ conversions, c.Fair free) :
    Agree (List.Forall₂ (Twins free)) (convertTuple run conversions v path site)
      (convertTuple run' conversions w path site') := by
  refine (h.elements marks).orFailure.bind fun es fs hes => agree_runAll hrun place ?_
  rw [List.forall₂_map_left_iff, List.forall₂_map_right_iff]
  have same : List.Forall₂ (fun c d => c = d ∧ c.Fair free) conversions conversions :=
    List.forall₂_same.2 fun c hm => ⟨rfl, hc c hm⟩
  refine (forall₂_zip_zip hes same).imp ?_
  rintro ⟨⟨key, x⟩, c⟩ ⟨⟨_, y⟩, _⟩ ⟨⟨rfl, part⟩, rfl, fair⟩
  exact .mk part fair

theorem agree_convertEntries {mode : Mode} {c : Conversion} {wanted : Ty} (hc : c.Fair free) :
    Agree Alike (convertEntries run mode c wanted v path site)
      (convertEntries run' mode c wanted w path site') := by
  refine (h.namedElements marks).bind fun es fs hes =>
    (agree_runAll hrun place ?plans).bind fun xs ys hxy => ?_
  case plans =>
    rw [List.forall₂_map_left_iff, List.forall₂_map_right_iff]
    refine hes.imp ?_
    rintro ⟨name, key, x⟩ ⟨_, _, y⟩ ⟨rfl, rfl, part⟩
    exact .mk part hc
  have names : es.map (·.1) = fs.map (·.1) := by
    rw [← List.forall₂_eq_eq_eq, List.forall₂_map_left_iff, List.forall₂_map_right_iff]
    exact hes.imp fun _ _ hxy => hxy.1
  rw [isEmpty_eq_of_forall₂ hxy, h.alike.ty, names]
  split
  · exact .refl Alike.refl _
  · exact (agree_homogenize hrun place hxy).bind fun xs ys hxy => agree_zip_map hxy.1 hxy.2

omit hrun place marks h in
/-- Which parts have a conversion of their name is the same for twin parts. -/
theorem paired_plans {es fs : List (String × Value × Value)}
    (hes : List.Forall₂ (fun x y => x.1 = y.1 ∧ x.2.1 = y.2.1 ∧ Twins free x.2.2 y.2.2) es fs)
    {conversions : List (String × Conversion)} (locate : String → Value → Path)
    (hc : ∀ c ∈ values conversions, c.Fair free) :
    Paired (fun _ => PartPlan.Twins free)
      (es.filterMap fun (name, key, part) => (conversions.lookup name).map fun conversion =>
        (name, PartPlan.mk conversion part (locate name key)))
      (fs.filterMap fun (name, key, part) => (conversions.lookup name).map fun conversion =>
        (name, PartPlan.mk conversion part (locate name key))) := by
  refine List.rel_filterMap ?_ hes
  rintro ⟨name, key, x⟩ ⟨_, _, y⟩ ⟨rfl, rfl, part⟩
  cases found : conversions.lookup name with
  | none =>
    simp only [found, Option.map_none]
    exact .none
  | some c =>
    simp only [found, Option.map_some]
    exact .some ⟨rfl, .mk part (hc c (mem_values (mem_of_lookup found)))⟩

theorem agree_convertNamed {conversions : List (String × Conversion)}
    {locate : String → Value → Path} (hc : ∀ c ∈ values conversions, c.Fair free) :
    Agree (Paired fun _ => Twins free) (convertNamed run conversions locate v site)
      (convertNamed run' conversions locate w site') := by
  refine (h.namedElements marks).bind fun es fs hes => ?_
  have plans := paired_plans hes locate hc
  refine (agree_runAll hrun place (plans.values fun _ _ _ h => h)).bind fun xs ys hxy => .ok ?_
  refine forall₂_zip_zip ?_ hxy
  rw [List.forall₂_eq_eq_eq]
  exact plans.names_eq

end

/-- Which attributes are missing shows in the names of those that are there. -/
theorem missingAttributes_congr {found found' : List (String × Value)}
    (hn : names found = names found') (optional : List String) (path : Path)
    (ts : List (String × Ty)) :
    missingAttributes found optional path ts = missingAttributes found' optional path ts := by
  have contains (name : String) : contains name found = contains name found' := by
    rw [Bool.eq_iff_iff, contains_iff, contains_iff, hn]
  induction ts with
  | nil => rfl
  | cons t ts ih => rw [missingAttributes, missingAttributes, contains, ih]

section

variable [Host]

/-- Selections of one variant, which holds twins, or none. -/
inductive Selection.Twins (free : Prop) : Selection → Selection → Prop
  | undecided : Twins free .undecided .undecided
  | variant {name : String} {v w : Value} (h : Value.Twins free v w) :
    Twins free (.variant name v) (.variant name w)

omit [Host] in
theorem agree_select {chosen chosen' : Option (String × Value)} {es fs : List (Value × Value)}
    (hc : Option.Rel (fun x y => x.1 = y.1 ∧ Twins free x.2 y.2) chosen chosen')
    (hes : List.Forall₂ (fun x y => x.1 = y.1 ∧ Twins free x.2 y.2) es fs) :
    Agree (Selection.Twins free) (select path chosen es) (select path chosen' fs) := by
  induction hes generalizing chosen chosen' with
  | nil =>
    cases hc with
    | none => exact .error _
    | @some x y h =>
      obtain ⟨name, x⟩ := x
      obtain ⟨_, y⟩ := y
      obtain ⟨rfl, h⟩ := h
      exact .ok (.variant h)
  | @cons x y es fs hxy _ ih =>
    obtain ⟨key, x⟩ := x
    obtain ⟨_, y⟩ := y
    obtain ⟨rfl, part⟩ := hxy
    rw [select, select, part.alike.isKnown, part.alike.isNull]
    split
    · exact .ok .undecided
    split
    · exact ih hc
    · refine .bind_same fun name => ?_
      cases hc with
      | none => exact ih (.some ⟨rfl, part⟩)
      | @some x y h =>
        obtain ⟨first, x⟩ := x
        obtain ⟨_, y⟩ := y
        obtain ⟨rfl, -⟩ := h
        exact .error _

variable (hrun : Runner.Parallel free run run') (place : ¬ free → site = site') {v w : Value}

include hrun place

theorem agree_convertVariant {conversions : List (String × Conversion)}
    (hc : ∀ c ∈ values conversions, c.Fair free) (t : Ty) (name : String) (complaint : Complaint)
    (h : Twins free v w) :
    Agree Alike (convertVariant run conversions t name v complaint path site)
      (convertVariant run' conversions t name w complaint path site') := by
  unfold convertVariant
  cases found : conversions.lookup name with
  | none => exact .error _
  | some c =>
    have fair := hc c (mem_values (mem_of_lookup found))
    refine (hrun _ fair h fun hf => by rw [place hf]).bind fun x y hxy => ?_
    exact (agree_union t name hxy.alike).orFailure

variable (marks : v.marks = w.marks) (h : Twins free v w)

include marks h

theorem agree_convertSelection {conversions : List (String × Conversion)}
    (hc : ∀ c ∈ values conversions, c.Fair free) (t : Ty) :
    Agree Alike (convertSelection run conversions t v path site)
      (convertSelection run' conversions t w path site') := by
  refine (h.elements marks).orFailure.bind fun es fs hes => ?_
  refine (agree_select .none hes).bind fun x y hxy => ?_
  cases hxy with
  | undecided => exact .refl Alike.refl _
  | variant h => exact agree_convertVariant hrun place hc t _ _ h

/-! ## Rules -/

omit [Host] hrun place in
theorem PrimitiveRule.agree_apply (rule : PrimitiveRule) :
    Agree Alike (rule.apply v path) (rule.apply w path) := by
  have same : rule.apply v path = rule.apply w path := by
    cases rule with
    | numberToString => rw [apply, apply, h.alike.asNumber marks]
    | boolToString => rw [apply, apply, h.alike.asBool marks]
    | stringToNumber | stringToBool => rw [apply, apply, h.alike.asString marks]
  rw [same]
  exact .refl Alike.refl _

omit marks in
/-- A rule does alike things to values that are alike. -/
theorem Rule.agree_apply {rule : Rule Conversion} (hr : rule.Fair free) (t : Ty) :
    Agree Alike (rule.apply run t v.unmark path site) (rule.apply run' t w.unmark path site') := by
  have accepts := hr.accepts
  have parts := hr.parts
  have marks : v.unmark.marks = w.unmark.marks := rfl
  have outer := h.alike
  replace h := h.unmark
  cases rule with
  | keep | decideLater => exact .ok h.alike
  | primitive rule => exact rule.agree_apply marks h
  | object attributes absent =>
    refine (agree_convertNamed hrun place marks h parts).bind fun xs ys hxy => ?_
    exact .ok (.object_append (hxy.imp fun x y hx => ⟨hx.1, hx.2.alike⟩) _)
  | tuple elements =>
    refine (agree_convertTuple hrun place marks h parts).bind fun xs ys hxy => ?_
    exact .ok (.tuple (Twins.alike_all hxy))
  | collection kind mode element wanted =>
    have fair := parts element List.mem_cons_self
    simp only [apply, h.alike.size marks]
    refine .bind_same fun size => ?_
    split
    · exact agree_convertEntries hrun place marks h fair
    · exact agree_convertItems hrun place marks h fair
  | gather kind mode elements wanted =>
    refine (agree_convertTuple hrun place marks h parts).bind fun xs ys hxy => ?_
    rw [isEmpty_eq_of_forall₂ hxy]
    split
    · exact .refl Alike.refl _
    · exact (agree_homogenize hrun place hxy).bind fun xs ys hxy => agree_collection hxy.1 hxy.2
  | emptyMap wanted => exact .refl Alike.refl _
  | entries mode attributes =>
    refine (agree_convertNamed hrun place marks h parts).bind fun xs ys hxy => ?_
    rw [hxy.names_eq]
    refine (agree_homogenize hrun place (hxy.values fun _ _ _ h => h)).bind fun xs ys hxy => ?_
    exact agree_zip_map hxy.1 hxy.2
  | pick conversions attributes optional =>
    refine (agree_convertNamed hrun place marks h parts).bind fun xs ys hxy => ?_
    rw [missingAttributes_congr hxy.names_eq]
    refine .bind_same fun missing => .ok (.object_append ?_ missing)
    exact hxy.imp fun x y hx => ⟨hx.1, hx.2.alike⟩
  | union variants =>
    refine (h.variant marks).orFailure.bind ?_
    rintro ⟨name, x⟩ ⟨_, y⟩ ⟨rfl, part⟩
    exact agree_convertVariant hrun place parts t _ _ part
  | select variants => exact agree_convertSelection hrun place marks h parts t
  | intoCapsule accept =>
    obtain ⟨made, same⟩ := accepts accept rfl
    simp only [apply, same v, same w, show v.unmarkDeep = w.unmarkDeep from outer, place made]
    exact .refl Alike.refl _
  | outOfCapsule offer =>
    simp only [apply, h.alike.payload _ marks]
    exact .refl Alike.refl _

omit marks in
/-- A decision that was put off hangs on the type of the value, which has no marks. -/
theorem Rule.agree_applyDecided {rule : Rule Conversion} (hr : rule.Fair free) {t : Ty}
    (types : free → t.CapsuleFree) (host : ¬ free → Host.DisregardsMarks) :
    Agree Alike (rule.applyDecided run t v.unmark path site)
      (rule.applyDecided run' t w.unmark path site') := by
  unfold applyDecided
  split
  · refine .mapError ?_
    unfold convertDecided
    rw [ty_unmark, ty_unmark, ← h.alike.ty]
    split
    · rename_i rule planned
      refine agree_apply hrun place h ((planned_of_between? planned).fair (fun hf => ?_) host) t
      exact ⟨(h.sterile hf).1.free.here, types hf⟩
    · exact .error _
  · exact agree_apply hrun place h hr t

end

/-! ## Runs -/

section

variable [Host] {v w : Value}

/-- One step of two runs. -/
theorem Conversion.agree_runWith (hrun : Runner.Parallel free run run')
    (place : ¬ free → site = site') (host : ¬ free → Host.DisregardsMarks) {c : Conversion}
    (hc : c.Fair free) (h : Twins free v w) :
    Agree Alike (c.runWith run v path site) (c.runWith run' w path site') := by
  obtain ⟨mode, s, t, leads, types⟩ := hc
  cases leads with
  | forget => exact .ok ((Alike.refl _).withMarks _ _)
  | planned hp =>
    obtain ⟨rule, rfl, planned⟩ := planned_of_plan? hp
    by_cases hd : t = .dynamic
    · cases hd
      exact .ok h.alike
    cases known : v.isKnown with
    | false =>
      rw [runWith_unknown hd known, runWith_unknown hd (h.alike.isKnown ▸ known),
        h.alike.unmark_eq_of_unknown known]
      exact .map_same fun x => (Alike.refl x).withMarks _ _
    | true =>
      cases null : v.isNull with
      | true =>
        rw [runWith_null hd null, runWith_null hd (h.alike.isNull ▸ null), h.alike.ty]
        exact .ok ((Alike.refl _).withMarks _ _)
      | false =>
        rw [runWith_decided hd known null,
          runWith_decided hd (h.alike.isKnown ▸ known) (h.alike.isNull ▸ null)]
        have decided : Agree Alike (rule.applyDecided run t v.unmark path site)
            (rule.applyDecided run' t w.unmark path site') :=
          Rule.agree_applyDecided hrun place h (planned.fair types host)
            (fun hf => (types hf).2) host
        exact decided.map fun x y hxy => hxy.withMarks _ _

/-- Two runs of one conversion on twins. -/
theorem Conversion.agree_run (place : ¬ free → site = site')
    (host : ¬ free → Host.DisregardsMarks) {c : Conversion} (hc : c.Fair free)
    (h : Twins free v w) :
    Agree (Twins free) (c.run v path site) (c.run w path site') := by
  -- twins have one height, and parts are run at lower ones
  induction hn : v.height using Nat.strong_induction_on generalizing c v w path site site' with
  | _ n ih =>
    subst hn
    have parts : Runner.Parallel free (runPart v.height) (runPart w.height) := by
      intro c x y site site' path hc hxy place
      unfold runPart
      rw [← h.alike.height, ← hxy.alike.height]
      split
      · exact ih x.height ‹_› place hc hxy rfl
      · exact .error _
    have same : Agree Alike (c.run v path site) (c.run w path site') := by
      rw [run_eq, run_eq]
      exact agree_runWith parts place host hc h
    refine same.strengthen fun x y hx hy alike => ⟨alike, fun hf => ?_⟩
    obtain ⟨mode, s, t, leads, types⟩ := hc
    have sterile : c.Sterile := ⟨mode, s, t, leads, types hf⟩
    exact ⟨run_sterile sterile (h.sterile hf).1 hx, run_sterile sterile (h.sterile hf).2 hy⟩

/-- Conversions of twins to a type. -/
theorem Value.agree_convert (place : ¬ free → site = site')
    (host : ¬ free → Host.DisregardsMarks) {t : Ty} (ht : free → t.CapsuleFree)
    (h : Twins free v w) : Agree (Twins free) (v.convert t site) (w.convert t site') := by
  unfold convert
  rw [← h.alike.ty]
  split
  · exact .ok h
  split
  · rename_i c planned
    refine Conversion.agree_run place host ⟨.lenient, v.ty, t, .planned planned, fun hf => ?_⟩ h
    exact ⟨(h.sterile hf).1.free.here, ht hf⟩
  · exact .error _

/-! ## What is the same apart from marks -/

namespace Value

/-- Values without capsules that are alike have the same representation. -/
theorem CapsuleFree.same (hv : v.CapsuleFree) (h : v.Alike w) : v.rawEquals w = true := by
  change Same v w
  induction hv generalizing w with
  | @intro v here inside ih =>
    refine same_iff.2 ⟨h.ty, ?_⟩
    have content := h.content
    obtain ⟨m, c⟩ := v
    generalize w.content = d at content ⊢
    -- parts that are the same in both are so at every depth, as no capsule is among them
    cases content with
    | same parts =>
      have all {xs : List Value} (hx : ∀ x ∈ xs, Same x x) : List.Forall₂ Same xs xs :=
        List.forall₂_same.2 hx
      have inner := fun x hx => ih x hx (.refl x)
      cases c with
      | null => exact .null _
      | unknown => exact .unknown _ _
      | number => exact .matched (.number _)
      | string => exact .matched (.string _)
      | bool => exact .matched (.bool _)
      | list => exact .matched (.list (all inner))
      | set => exact .set (all inner)
      | map => exact .matched (.map rfl (all inner))
      | object => exact .matched (.object rfl (all inner))
      | tuple => exact .matched (.tuple (all inner))
      | union => exact .matched (.union (inner _ List.mem_cons_self))
      | capsule => cases here.here
    | matched parts => exact .matched (parts.mono fun x hx y _ h => ih x hx h)

/-- Marks do not influence conversions. A conversion fails on a value as it does on the value
without marks, and otherwise the results are the same apart from marks. Capsules that are made in
two conversions are told apart by the places of these conversions, which hence are the same unless
there are no capsules. -/
theorem convert_apart_from_marks (v : Value) (t : Ty) :
    (Host.DisregardsMarks → ∀ site,
      (v.convert t site).map unmarkDeep = (v.unmarkDeep.convert t site).map unmarkDeep) ∧
    (v.WellMade → v.CapsuleFree → t.CapsuleFree → ∀ site site',
      Agree (fun w w₀ => w.unmarkDeep.rawEquals w₀ = true ∧ w.ty = w₀.ty)
        (v.convert t site) (v.unmarkDeep.convert t site')) := by
  constructor
  · -- capsules may be anywhere, so both runs have to be at one place
    intro host site
    have twins : Twins False v v.unmarkDeep := ⟨.of_unmarkDeep v, False.elim⟩
    exact Agree.iff_map.1 ((agree_convert (fun _ => rfl) (fun _ => host) False.elim twins).mono
      fun _ _ h => h.alike)
  · -- there is no capsule whose place could tell the runs apart
    intro made free target site site'
    have sterile : v.Sterile := ⟨made, free⟩
    have twins : Twins True v v.unmarkDeep :=
      ⟨.of_unmarkDeep v, fun _ => ⟨sterile, made.unmarkDeep, free.unmarkDeep⟩⟩
    have both : Agree (Twins True) (v.convert t site) (v.unmarkDeep.convert t site') :=
      agree_convert (absurd trivial) (absurd trivial) (fun _ => target) twins
    refine both.mono fun w w₀ h => ⟨?_, h.alike.ty⟩
    exact (h.sterile trivial).1.free.unmarkDeep.same ((Alike.of_unmarkDeep w).symm.trans h.alike)

end Value

end

/-- A host whose capsule types all take any value in one way. -/
abbrev Host.taking (accept : Value → Path → Except Failure Native) : Host where
  digest _ := 0
  operations _ := { conversionFrom := some fun _ => some accept }
  nativeName _ := ""

/-- A number taken for a port. -/
def portOf (v : Value) (path : Path) : Except Failure Native := do
  let n ← orFailure v.asNumber
  match n.toSignedWord? with
  | some i => return .integer i
  | none => path.fail (.custom "port out of range")

theorem disregardsMarks_ports : @Host.DisregardsMarks (Host.taking portOf) := by
  intro _ _ _ eq v path
  cases eq
  have marks : v.unmark.marks = v.unmarkDeep.marks := (marks_unmarkDeep v).symm
  have same := Alike.asNumber marks (.trans (unmarkDeep_unmark v) (.of_unmarkDeep v))
  rw [portOf, portOf, same]

/-- A tuple with a marked number. -/
def Value.markedPort : Value :=
  .tuple [(ofNat 5).withMarks (.ofList ["m"])]

/-- A capsule type for ports. -/
def CapsuleType.port : CapsuleType :=
  ⟨0, "port", .integer⟩

theorem Value.sterile_markedPort : markedPort.Sterile := by
  refine sterile_tuple fun v hv => ?_
  cases List.mem_singleton.1 hv
  exact (sterile_number _).withMarks _

/-- A marked number becomes a port and a string as it does without the mark. -/
theorem Value.convert_apart_from_marks_port :
    letI := Host.taking portOf
    Host.DisregardsMarks ∧ markedPort.WellMade ∧ markedPort.CapsuleFree ∧
      (∃ w, markedPort.convert (.tuple [.capsule .port]) [] = .ok w ∧
        w.unmarkDeep = .tuple [.bare (.capsule .port ⟨.integer 5, [0]⟩)]) ∧
      ∃ w, markedPort.convert (.tuple [.string]) [0] = .ok w ∧
        w.unmarkDeep.rawEquals (.tuple [.string "5"]) = true := by
  let := Host.taking portOf
  obtain ⟨made, free⟩ := sterile_markedPort
  have target : (Ty.tuple [.string]).CapsuleFree :=
    Ty.everywhere_tuple.2 ⟨rfl, fun t ht => by
      cases List.mem_singleton.1 ht
      exact (Ty.everywhere_leaf rfl).2 rfl⟩
  have port := (convert_apart_from_marks markedPort (.tuple [.capsule .port])).1
    disregardsMarks_ports []
  have text := (convert_apart_from_marks markedPort (.tuple [.string])).2 made free target [0] [1]
  have clean : markedPort.unmarkDeep.convert (.tuple [.capsule .port]) [] =
      .ok (.tuple [.bare (.capsule .port ⟨.integer 5, [0]⟩)]) := by cbv
  have clean' : markedPort.unmarkDeep.convert (.tuple [.string]) [1] =
      .ok (.tuple [.string "5"]) := by cbv
  rw [clean] at port
  rw [clean'] at text
  refine ⟨disregardsMarks_ports, made, free, ?_, ?_⟩
  · obtain ⟨w, converted, same⟩ := ValueAlgebra.map_eq_ok port
    exact ⟨w, converted, same⟩
  · generalize markedPort.convert (.tuple [.string]) [0] = x at text
    cases text with
    | ok h => exact ⟨_, rfl, h.1⟩

/-- Without one place for both conversions, and with capsule types that look at the marks inside of
a value, marks do not go unnoticed. -/
theorem Value.convert_tells_apart :
    (¬ ∀ (_ : Host) (v : Value) (t : Ty) (site site' : List Nat), Host.DisregardsMarks →
      v.WellMade → v.CapsuleFree → Agree (fun w w₀ => w.unmarkDeep.rawEquals w₀ = true)
        (v.convert t site) (v.unmarkDeep.convert t site')) ∧
    ¬ ∀ (_ : Host) (v : Value) (t : Ty) (site : List Nat), v.WellMade → v.CapsuleFree →
      (v.convert t site).map unmarkDeep = (v.unmarkDeep.convert t site).map unmarkDeep := by
  obtain ⟨made, free⟩ := sterile_markedPort
  constructor
  · intro claim
    let := Host.taking portOf
    have agree := claim this markedPort (.tuple [.capsule .port]) [0] [1] disregardsMarks_ports
      made free
    let port (site : List Nat) : Value := .bare (.capsule .port ⟨.integer 5, site⟩)
    have left : markedPort.convert (.tuple [.capsule .port]) [0] =
        .ok (.tuple [(port [0, 0]).withMarks (.ofList ["m"])]) := by cbv
    have right : markedPort.unmarkDeep.convert (.tuple [.capsule .port]) [1] =
        .ok (.tuple [port [0, 1]]) := by cbv
    have apart : (Value.tuple [(port [0, 0]).withMarks (.ofList ["m"])]).unmarkDeep.rawEquals
        (.tuple [port [0, 1]]) = false := by cbv
    rw [left, right] at agree
    cases agree with
    | ok same => exact absurd same (by rw [apart]; simp)
  · intro claim
    let accept (v : Value) (_ : Path) : Except Failure Native :=
      .ok (.integer (if v.containsMarked then 1 else 0))
    let := Host.taking accept
    have same := claim this markedPort (.capsule .port) [] made free
    have left : (markedPort.convert (.capsule .port) []).map unmarkDeep =
        .ok (.bare (.capsule .port ⟨.integer 1, []⟩)) := by cbv
    have right : (markedPort.unmarkDeep.convert (.capsule .port) []).map unmarkDeep =
        .ok (.bare (.capsule .port ⟨.integer 0, []⟩)) := by cbv
    rw [left, right] at same
    cases same

end ValueAlgebra
