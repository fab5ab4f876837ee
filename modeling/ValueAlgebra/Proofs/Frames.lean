import ValueAlgebra.Proofs.MarkedRuns
import ValueAlgebra.Proofs.Walks

/-!
# The place of a value

Where a value is found does not count for its conversion: at a path inside of a larger value, a
conversion fails as it does on the value alone, with the path in front of the path of the complaint.
This is clear where each part is given a longer path. It also holds where a decision is put off,
since what is decided later starts from an empty path and gets the path in front of its failures.

Main statements:

* `Framed.bind`, `Framed.mapM`, `Framed.push`: what such computations are made of.
* `Rule.framed_apply`, `Conversion.framed_run`: rules and whole runs.
* `Conversion.convertAt_under`: conversions of values that are found at a path.
-/

namespace ValueAlgebra

open Entries Text

/-! ## Computations that start at a path -/

namespace Failure

theorem under_root (e : Failure) : e.under .root = e := by
  cases e <;> rfl

theorem under_push (e : Failure) (path : Path) (step : Step) :
    e.under (path.push step) = (e.under (Path.root.push step)).under path := by
  cases e with
  | fault cause => rfl
  | path error =>
    simp only [under, Path.push, Path.root, HAppend.hAppend, Append.append, Path.append]
    simp

end Failure

/-- The path counts for nothing but the beginning of the paths that are complained of. -/
def Framed {α : Type} (f : Path → Except Failure α) : Prop :=
  ∀ path, f path = (f .root).mapError (Failure.under path)

namespace Framed

variable {α β : Type} {f : Path → Except Failure α}

theorem ok (a : α) : Framed fun _ => (.ok a : Except Failure α) :=
  fun _ => rfl

theorem of (x : Except Fault α) : Framed fun _ => orFailure x := by
  intro path
  cases x <;> rfl

theorem fault (cause : Fault) : Framed fun _ => (.error (.fault cause) : Except Failure α) :=
  fun _ => rfl

theorem fail (complaint : Complaint) : Framed fun path => (path.fail complaint : Except Failure α) := by
  rintro ⟨steps⟩
  change Except.error (Failure.path ⟨⟨steps⟩, complaint⟩) = .error (.path ⟨⟨steps ++ []⟩, complaint⟩)
  rw [List.append_nil]

theorem bind {g : α → Path → Except Failure β} (h : Framed f)
    (hn : ∀ a, f .root = .ok a → Framed (g a)) : Framed fun path => f path >>= fun a => g a path := by
  intro path
  change f path >>= _ = (f .root >>= _).mapError _
  rw [h path]
  cases hf : f .root with
  | error e => rfl
  | ok a => exact hn a hf path

theorem map (h : Framed f) (g : α → β) : Framed fun path => (f path).map g := by
  intro path
  change (f path).map g = ((f .root).map g).mapError _
  rw [h path]
  cases f .root <;> rfl

theorem ite {c : Prop} [Decidable c] {g : Path → Except Failure α} (h : Framed f) (hg : Framed g) :
    Framed fun path => if c then f path else g path := by
  split
  · exact h
  · exact hg

/-- One step further. -/
theorem push (h : Framed f) (step : Step) : Framed fun path => f (path.push step) := by
  intro path
  change f (path.push step) = (f (Path.root.push step)).mapError _
  rw [h, h (Path.root.push step)]
  cases f .root with
  | error e => exact congrArg Except.error (e.under_push path step)
  | ok => rfl

/-- What starts from an empty path and gets the path in front of its failures. -/
theorem apart (x : Except Failure α) : Framed fun path => x.mapError (Failure.under path) := by
  intro path
  cases x with
  | error e => exact congrArg (fun e => Except.error (Failure.under path e)) e.under_root.symm
  | ok => rfl

theorem mapM {γ : Type} {g : γ → Path → Except Failure α} {xs : List γ}
    (h : ∀ x ∈ xs, Framed (g x)) : Framed fun path => xs.mapM fun x => g x path := by
  induction xs with
  | nil => exact .ok []
  | cons x xs ih =>
    simp only [List.mapM_cons]
    refine .bind (h x List.mem_cons_self) fun y _ => ?_
    exact .bind (ih fun z hz => h z (List.mem_cons_of_mem _ hz)) fun ys _ => .ok _

end Framed

/-! ## Helpers without parts -/

theorem framed_primitive (rule : PrimitiveRule) (v : Value) : Framed fun path => rule.apply v path := by
  cases rule with
  | numberToString | boolToString => exact .of _
  | stringToNumber =>
    refine .bind (.of _) fun s _ => ?_
    unfold numberOfText
    split
    · exact .ok _
    · exact .fault _
    · exact .fail _
  | stringToBool =>
    refine .bind (.of _) fun s _ => ?_
    exact .ite (.ok _) (.ite (.ok _) (.ite (.fail _) (.ite (.fail _) (.fail _))))

theorem framed_namedElements (v : Value) : Framed fun _ => v.namedElements :=
  .bind (.of _) fun _ _ => .mapM fun _ _ => .of _

theorem framed_missingAttributes (found : List (String × Value)) (optional : List String)
    (ts : List (String × Ty)) : Framed fun path => missingAttributes found optional path ts := by
  induction ts with
  | nil => exact .ok []
  | cons t ts ih =>
    obtain ⟨name, t⟩ := t
    unfold missingAttributes
    exact .ite ih (.ite (.bind ih fun rest _ => .ok _) (.fail _))

theorem framed_select (chosen : Option (String × Value)) (elements : List (Value × Value)) :
    Framed fun path => select path chosen elements := by
  induction elements generalizing chosen with
  | nil =>
    cases chosen with
    | none => exact .fail _
    | some chosen => exact .ok _
  | cons element elements ih =>
    obtain ⟨key, part⟩ := element
    simp only [select]
    refine .ite (.ok _) ?_
    refine .ite (ih chosen) ?_
    refine .bind (.of _) fun name _ => ?_
    cases chosen with
    | none => exact ih _
    | some first => exact .fail _

/-! ## Parts -/

section

variable [Host]

/-- The operations of capsule types are told the path to a value for nothing but complaints. -/
def Host.DisregardsPlaces : Prop :=
  (∀ (c : CapsuleType) (s : Ty) (accept : Value → Path → Except Failure Native),
    c.accepting? s = some accept → ∀ v, Framed (accept v)) ∧
  ∀ (c : CapsuleType) (t : Ty) (offer : Native → Path → Except Failure Value),
    c.offering? t = some offer → ∀ native, Framed (offer native)

theorem Conversion.Fair.sterile {free : Prop} {c : Conversion} (h : c.Fair free) (hf : free) :
    c.Sterile := by
  obtain ⟨mode, s, t, leads, types⟩ := h
  exact ⟨mode, s, t, leads, types hf⟩

/-- The conversions of the parts are fair, and ways into and out of capsules disregard the place. -/
structure Rule.Placeless (free : Prop) (rule : Rule Conversion) : Prop where
  parts : ∀ c ∈ rule.conversions, c.Fair free
  accepts : ∀ accept, rule = .intoCapsule accept → ∀ v, Framed (accept v)
  offers : ∀ offer, rule = .outOfCapsule offer → ∀ native, Framed (offer native)

variable {free : Prop} {mode : Mode} {s t : Ty} {rule : Rule Conversion}

theorem Rule.Planned.placeless (h : Rule.Planned mode s t rule)
    (types : free → s.CapsuleFree ∧ t.CapsuleFree) (host : ¬ free → Host.DisregardsPlaces) :
    rule.Placeless free where
  parts c hc := by
    obtain ⟨mode', s', t', hp, kept⟩ := h.plans hc
    exact ⟨mode', s', t', .planned hp, fun hf => kept (types hf).1 (types hf).2⟩
  accepts accept eq := by
    subst eq
    cases h with
    | ofCapsules _ _ h =>
      obtain ⟨-, ⟨c, _, rfl, ha, eq⟩ | ⟨_, _, _, _, eq⟩⟩ := Rule.ofCapsules?_eq_some h
      · cases eq
        have made : ¬ free := fun hf => by
          have := (types hf).2.here
          cases this
        exact (host made).1 c s accept ha
      · cases eq
  offers offer eq := by
    subst eq
    cases h with
    | ofCapsules _ _ h =>
      obtain ⟨-, ⟨_, _, _, _, eq⟩ | ⟨c, _, rfl, ho, eq⟩⟩ := Rule.ofCapsules?_eq_some h
      · cases eq
      · cases eq
        have made : ¬ free := fun hf => by
          have := (types hf).1.here
          cases this
        exact (host made).2 c t offer ho

/-- The runs of parts disregard the place. Where there are no capsules, they make none. -/
structure Runner.Placeless (free : Prop) (run : Runner) : Prop where
  framed : ∀ {c : Conversion} {v : Value} (site : List Nat), c.Fair free → (free → v.Sterile) →
    Framed fun path => run c v path site
  sterile : free → run.Sterile

end

variable [Host] {free : Prop} {run : Runner} {mode : Mode} {v : Value} {site : List Nat}

section

variable (hrun : run.Placeless free)

include hrun

theorem framed_runAll (site : List Nat) (plans : List PartStep)
    (h : ∀ p ∈ plans, p.conversion.Fair free ∧ (free → p.part.Sterile)) :
    Framed fun path => run.runAll site (plans.map (·.plan path)) := by
  unfold Runner.runAll
  simp only [List.zipIdx_map, List.mapM_map]
  refine .mapM fun ⟨p, i⟩ hp => ?_
  obtain ⟨fair, sterile⟩ := h p ((List.mem_zipIdx hp).2.2 ▸ List.getElem_mem _)
  exact (hrun.framed ((2 * i) :: site) fair sterile).push p.step

theorem framed_runSecond {values : List (Value × Option Conversion)}
    (h : ∀ v c, (v, some c) ∈ values → c.Fair free ∧ (free → v.Sterile)) :
    Framed fun path => run.runSecond path site values := by
  refine .mapM fun ⟨⟨v, conversion?⟩, i⟩ hx => ?_
  cases conversion? with
  | none => exact .ok v
  | some c =>
    obtain ⟨fair, sterile⟩ := h v c ((List.mem_zipIdx hx).2.2 ▸ List.getElem_mem _)
    exact hrun.framed _ fair sterile

theorem framed_homogenize (kind : CollectionKind) {values : List Value}
    (h : free → ∀ v ∈ values, v.Sterile) :
    Framed fun path => homogenize run kind mode path site values := by
  refine .ite (.ok _) ?_
  cases hu : Unification.plan? mode (Value.types values) with
  | none => exact .fail _
  | some u =>
    refine .bind (framed_runSecond hrun fun v c hm => ?_) fun second _ => .ite (.ok _) (.fail _)
    obtain ⟨inside, chosen⟩ := List.of_mem_zip hm
    obtain ⟨s, hs, leads⟩ := Unification.leads_of_conversion hu chosen
    refine ⟨⟨mode, s, u.target, leads, fun hf => ?_⟩, fun hf => h hf v inside⟩
    have types : ∀ t ∈ Value.types values, t.CapsuleFree := fun t ht => by
      obtain ⟨v, hv, rfl⟩ := Value.mem_types.1 ht
      exact (h hf v hv).free.here
    exact ⟨types s hs, .unified types hu⟩

variable (hv : free → v.Sterile)

include hv

theorem framed_convertTuple {conversions : List Conversion}
    (hc : ∀ c ∈ conversions, c.Fair free) :
    Framed fun path => convertTuple run conversions v path site := by
  refine .bind (.of _) fun elements he => ?_
  have parts := framed_runAll hrun site ((elements.zip conversions).map
    fun x => ⟨x.2, x.1.2, .index x.1.1⟩) fun p hp => by
      obtain ⟨⟨element, c⟩, hm, rfl⟩ := List.mem_map.1 hp
      obtain ⟨hx, hm⟩ := List.of_mem_zip hm
      exact ⟨hc c hm, fun hf => (hv hf).inside (Value.elements_eq_ok (orFailure_eq_ok he) hx).1⟩
  simp only [List.map_map] at parts
  exact parts

theorem framed_convertNamed {conversions : List (String × Conversion)}
    (hc : ∀ c ∈ values conversions, c.Fair free) (locate : String → Value → Step) :
    Framed fun path =>
      convertNamed run conversions (fun name key => path.push (locate name key)) v site := by
  refine .bind (framed_namedElements v) fun elements he => ?_
  simp only [filterMap_plan, List.map_map, Function.comp_def]
  refine .bind ?_ fun values _ => .ok _
  have parts := framed_runAll hrun site ((elements.filterMap
    fun x => (conversions.lookup x.1).map fun conversion =>
      (x.1, PartStep.mk conversion x.2.2 (locate x.1 x.2.1))).map (·.2)) fun p hp => by
      obtain ⟨⟨name, p⟩, hm, rfl⟩ := List.mem_map.1 hp
      obtain ⟨⟨name, key, part⟩, hx, eq⟩ := List.mem_filterMap.1 hm
      obtain ⟨c, found, eq⟩ := Option.map_eq_some_iff.1 eq
      cases eq
      exact ⟨hc c (mem_values (mem_of_lookup found)),
        fun hf => (hv hf).inside (mem_parts_of_namedElements he _ hx)⟩
  simp only [List.map_map, Function.comp_def] at parts
  exact parts

theorem framed_convertItems (kind : CollectionKind) {element : Conversion} (wanted : Ty)
    (hc : element.Fair free) :
    Framed fun path => convertItems run kind mode element wanted v path site := by
  refine .bind (.of _) fun elements he => ?_
  have inside : ∀ x ∈ elements, x.2 ∈ v.content.parts :=
    fun x hx => (Value.elements_eq_ok (orFailure_eq_ok he) hx).1
  have parts := framed_runAll hrun site (elements.map fun x =>
    ⟨element, x.2, .index (if kind = .set then .unknown wanted else x.1)⟩) fun p hp => by
      obtain ⟨x, hx, rfl⟩ := List.mem_map.1 hp
      exact ⟨hc, fun hf => (hv hf).inside (inside x hx)⟩
  simp only [List.map_map] at parts
  refine .bind parts fun values hr => .ite (.bind (.of _) fun _ _ => .ok _) ?_
  refine .bind (framed_homogenize hrun kind fun hf x hx => ?_) fun values _ => ?_
  · refine ResultOf.sterile (hrun.sterile hf) (hv hf) (fun d (eq : d = element) => eq ▸ hc.sterile hf)
      (Runner.resultOf_runAll (fun p hp => ?_) hr x hx)
    obtain ⟨y, hy, rfl⟩ := List.mem_map.1 hp
    exact ⟨inside y hy, rfl⟩
  · by_cases set : kind = .set
    · simp only [if_pos set]
      exact .of _
    · simp only [if_neg set]
      exact .of _

theorem framed_convertEntries {element : Conversion} (wanted : Ty) (hc : element.Fair free) :
    Framed fun path => convertEntries run mode element wanted v path site := by
  refine .bind (framed_namedElements v) fun elements he => ?_
  have parts := framed_runAll hrun site (elements.map fun x =>
    ⟨element, x.2.2, .index x.2.1⟩) fun p hp => by
      obtain ⟨x, hx, rfl⟩ := List.mem_map.1 hp
      exact ⟨hc, fun hf => (hv hf).inside (mem_parts_of_namedElements he x hx)⟩
  simp only [List.map_map] at parts
  refine .bind parts fun values hr => .ite (.bind (.of _) fun _ _ => .ok _) ?_
  refine .bind (framed_homogenize hrun .map fun hf x hx => ?_) fun values _ => .of _
  refine ResultOf.sterile (hrun.sterile hf) (hv hf) (fun d (eq : d = element) => eq ▸ hc.sterile hf)
    (Runner.resultOf_runAll (fun p hp => ?_) hr x hx)
  obtain ⟨y, hy, rfl⟩ := List.mem_map.1 hp
  exact ⟨mem_parts_of_namedElements he y hy, rfl⟩

omit hv in
theorem framed_convertVariant {conversions : List (String × Conversion)}
    (hc : ∀ c ∈ values conversions, c.Fair free) (target : Ty) (name : String) {part : Value}
    (hp : free → part.Sterile) (complaint : Complaint) :
    Framed fun path => convertVariant run conversions target name part complaint path site := by
  unfold convertVariant
  cases found : conversions.lookup name with
  | none => exact .fail _
  | some c =>
    have fair := hc c (mem_values (mem_of_lookup found))
    exact .bind ((hrun.framed (0 :: site) fair hp).push (.attr name)) fun inner _ => .of _

theorem framed_convertSelection {conversions : List (String × Conversion)}
    (hc : ∀ c ∈ values conversions, c.Fair free) (target : Ty) :
    Framed fun path => convertSelection run conversions target v path site := by
  refine .bind (.of _) fun elements he => .bind (framed_select none elements) fun selection hs => ?_
  cases selection with
  | undecided => exact .of _
  | variant name part =>
    refine framed_convertVariant hrun hc target name (fun hf => ?_) _
    obtain ⟨x, hx, rfl⟩ := (part_of_select hs).resolve_left (by simp)
    exact (hv hf).inside (Value.elements_eq_ok (orFailure_eq_ok he) hx).1

/-! ## Rules -/

theorem Rule.framed_apply {rule : Rule Conversion} (hr : rule.Placeless free) (t : Ty) :
    Framed fun path => rule.apply run t v path site := by
  obtain ⟨parts, accepts, offers⟩ := hr
  cases rule with
  | keep | decideLater => exact .ok v
  | primitive rule => exact framed_primitive rule v
  | object attributes absent =>
    exact .bind (framed_convertNamed hrun hv parts _) fun converted _ => .ok _
  | tuple elements => exact .bind (framed_convertTuple hrun hv parts) fun converted _ => .ok _
  | collection kind mode element wanted =>
    have fair := parts element List.mem_cons_self
    refine .bind (.of _) fun _ _ => .ite ?_ ?_
    · exact framed_convertEntries hrun hv wanted fair
    · exact framed_convertItems hrun hv kind wanted fair
  | gather kind mode elements wanted =>
    refine .bind (framed_convertTuple hrun hv parts) fun values hr => .ite (.ok _) ?_
    refine .bind (framed_homogenize hrun kind fun hf x hx => ?_) fun values _ => ?_
    · exact (resultOf_convertTuple hr x hx).sterile (hrun.sterile hf) (hv hf)
        fun c hc => (parts c hc).sterile hf
    · by_cases set : kind = .set
      · simp only [if_pos set]
        exact .of _
      · simp only [if_neg set]
        exact .of _
  | emptyMap wanted => exact .ok _
  | entries mode attributes =>
    refine .bind (framed_convertNamed hrun hv parts _) fun converted hr => ?_
    refine .bind (framed_homogenize hrun .map fun hf x hx => ?_) fun values _ => .of _
    exact (resultOf_convertNamed hr x hx).sterile (hrun.sterile hf) (hv hf)
      fun c hc => (parts c hc).sterile hf
  | pick conversions attributes optional =>
    refine .bind (framed_convertNamed hrun hv parts _) fun converted _ => ?_
    exact .bind (framed_missingAttributes _ _ _) fun missing _ => .ok _
  | union variants =>
    refine .bind (.of _) fun x hx => framed_convertVariant hrun parts t _ (fun hf => ?_) _
    exact (hv hf).inside (Value.variant_eq_ok (orFailure_eq_ok hx))
  | select variants => exact framed_convertSelection hrun hv parts t
  | intoCapsule accept => exact .bind (accepts accept rfl v) fun native _ => .of _
  | outOfCapsule offer =>
    refine .bind (.of _) fun payload _ => .bind (offers offer rfl _) fun converted _ => ?_
    exact .ite (.ok _) (.fault _)

omit hrun hv in
theorem Rule.framed_applyDecided (hrun : run.Placeless free) (hv : free → v.Sterile)
    {rule : Rule Conversion} (hr : rule.Placeless free) (t : Ty) :
    Framed fun path => rule.applyDecided run t v path site := by
  cases rule with
  | decideLater => exact .apart _
  | _ =>
    simp only [Rule.applyDecided]
    exact framed_apply hrun hv hr t

end

/-! ## Runs -/

namespace Conversion

theorem framed_runWith (hrun : run.Placeless free) (host : ¬ free → Host.DisregardsPlaces)
    {c : Conversion} (hc : c.Fair free) (hv : free → v.Sterile) :
    Framed fun path => c.runWith run v path site := by
  obtain ⟨mode, s, t, leads, types⟩ := hc
  cases leads with
  | forget => exact .ok _
  | planned hp =>
    obtain ⟨rule, rfl, planned⟩ := planned_of_plan? hp
    refine .ite (.ok v) (.map (.ite (.of _) (.ite (.ok _) ?_)) _)
    exact Rule.framed_applyDecided hrun (fun hf => (hv hf).unmark) (planned.placeless types host) t

/-- The place of a value counts for a run only as the beginning of the paths that are complained
of. -/
theorem framed_run (host : ¬ free → Host.DisregardsPlaces) {c : Conversion} (hc : c.Fair free)
    (hv : free → v.Sterile) : Framed fun path => c.run v path site := by
  induction hn : v.height using Nat.strong_induction_on generalizing c v site with
  | _ n ih =>
    subst hn
    simp only [run_eq c v]
    refine framed_runWith ⟨fun {c part} site hc hp => ?_, fun hf {_ _ _ _ _} hc hv hw => ?_⟩ host hc hv
    · unfold runPart
      by_cases lower : part.height < v.height
      · simp only [if_pos lower]
        exact ih _ lower hc hp rfl
      · simp only [if_neg lower]
        exact .fault _
    · exact run_sterile hc hv (runPart_ok hw).2

/-- A conversion at a path comes to what it comes to alone, with the path in front of failures, and
leaves the path as it was. -/
theorem convertAt_eq_under (host : ¬ free → Host.DisregardsPlaces) {c : Conversion}
    (hc : c.Fair free) (hv : free → v.Sterile) (path : Path) :
    c.convertAt v path site = ((c.convert v site).mapError (Failure.under path), path) := by
  rw [convert, convertAt_eq, convertAt_eq]
  exact congrArg (·, path) (framed_run host hc hv path)

/-- Converting at a path is converting alone with the path in front: the results are the same, a
complaint is the same and its path goes on where the path ends, and the path is given back as it
was. -/
theorem convertAt_under {s t : Ty} {c : Conversion} (hc : plan? mode s t = some c)
    (hs : s.CapsuleFree) (ht : t.CapsuleFree) (hv : v.Sterile ∨ Host.DisregardsPlaces)
    (path : Path) :
    (∀ w, (c.convertAt v path site).1 = .ok w ↔ c.convert v site = .ok w) ∧
    (∀ e, (c.convertAt v path site).1 = .error (.path e) ↔
      ∃ q, e.path = path ++ q ∧ c.convert v site = .error (.path ⟨q, e.complaint⟩)) ∧
    (∀ cause, (c.convertAt v path site).1 = .error (.fault cause) ↔
      c.convert v site = .error (.fault cause)) ∧
    (c.convertAt v path site).2 = path := by
  have under : c.convertAt v path site =
      ((c.convert v site).mapError (Failure.under path), path) := by
    rcases hv with hv | host
    · have fair : c.Fair True := ⟨mode, s, t, .planned hc, fun _ => ⟨hs, ht⟩⟩
      exact convertAt_eq_under (absurd trivial) fair (fun _ => hv) path
    · have fair : c.Fair False := ⟨mode, s, t, .planned hc, False.elim⟩
      exact convertAt_eq_under (fun _ => host) fair False.elim path
  rw [under]
  refine ⟨fun w => ?_, fun e => ?_, fun cause => ?_, rfl⟩
  · cases c.convert v site <;> simp [Except.mapError]
  · cases c.convert v site with
    | ok w => simp [Except.mapError]
    | error failure =>
      cases failure with
      | fault => simp [Except.mapError, Failure.under]
      | path error =>
        obtain ⟨q, complaint⟩ := error
        obtain ⟨p, m⟩ := e
        simp only [Except.mapError, Failure.under, Except.error.injEq, Failure.path.injEq,
          PathError.mk.injEq]
        constructor
        · rintro ⟨rfl, rfl⟩
          exact ⟨q, rfl, rfl, rfl⟩
        · rintro ⟨_, rfl, rfl, rfl⟩
          exact ⟨rfl, rfl⟩
  · cases c.convert v site with
    | ok w => simp [Except.mapError]
    | error failure => cases failure <;> simp [Except.mapError, Failure.under]

/-- A tuple of an object whose attribute is of no declared type. -/
def nestedSource : Ty :=
  .tuple [.object [("a", .dynamic)] []]

def nestedTarget : Ty :=
  .tuple [.object [("a", .list .number)] []]

def nestedValue : Value :=
  .tuple [.object [("a", .tuple [.string "1", .string "x"])]]

omit [Host] in
theorem sterile_nestedValue : nestedValue.Sterile := by
  refine Value.sterile_tuple fun v hv => ?_
  cases List.mem_singleton.1 hv
  refine Value.sterile_object fun v hv => ?_
  cases List.mem_singleton.1 hv
  refine Value.sterile_tuple fun v hv => ?_
  rcases List.mem_pair.1 hv with rfl | rfl <;> exact Value.sterile_string _

omit [Host] in
/-- A text that is no number is found through a decision that is put off, below the path as it is
without one. -/
theorem convertAt_under_nested :
    letI := Host.plain
    ∃ c, plan? .lenient nestedSource nestedTarget = some c ∧ nestedSource.CapsuleFree ∧
      nestedTarget.CapsuleFree ∧ nestedValue.Sterile ∧
      c.convertAt nestedValue ⟨[.attr "x"]⟩ [] =
        (.error (.path ⟨⟨[.attr "x", .index (.ofNat 0), .attr "a", .index (.ofNat 1)]⟩,
          .numberRequired⟩), ⟨[.attr "x"]⟩) := by
  let := Host.plain
  have source : nestedSource.CapsuleFree := by decide
  have target : nestedTarget.CapsuleFree := by decide
  have alone : (plan? .lenient nestedSource nestedTarget).map (fun c => c.convert nestedValue []) =
      some (.error (.path ⟨⟨[.index (.ofNat 0), .attr "a", .index (.ofNat 1)]⟩,
        .numberRequired⟩)) := by
    simp only [convert, convertAt_eq]
    cbv
  obtain ⟨c, hc, alone⟩ := Option.map_eq_some_iff.1 alone
  obtain ⟨-, complaint, -, path⟩ := convertAt_under (v := nestedValue) hc source target
    (.inl sterile_nestedValue) ⟨[.attr "x"]⟩
  exact ⟨c, hc, source, target, sterile_nestedValue,
    Prod.ext ((complaint _).2 ⟨_, rfl, alone⟩) path⟩

end Conversion

end ValueAlgebra
