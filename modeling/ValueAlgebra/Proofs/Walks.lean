import ValueAlgebra.Conversion.Walk
import ValueAlgebra.Proofs.RunParts

/-!
# Runs along one path

The runs of `Conversion.walk`, which take steps forth and back on one path, come to what
`Conversion.run` comes to, which gives each part a path of its own. Every computation involved
leaves the path as it was, also where it fails between a step and the next.

Main statements:

* `Walk.Follows.bind`, `Walk.Follows.inside`, `Walk.Follows.mapM`: what computations along the path
  are made of.
* `Walker.follows_applyRule`: one step of a run.
* `Conversion.walk_follows`: whole runs, by induction on the height of the value.
-/

namespace ValueAlgebra

/-! ## Paths that are left as they were -/

namespace Walk

variable {α β : Type} {walk : Walk α} {f : Path → Except Failure α}

/-- A computation comes to what a function of the path gives, and leaves the path as it was. -/
def Follows (walk : Walk α) (f : Path → Except Failure α) : Prop :=
  ∀ path, walk.start path = (f path, path)

namespace Follows

theorem here (f : Path → Except Failure α) : (Walk.here f).Follows f :=
  fun _ => rfl

theorem of (x : Except Fault α) : (Walk.of x).Follows fun _ => orFailure x :=
  here _

theorem fail (complaint : Complaint) : (Walk.fail complaint : Walk α).Follows fun path =>
    path.fail complaint :=
  here _

theorem pure (a : α) : (Pure.pure a : Walk α).Follows fun _ => .ok a :=
  fun _ => rfl

theorem throw (e : Failure) : (throw e : Walk α).Follows fun _ => .error e :=
  fun _ => rfl

theorem bind {next : α → Walk β} {g : α → Path → Except Failure β} (h : walk.Follows f)
    (hn : ∀ a, (next a).Follows (g a)) :
    (walk >>= next).Follows fun path => f path >>= fun a => g a path := by
  intro path
  have first : walk path = (f path, path) := h path
  change (StateT.bind walk (ExceptT.bindCont next)) path = _
  simp only [StateT.bind, first]
  cases hf : f path with
  | error e => rfl
  | ok a => exact hn a path

theorem map (h : walk.Follows f) (g : α → β) :
    (walk >>= fun a => Pure.pure (g a)).Follows fun path => (f path).map g := by
  refine fun path => (h.bind (fun a => .pure (g a)) path).trans ?_
  cases f path <;> rfl

theorem ite {c : Prop} [Decidable c] {other : Walk α} {g : Path → Except Failure α}
    (h : walk.Follows f) (ho : other.Follows g) :
    (if c then walk else other).Follows fun path => if c then f path else g path := by
  split
  · exact h
  · exact ho

/-- The step that is taken back is the one that was added. -/
theorem inside (h : walk.Follows f) (step : Step) :
    (walk.inside step).Follows fun path => f (path.push step) := by
  intro path
  change ((walk.start (path.push step)).1, (walk.start (path.push step)).2.dropLast) = _
  rw [h]
  simp only [Path.dropLast, Path.push, List.dropLast_concat]

theorem mapM {γ : Type} {each : γ → Walk α} {g : γ → Path → Except Failure α} {xs : List γ}
    (h : ∀ x ∈ xs, (each x).Follows (g x)) :
    (xs.mapM each).Follows fun path => xs.mapM fun x => g x path := by
  induction xs with
  | nil => exact .pure []
  | cons x xs ih =>
    simp only [List.mapM_cons]
    refine .bind (h x List.mem_cons_self) fun y => ?_
    exact .bind (ih fun z hz => h z (List.mem_cons_of_mem _ hz)) fun ys => .pure _

end Follows

end Walk

open Walk

/-! ## Parts -/

/-- A walker comes to what a runner gives for the same part. -/
def Walker.Follows (walk : Walker) (run : Runner) : Prop :=
  ∀ c v site, (walk c v site).Follows fun path => run c v path site

/-- The part that a step leads to from a path. -/
def PartStep.plan (p : PartStep) (path : Path) : PartPlan :=
  ⟨p.conversion, p.part, path.push p.step⟩

/-- The named parts that there are conversions for, at a path and by the steps from it. -/
theorem filterMap_plan (elements : List (String × Value × Value))
    (conversions : List (String × Conversion)) (locate : String → Value → Step) (path : Path) :
    (elements.filterMap fun (name, key, part) => (conversions.lookup name).map fun conversion =>
      (name, PartPlan.mk conversion part (path.push (locate name key)))) =
    (elements.filterMap fun (name, key, part) => (conversions.lookup name).map fun conversion =>
      (name, PartStep.mk conversion part (locate name key))).map fun x => (x.1, x.2.plan path) := by
  rw [List.map_filterMap]
  refine List.filterMap_congr fun x _ => ?_
  rw [Option.map_map]
  rfl

section

variable {walk : Walker} {run : Runner} {v : Value} {site : List Nat} (h : walk.Follows run)

include h

theorem follows_runAll (site : List Nat) (plans : List PartStep) :
    (walk.runAll site plans).Follows fun path => run.runAll site (plans.map (·.plan path)) := by
  unfold Walker.runAll Runner.runAll
  simp only [List.zipIdx_map, List.mapM_map]
  exact .mapM fun p _ => (h p.1.conversion p.1.part _).inside p.1.step

theorem follows_runSecond (values : List (Value × Option Conversion)) :
    (walk.runSecond site values).Follows fun path => run.runSecond path site values := by
  refine .mapM fun ⟨⟨v, conversion?⟩, i⟩ _ => ?_
  cases conversion? with
  | none => exact .pure v
  | some c => exact h c v _

theorem follows_convertTuple (conversions : List Conversion) :
    (walk.convertTuple conversions v site).Follows fun path =>
      convertTuple run conversions v path site := by
  refine .bind (.of _) fun elements => ?_
  have parts := follows_runAll h site
    ((elements.zip conversions).map fun x => ⟨x.2, x.1.2, .index x.1.1⟩)
  simp only [List.map_map] at parts
  exact parts

theorem follows_convertNamed (conversions : List (String × Conversion))
    (locate : String → Value → Step) :
    (walk.convertNamed conversions locate v site).Follows fun path =>
      convertNamed run conversions (fun name key => path.push (locate name key)) v site := by
  refine .bind (.here _) fun elements => ?_
  simp only [filterMap_plan, List.map_map]
  refine .bind ?_ fun values => .pure _
  have parts := follows_runAll h site
    ((elements.filterMap fun x => (conversions.lookup x.1).map fun conversion =>
      (x.1, PartStep.mk conversion x.2.2 (locate x.1 x.2.1))).map (·.2))
  simp only [List.map_map] at parts
  exact parts

theorem follows_convertVariant (conversions : List (String × Conversion)) (target : Ty)
    (name : String) (part : Value) (complaint : Complaint) :
    (walk.convertVariant conversions target name part complaint site).Follows fun path =>
      convertVariant run conversions target name part complaint path site := by
  unfold convertVariant Walker.convertVariant
  cases conversions.lookup name with
  | none => exact .fail _
  | some c => exact .bind ((h c part _).inside _) fun inner => .of _

theorem follows_convertSelection (conversions : List (String × Conversion)) (target : Ty) :
    (walk.convertSelection conversions target v site).Follows fun path =>
      convertSelection run conversions target v path site := by
  refine .bind (.of _) fun elements => .bind (.here _) fun selection => ?_
  cases selection with
  | undecided => exact .of _
  | variant name part => exact follows_convertVariant h _ _ _ _ _

variable [Host]

theorem follows_homogenize (kind : CollectionKind) (mode : Mode) (values : List Value) :
    (walk.homogenize kind mode site values).Follows fun path =>
      homogenize run kind mode path site values := by
  refine .ite (.pure _) ?_
  cases Unification.plan? mode (Value.types values) with
  | none => exact .fail _
  | some u =>
    exact .bind (follows_runSecond h _) fun second => .ite (.pure _) (.fail _)

theorem follows_convertItems (kind : CollectionKind) (mode : Mode) (element : Conversion)
    (wanted : Ty) :
    (walk.convertItems kind mode element wanted v site).Follows fun path =>
      convertItems run kind mode element wanted v path site := by
  refine .bind (.of _) fun elements => ?_
  have parts := follows_runAll h site (elements.map fun x =>
    ⟨element, x.2, .index (if kind = .set then .unknown wanted else x.1)⟩)
  simp only [List.map_map] at parts
  refine .bind parts fun values => .ite (.bind (.of _) fun _ => .pure _) ?_
  refine .bind (follows_homogenize h kind mode values) fun values => ?_
  by_cases set : kind = .set
  · simp only [if_pos set]
    exact .of _
  · simp only [if_neg set]
    exact .of _

theorem follows_convertEntries (mode : Mode) (element : Conversion) (wanted : Ty) :
    (walk.convertEntries mode element wanted v site).Follows fun path =>
      convertEntries run mode element wanted v path site := by
  refine .bind (.here _) fun elements => ?_
  have parts := follows_runAll h site
    (elements.map fun x => ⟨element, x.2.2, .index x.2.1⟩)
  simp only [List.map_map] at parts
  refine .bind parts fun values => .ite (.bind (.of _) fun _ => .pure _) ?_
  exact .bind (follows_homogenize h .map mode values) fun values => .of _

/-! ## Rules -/

/-- A rule that is applied along the path. -/
theorem follows_applyRule (rule : Rule Conversion) (target : Ty) :
    (walk.applyRule rule target v site).Follows fun path => rule.apply run target v path site := by
  cases rule with
  | keep | decideLater => exact .pure v
  | primitive rule => exact .here _
  | object attributes absent =>
    exact .bind (follows_convertNamed h _ _) fun converted => .pure _
  | tuple elements => exact .bind (follows_convertTuple h _) fun converted => .pure _
  | collection kind mode element wanted =>
    refine .bind (.of _) fun _ => .ite ?_ ?_
    · exact follows_convertEntries h mode element wanted
    · exact follows_convertItems h kind mode element wanted
  | gather kind mode elements wanted =>
    refine .bind (follows_convertTuple h _) fun values => .ite (.pure _) ?_
    refine .bind (follows_homogenize h kind mode values) fun values => ?_
    by_cases set : kind = .set
    · simp only [if_pos set]
      exact .of _
    · simp only [if_neg set]
      exact .of _
  | emptyMap wanted => exact .pure _
  | entries mode attributes =>
    refine .bind (follows_convertNamed h _ _) fun converted => ?_
    exact .bind (follows_homogenize h .map mode _) fun values => .of _
  | pick conversions attributes optional =>
    refine .bind (follows_convertNamed h _ _) fun converted => ?_
    exact .bind (.here _) fun missing => .pure _
  | union variants => exact .bind (.of _) fun x => follows_convertVariant h _ _ _ _ _
  | select variants => exact follows_convertSelection h _ _
  | intoCapsule accept => exact .bind (.here _) fun native => .of _
  | outOfCapsule offer =>
    refine .bind (.of _) fun payload => .bind (.here _) fun converted => ?_
    exact .ite (.pure _) (.throw _)

/-- What starts from an empty path. -/
theorem start_convertDecided (target : Ty) :
    ((walk.convertDecided v target site).start .root).1 = v.convertDecided run target site := by
  unfold Walker.convertDecided Value.convertDecided
  cases Rule.between? .lenient v.ty target with
  | none => rfl
  | some rule => rw [follows_applyRule h rule target .root]

theorem follows_applyDecided (rule : Rule Conversion) (target : Ty) :
    (walk.applyDecided rule target v site).Follows fun path =>
      rule.applyDecided run target v path site := by
  cases rule with
  | decideLater =>
    simp only [Walker.applyDecided, Rule.applyDecided, apart, start_convertDecided h]
    exact .here _
  | _ =>
    simp only [Walker.applyDecided, Rule.applyDecided]
    exact follows_applyRule h _ target

/-! ## Runs -/

theorem follows_walkWith (c : Conversion) :
    (c.walkWith walk v site).Follows fun path => c.runWith run v path site := by
  cases c with
  | forget => exact .pure _
  | toward target rule =>
    refine .ite (.pure v) (.map (.ite (.of _) (.ite (.pure _) ?_)) _)
    exact follows_applyDecided h rule target

end

/-- A run along a path comes to what `Conversion.run` comes to there, and leaves the path as it
was. -/
theorem Conversion.walk_follows [Host] (c : Conversion) (v : Value) (site : List Nat) :
    (c.walk v site).Follows fun path => c.run v path site := by
  induction hn : v.height using Nat.strong_induction_on generalizing c v site with
  | _ n ih =>
    subst hn
    rw [walk]
    simp only [run_eq c v]
    refine follows_walkWith (fun c part site => ?_) c
    unfold runPart
    by_cases lower : part.height < v.height
    · simp only [if_pos lower]
      exact ih _ lower c part site rfl
    · simp only [if_neg lower]
      exact .throw _

/-- A value that is found at a path is converted as `Conversion.run` does. -/
theorem Conversion.convertAt_eq [Host] (c : Conversion) (v : Value) (path : Path)
    (site : List Nat) : c.convertAt v path site = (c.run v path site, path) :=
  c.walk_follows v site path

end ValueAlgebra
