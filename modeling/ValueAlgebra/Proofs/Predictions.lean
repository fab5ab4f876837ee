import ValueAlgebra.Proofs.Mispredicted

/-!
# Predictions

All results for values of one type have the type that is predicted for nulls of it, just if the
target is predictable. Where any element type will do, the types of elements are unified in the mode
of the conversion, but the prediction always unifies them in the lenient mode.

Main statements:

* `Conversion.exists_mispredicted`: for each target that is not predictable, the type of some result
  is not the predicted one.
* `Conversion.uniform_tfae`: results have one type, which is the predicted one, just if the target
  is predictable.
* `Conversion.types_differ`: an empty list and a null of one type become values of two types.
-/

namespace ValueAlgebra

open Entries Text

namespace Conversion

variable [Host] {mode : Mode} {closed : Prop} {s t : Ty} {c : Conversion} {v w : Value}
  {path : Path} {site : List Nat}

/-! ## Any elements -/

variable {run : Runner} {kind : CollectionKind} {e : Ty}

theorem plan?_gather_any {sources : List Ty} {plans : List Conversion} {u : Unification}
    (hk : kind ≠ .map) (hne : sources ≠ []) (hu : Unification.plan? mode sources = some u)
    (hd : u.target ≠ .dynamic)
    (h : List.Forall₂ (fun s c => plan? mode s u.target = some c) sources plans) :
    plan? mode (.tuple sources) (kind.type .dynamic) =
      some (.toward (kind.type .dynamic) (.gather kind mode plans u.target)) := by
  have gathering : Rule.gathering? mode kind sources .dynamic =
      some (.gather kind mode plans u.target) := by
    rw [Rule.gathering?]
    simp [hu, hne, Ty.isDynamic, planAll?_of_forall₂ h]
  cases kind with
  | map => exact absurd rfl hk
  | list | set =>
    simp only [CollectionKind.type]
    rw [plan?, Rule.between?.eq_def, if_neg (by simp), if_neg (by simp), if_neg (by simp)]
    exact congrArg _ gathering

theorem plan?_entries_any {sources : List (String × Ty)} {plans : List (String × Conversion)}
    {os : List String} {u : Unification} (hne : sources ≠ [])
    (hu : Unification.plan? mode (values sources) = some u)
    (h : Paired (fun _ s c => plan? mode s u.target = some c) sources plans) :
    plan? mode (.object sources os) (.map .dynamic) =
      some (.toward (.map .dynamic) (.entries mode plans)) := by
  have entries : Rule.ofEntries? mode sources .dynamic = some (.entries mode plans) := by
    rw [Rule.ofEntries?]
    simp [hu, hne, Ty.isDynamic, planEntries?_of_paired h]
  rw [plan?, Rule.between?.eq_def, if_neg (by simp), if_neg (by simp), if_neg (by simp)]
  exact congrArg _ entries

/-- Parts of a tuple that come out with one type. -/
theorem apply_gather {plans : List Conversion} {wanted : Ty} {items : List Value} (hk : kind ≠ .map)
    (he : v.elements = .ok (Value.numbered 0 items)) (hne : items.zip plans ≠ [])
    (h : ∀ x c, (x, c) ∈ items.zip plans → ∀ path site, ∃ y, run c x path site = .ok y ∧ y.ty = e) :
    ∃ w, Rule.apply run (.gather kind mode plans wanted) t v path site = .ok w ∧
      w.ty = kind.type e := by
  rw [Rule.apply]
  cases hc : convertTuple run plans v path site with
  | error =>
    obtain ⟨key, x, c, site, -, hx, hr⟩ := convertTuple_error he hc
    rw [Value.map_snd_numbered] at hx
    obtain ⟨y, ran, -⟩ := h x c hx (path.index key) site
    rw [ran] at hr
    cases hr
  | ok ws =>
    have paired := convertTuple_ok he hc
    rw [Value.map_snd_numbered] at paired
    have typed : ∀ y ∈ ws, y.ty = e := by
      intro y hy
      obtain ⟨x, hx, path, site, hr⟩ := exists_left_of_forall₂ paired hy
      obtain ⟨y', ran, ty⟩ := h x.1 x.2 hx path site
      rw [ran] at hr
      cases hr
      exact ty
    have some_ : ws ≠ [] := by
      rintro rfl
      exact hne (List.forall₂_nil_right_iff.1 paired)
    have common := Value.commonType?_of_all some_ typed
    have nonempty : ws.isEmpty = false := by simpa using some_
    simp only [bind, Except.bind, homogenize_of_all some_ typed, nonempty, Bool.false_eq_true,
      if_false]
    cases kind with
    | map => exact absurd rfl hk
    | list =>
      refine ⟨_, congrArg orFailure (Value.list_of_common some_ common), ?_⟩
      simp only [Value.bare, Value.ty, CollectionKind.type]
    | set => exact ⟨_, congrArg orFailure (Value.set_of_common some_ common), Value.ty_setOf ..⟩

/-- Attributes of an object that come out with a type in common. -/
theorem apply_entries {plans : List (String × Conversion)} {attributes : List (String × Value)}
    (hn : Names.Proper (names attributes)) (he : v.elements = .ok (Value.keyed attributes))
    (hp : names plans = names attributes) (hne : attributes ≠ [])
    (h : ∀ name x c, (name, x) ∈ attributes → plans.lookup name = some c →
      ∀ path site, ∃ y, run c x path site = .ok y)
    (common : ∀ ws, Paired (ConvertedBy run plans) attributes ws →
      Value.commonType? (values ws) = some e) :
    ∃ w, Rule.apply run (.entries mode plans) t v path site = .ok w ∧ w.ty = .map e := by
  rw [Rule.apply]
  cases hc : convertNamed run plans (fun _ key => path.index key) v site with
  | error =>
    obtain ⟨name, x, c, site, hx, hl, hr⟩ :=
      convertNamed_error (Value.namedElements_of_content hn.2 he) hc
    obtain ⟨y, ran⟩ := h name x c hx hl (path.index (.string name)) site
    rw [ran] at hr
    cases hr
  | ok ws =>
    have paired := convertNamed_ok (Value.namedElements_of_content hn.2 he) hc
    have all : covered plans attributes = attributes := List.filter_eq_self.2 fun x hx =>
      Option.isSome_iff_exists.2 (exists_lookup.2 (hp ▸ mem_names hx))
    rw [all] at paired
    have common := common ws paired
    have some_ : values ws ≠ [] := by
      intro empty
      cases List.map_eq_nil_iff.1 empty
      exact hne (List.forall₂_nil_right_iff.1 paired)
    have same : homogenize run .map mode path site (values ws) = .ok (values ws) := by
      rw [homogenize, common]
      rfl
    simp only [bind, Except.bind, same, zip_names_values]
    refine ⟨_, congrArg orFailure (Value.map_of_common (paired.names_eq ▸ hn) some_ common), ?_⟩
    simp only [Value.bare, Value.ty]

/-- Two values that are converted to what their types have in common, and then have a type in common
that is not the predicted one. -/
structure Divergent (mode : Mode) (closed : Prop) (e : Ty) (a b : Value) (u : Unification) :
    Prop where
  unified : Unification.plan? mode [a.ty, b.ty] = some u
  target : u.target ≠ .dynamic
  differs : e ≠ (Ty.common [a.ty, b.ty]).withoutOptional
  within : ∀ x ∈ [a, b], x.Within .required
  closed : closed → ∀ x ∈ [a, b], x.ty.hasDynamic = false
  runs : ∀ x ∈ [a, b], ∀ c path site, plan? mode x.ty u.target = some c →
    ∃ y, c.run x path site = .ok y ∧ y.ty = e

namespace Divergent

variable {a b : Value} {u : Unification}

theorem planned (h : Divergent mode closed e a b u) :
    ∃ c d, plan? mode a.ty u.target = some c ∧ plan? mode b.ty u.target = some d := by
  have plan {x : Value} (hx : x ∈ [a, b]) : ∃ c, plan? mode x.ty u.target = some c :=
    Option.isSome_iff_exists.1 (Unification.plan?_target_isSome h.unified
      (List.mem_map_of_mem (f := Value.ty) hx))
  obtain ⟨c, hc⟩ := @plan a (by simp)
  obtain ⟨d, hd⟩ := @plan b (by simp)
  exact ⟨c, d, hc, hd⟩

theorem gathered (h : Divergent mode closed e a b u) (hk : kind ≠ .map) :
    ∃ v c, Mispredicted mode closed (kind.type .dynamic) v c := by
  obtain ⟨c, d, hc, hd⟩ := h.planned
  have hty : (Value.tuple [a, b]).ty = .tuple [a.ty, b.ty] := by
    simp only [Value.tuple, Value.bare, Value.ty, Value.types]
  have planned := plan?_gather_any hk (by simp) h.unified h.target (.cons hc (.cons hd .nil))
  refine ⟨.tuple [a, b], _, .tuple ⟨⟨⟨Names.proper_nil, by simp⟩, rfl⟩, rfl⟩ h.within,
    fun closed => closed_tuple (h.closed closed), hty ▸ planned, fun path site => ?_⟩
  have target : kind.type .dynamic ≠ .dynamic := by cases kind <;> simp [CollectionKind.type]
  have runs (x : Value) (c' : Conversion) (hx : (x, c') ∈ [a, b].zip [c, d]) (path : Path)
      (site : List Nat) :
      ∃ y, runPart (Value.tuple [a, b]).height c' x path site = .ok y ∧ y.ty = e := by
    have member := (List.of_mem_zip hx).1
    have ran : runPart (Value.tuple [a, b]).height c' x path site = c'.run x path site :=
      runPart_of_lt (Value.height_lt_tuple member)
    rcases List.mem_pair.1 hx with eq | eq <;> cases eq
    · exact ran ▸ h.runs a member c path site hc
    · exact ran ▸ h.runs b member d path site hd
  rw [run_eq, runWith_decided target rfl rfl]
  obtain ⟨w, made, typed⟩ := @apply_gather _ mode (kind.type .dynamic) (.tuple [a, b]) path site
    _ kind e [c, d] u.target [a, b] hk rfl (by simp) runs
  refine ⟨w.withMarks _, congrArg (Except.map _) made, ?_⟩
  rw [Value.ty_withMarks, typed, hty, Ty.converted_any_items hk, Ty.itemSource]
  exact fun eq => h.differs (collection_injective eq).2

theorem entered (h : Divergent mode closed e a b u) :
    ∃ v c, Mispredicted mode closed (.map .dynamic) v c := by
  obtain ⟨c, d, hc, hd⟩ := h.planned
  have hty : (Value.bare (.object [("x", a), ("y", b)])).ty =
      .object [("x", a.ty), ("y", b.ty)] [] := by
    simp only [Value.bare, Value.ty, Value.entryTypes]
  have paired : Paired (fun _ s c => plan? mode s u.target = some c)
      [("x", a.ty), ("y", b.ty)] [("x", c), ("y", d)] := .cons ⟨rfl, hc⟩ (.cons ⟨rfl, hd⟩ .nil)
  have planned := @plan?_entries_any _ mode [("x", a.ty), ("y", b.ty)] _ [] u (by simp) h.unified
    paired
  refine ⟨.bare (.object [("x", a), ("y", b)]), _, .object ⟨⟨⟨proper_pair, by simp⟩, rfl⟩, rfl⟩
    h.within, fun closed => closed_object (h.closed closed), hty ▸ planned, fun path site => ?_⟩
  have runs (name : String) (x : Value) (c' : Conversion) (hx : (name, x) ∈ [("x", a), ("y", b)])
      (hl : [("x", c), ("y", d)].lookup name = some c') (path : Path) (site : List Nat) :
      ∃ y, runPart (Value.bare (.object [("x", a), ("y", b)])).height c' x path site = .ok y ∧
        y.ty = e := by
    have ran : runPart (Value.bare (.object [("x", a), ("y", b)])).height c' x path site =
        c'.run x path site := runPart_of_lt (Value.height_lt_object (mem_values hx))
    rcases List.mem_pair.1 hx with eq | eq <;> cases eq <;> cases hl
    · exact ran ▸ h.runs a (by simp) c path site hc
    · exact ran ▸ h.runs b (by simp) d path site hd
  have common (ws : List (String × Value))
      (paired : Paired (ConvertedBy (runPart (Value.bare (.object [("x", a), ("y", b)])).height)
        [("x", c), ("y", d)]) [("x", a), ("y", b)] ws) :
      Value.commonType? (values ws) = some e := by
    refine Value.commonType?_of_all (fun empty => ?_) fun y hy => ?_
    · cases List.map_eq_nil_iff.1 empty
      cases paired
    · obtain ⟨name, hy⟩ := exists_of_mem_values hy
      obtain ⟨x, hx, c', path, site, hl, hr⟩ := paired.mem_right hy
      obtain ⟨y', ran, typed⟩ := runs name x c' hx hl path site
      rw [ran] at hr
      cases hr
      exact typed
  rw [run_eq, runWith_decided (by simp) rfl rfl]
  obtain ⟨w, made, typed⟩ := @apply_entries _ mode (.map .dynamic)
    (.bare (.object [("x", a), ("y", b)])) path site _ e [("x", c), ("y", d)]
    [("x", a), ("y", b)] proper_pair rfl rfl (by simp)
    (fun name x c' hx hl path site => (runs name x c' hx hl path site).imp fun _ h => h.1) common
  refine ⟨w.withMarks _, congrArg (Except.map _) made, ?_⟩
  rw [Value.ty_withMarks, typed, hty]
  refine ne_of_ne_of_eq ?_ Ty.converted_any_entries.symm
  exact fun eq => h.differs (Ty.map.inj eq)

theorem mispredicted (h : Divergent mode closed e a b u) (kind : CollectionKind) :
    ∃ v c, Mispredicted mode closed (kind.type .dynamic) v c := by
  by_cases hk : kind = .map
  · exact hk ▸ h.entered
  · exact h.gathered hk

end Divergent

theorem ty_of_null {rule : Rule Conversion} (ht : t ≠ .dynamic) :
    ∃ w, (toward t rule).run (.null s) path site = .ok w ∧ w.ty = s.converted t := by
  rw [run_eq, runWith_null ht rfl, ty_null]
  exact ⟨_, rfl, by rw [Value.ty_withMarks, ty_null]⟩

omit [Host] in
theorem required_union {u : Ty} (hu : u.Everywhere Scope.required.types) :
    (Ty.union [("x", u)]).Everywhere Scope.required.types := by
  have proper : Names.Proper ["x"] := proper_pair.of_sublist (.cons_cons _ (.cons _ .slnil))
  exact Ty.everywhere_union.2 ⟨⟨⟨⟨proper, by simp⟩, rfl⟩, rfl⟩, by simpa [values] using hu⟩

/-- Safe unification takes a union of numbers to one of strings, and lenient unification the other
way round. -/
theorem divergent_unions : ∃ u, Divergent .safe closed (.union [("x", .string)])
    (.null (.union [("x", .number)])) (.null (.union [("x", .string)])) u := by
  have unified : (Unification.plan? .safe [.union [("x", .number)], .union [("x", .string)]]).map
      Unification.target = some (.union [("x", .string)]) := by cbv
  obtain ⟨⟨_, conversions⟩, hu, rfl⟩ := Option.map_eq_some_iff.1 unified
  refine ⟨_, by simpa only [ty_null] using hu, by simp, ?_, ?_, ?_, ?_⟩
  · have predicted : (Ty.common [.union [("x", .number)],
        .union [("x", .string)]]).withoutOptional = .union [("x", .number)] := by cbv
    rw [ty_null, ty_null, predicted]
    simp
  · simp only [List.mem_cons, List.not_mem_nil, or_false, forall_eq_or_imp, forall_eq]
    have structural := Scope.closed_required.structural
    exact ⟨.null (required_union ((Ty.everywhere_leaf rfl).2 structural.number)),
      .null (required_union ((Ty.everywhere_leaf rfl).2 structural.string))⟩
  · intro _
    simp only [List.mem_cons, List.not_mem_nil, or_false, forall_eq_or_imp, forall_eq, ty_null]
    decide
  · have converted : (Ty.union [("x", .number)]).converted (.union [("x", .string)]) =
          .union [("x", .string)] ∧
        (Ty.union [("x", .string)]).converted (.union [("x", .string)]) =
          .union [("x", .string)] := by
      constructor <;> cbv
    intro x hx c path site hp
    obtain ⟨rule, rfl, -⟩ := planned_of_plan? hp
    rcases List.mem_pair.1 hx with rfl | rfl
    · obtain ⟨w, ran, typed⟩ := ty_of_null (t := .union [("x", .string)]) (by simp)
      exact ⟨w, ran, typed.trans converted.1⟩
    · obtain ⟨w, ran, typed⟩ := ty_of_null (t := .union [("x", .string)]) (by simp)
      exact ⟨w, ran, typed.trans converted.2⟩

/-- An object in which an attribute has a type and another one has none. -/
def halfOpen : Value :=
  .bare (.object [("x", .null .number), ("y", .null .dynamic)])

omit [Host] in
theorem ty_halfOpen : halfOpen.ty = .object [("x", .number), ("y", .dynamic)] [] := by
  simp only [halfOpen, Value.bare, Value.ty, Value.entryTypes, ty_null]

/-- An object that is made a map of numbers, as far as any elements will do, though its type leaves
the elements open. -/
theorem run_halfOpen {c : Conversion} (hp : plan? .lenient halfOpen.ty (.map .dynamic) = some c) :
    ∃ w, c.run halfOpen path site = .ok w ∧ w.ty = .map .number := by
  have unified : (Unification.plan? .lenient [.number, .dynamic]).map Unification.target =
      some .dynamic := by cbv
  obtain ⟨⟨_, conversions⟩, hu, rfl⟩ := Option.map_eq_some_iff.1 unified
  have paired : Paired (fun _ s c => plan? .lenient s .dynamic = some c)
      [("x", .number), ("y", .dynamic)]
      [("x", .toward .dynamic .keep), ("y", .toward .dynamic .keep)] :=
    .cons ⟨rfl, plan?_dynamic _⟩ (.cons ⟨rfl, plan?_dynamic _⟩ .nil)
  rw [ty_halfOpen, @plan?_entries_any _ .lenient [("x", .number), ("y", .dynamic)] _ [] _ (by simp)
    hu paired] at hp
  cases hp
  rw [run_eq, runWith_decided (by simp) rfl rfl]
  have runs (name : String) (x : Value) (c : Conversion)
      (hx : (name, x) ∈ [("x", Value.null .number), ("y", .null .dynamic)])
      (hl : [("x", toward .dynamic .keep), ("y", .toward .dynamic .keep)].lookup name = some c)
      (path : Path) (site : List Nat) : runPart halfOpen.height c x path site = .ok x := by
    have ran : runPart halfOpen.height c x path site = c.run x path site :=
      runPart_of_lt (Value.height_lt_object (mem_values hx))
    rcases List.mem_pair.1 hx with eq | eq <;> cases eq <;> cases hl <;>
      rw [ran, run_eq, runWith_dynamic]
  have common (ws : List (String × Value))
      (paired : Paired (ConvertedBy (runPart halfOpen.height)
        [("x", .toward .dynamic .keep), ("y", .toward .dynamic .keep)])
        [("x", Value.null .number), ("y", .null .dynamic)] ws) :
      Value.commonType? (values ws) = some .number := by
    obtain _ | ⟨⟨-, c, path, site, hl, hr⟩, _ | ⟨⟨-, c', path', site', hl', hr'⟩, _ | _⟩⟩ := paired
    rw [runs _ _ _ (by simp) hl] at hr
    rw [runs _ _ _ (by simp) hl'] at hr'
    rename_i x y
    obtain ⟨name, x⟩ := x
    obtain ⟨name', y⟩ := y
    cases hr
    cases hr'
    rfl
  obtain ⟨w, made, typed⟩ := @apply_entries _ .lenient (.map .dynamic) halfOpen path site
    (runPart halfOpen.height) .number [("x", .toward .dynamic .keep), ("y", .toward .dynamic .keep)]
    [("x", Value.null .number), ("y", .null .dynamic)] proper_pair rfl rfl (by simp)
    (fun name x c hx hl path site => ⟨x, runs name x c hx hl path site⟩) common
  exact ⟨w.withMarks _, congrArg (Except.map _) made, by rw [Value.ty_withMarks, typed]⟩

theorem divergent_halfOpen (open_ : ¬ closed) : ∃ u, Divergent .lenient closed (.map .number)
    (.null (.map .number)) halfOpen u := by
  have unified : (Unification.plan? .lenient
      [.map .number, .object [("x", .number), ("y", .dynamic)] []]).map Unification.target =
      some (.map .dynamic) := by cbv
  obtain ⟨⟨_, conversions⟩, hu, rfl⟩ := Option.map_eq_some_iff.1 unified
  refine ⟨_, by simpa only [ty_null, ty_halfOpen] using hu, by simp, ?_, ?_,
    fun hc => absurd hc open_, ?_⟩
  · rw [ty_null, ty_halfOpen, Ty.common, hu]
    simp [Ty.withoutOptional]
  · have structural := Scope.closed_required.structural
    have number : Ty.number.Everywhere Scope.required.types :=
      (Ty.everywhere_leaf rfl).2 structural.number
    have dynamic : Ty.dynamic.Everywhere Scope.required.types :=
      (Ty.everywhere_leaf rfl).2 Scope.closed_required.dynamic
    simp only [List.mem_cons, List.not_mem_nil, or_false, forall_eq_or_imp, forall_eq]
    refine ⟨.null (Ty.everywhere_map.2 ⟨structural.map _, number⟩),
      .object ⟨⟨⟨proper_pair, by simp⟩, rfl⟩, rfl⟩ ?_⟩
    simpa [values] using ⟨.null number, .null dynamic⟩
  · have converted : (Ty.map .number).converted (.map .dynamic) = .map .number := by cbv
    intro x hx c path site hp
    rcases List.mem_pair.1 hx with rfl | rfl
    · obtain ⟨rule, rfl, -⟩ := planned_of_plan? hp
      obtain ⟨w, ran, typed⟩ := ty_of_null (t := .map .dynamic) (by simp)
      exact ⟨w, ran, typed.trans converted⟩
    · exact run_halfOpen hp

/-- What any elements have in common depends on the mode, and on the parts of those that leave
something open. -/
theorem mispredicted_any (kind : CollectionKind) (h : ¬ (mode = .lenient ∧ closed)) :
    ∃ v c, Mispredicted mode closed (kind.type .dynamic) v c := by
  cases mode with
  | safe =>
    obtain ⟨u, divergent⟩ := @divergent_unions _ closed
    exact divergent.mispredicted kind
  | lenient =>
    obtain ⟨u, divergent⟩ := divergent_halfOpen fun hc => h ⟨rfl, hc⟩
    exact divergent.mispredicted kind

/-- Where a target is not predictable, some result is not of the predicted type. -/
theorem exists_mispredicted (ht : t.Everywhere Scope.required.types)
    (h : ¬ t.Predictable (mode = .lenient ∧ closed)) : ∃ v c, Mispredicted mode closed t v c := by
  induction t using Ty.induction with
  | _ t ih =>
    have hd : t.hasDynamic = true := by
      rw [← Bool.not_eq_false]
      exact fun hd => h (.of_closed hd)
    have collection (kind : CollectionKind) (e : Ty) (eq : t = kind.type e) :
        ∃ v c, Mispredicted mode closed (kind.type e) v c := by
      subst eq
      by_cases dynamic : e = .dynamic
      · subst dynamic
        exact mispredicted_any kind fun whole => h (.collection whole kind)
      · exact mispredicted_empty kind (Ty.everywhere_collection.1 ht).2 (by cases kind <;> exact hd)
          dynamic
    cases t with
    | dynamic => exact absurd .dynamic h
    | number | string | bool | capsule => cases hd
    | union => exact mispredicted_union ht hd
    | list e => exact collection .list e rfl
    | set e => exact collection .set e rfl
    | map e => exact collection .map e rfl
    | object targets optional =>
      obtain rfl : optional = [] := (Ty.optionalFree_of_required ht).here
      obtain ⟨u, hu, hp⟩ := Ty.Predictable.exists_not_predictable rfl rfl h
      obtain ⟨v, c, m⟩ := ih u hu (ht.inside hu) hp
      obtain ⟨name, hu⟩ := exists_of_mem_values hu
      exact m.inObject ht hu
    | tuple ts =>
      obtain ⟨u, hu, hp⟩ := Ty.Predictable.exists_not_predictable rfl rfl h
      obtain ⟨v, c, m⟩ := ih u hu (ht.inside hu) hp
      exact m.inTuple ht hu

/-! ## Predictions -/

/-- All results for values of a type have the predicted type. -/
def Predicts (mode : Mode) (s t : Ty) : Prop :=
  ∀ v c path site w, v.Within .capsuleFree → v.ty = s → plan? mode s t = some c →
    c.run v path site = .ok w → w.ty = s.converted t

/-- All results for values of a type have one type. -/
def Uniform (mode : Mode) (s t : Ty) : Prop :=
  ∀ v₁ v₂ c path₁ path₂ site₁ site₂ w₁ w₂, v₁.Within .capsuleFree → v₂.Within .capsuleFree →
    v₁.ty = s → v₂.ty = s → plan? mode s t = some c → c.run v₁ path₁ site₁ = .ok w₁ →
      c.run v₂ path₂ site₂ = .ok w₂ → w₁.ty = w₂.ty

/-- A null has the predicted type, so results of one type are of the predicted one. -/
theorem uniform_iff_predicts (free : s.OptionalFree) : Uniform mode s t ↔ Predicts mode s t := by
  constructor
  · rintro uniform v c path site w hv rfl hp hr
    by_cases dynamic : t = .dynamic
    · subst dynamic
      exact ty_eq_of_dynamic free hp hr
    obtain ⟨rule, rfl, -⟩ := planned_of_plan? hp
    obtain ⟨n, ran, typed⟩ := @ty_of_null _ v.ty t path site rule dynamic
    rw [← typed]
    exact uniform v _ _ _ _ _ _ w n hv (Value.within_null (hv.ty Scope.closed_capsuleFree)) rfl
      (ty_null _) hp hr ran
  · rintro predicts v₁ v₂ c path₁ path₂ site₁ site₂ w₁ w₂ hv₁ hv₂ hs₁ hs₂ hp hr₁ hr₂
    rw [predicts v₁ c path₁ site₁ w₁ hv₁ hs₁ hp hr₁, predicts v₂ c path₂ site₂ w₂ hv₂ hs₂ hp hr₂]

/-- For a target without optional attributes, the results for the values of each such type have one
type just if they have the predicted one, and just if the target is predictable. If `closed`, this
is about the types that leave nothing open. -/
theorem uniform_tfae (mode : Mode) (closed : Prop) (hw : t.WellFormed) (hc : t.CapsuleFree)
    (ho : t.OptionalFree) :
    [∀ s : Ty, s.OptionalFree → (closed → s.hasDynamic = false) → Uniform mode s t,
      ∀ s : Ty, s.OptionalFree → (closed → s.hasDynamic = false) → Predicts mode s t,
      t.Predictable (mode = .lenient ∧ closed)].TFAE := by
  tfae_have 1 ↔ 2 := by
    exact forall₃_congr fun s free _ => uniform_iff_predicts free
  tfae_have 2 → 3 := by
    intro all
    by_contra h
    obtain ⟨v, c, m⟩ := exists_mispredicted (Ty.everywhere_required hw hc ho) h
    obtain ⟨w, hr, differs⟩ := m.differs .root []
    have free := Ty.optionalFree_of_required (m.within.ty Scope.closed_required)
    exact differs (all v.ty free m.closed v c .root [] w (Value.capsuleFree_of_required m.within)
      rfl m.planned hr)
  tfae_have 3 → 2 := by
    rintro h s free hcl v c path site w hv rfl hp hr
    exact ty_eq_converted h hw hc ho hv free hcl hp hr
  tfae_finish

end Conversion

namespace Conversion

/-- Values of one type that leaves nothing open are converted to lists of one type. -/
theorem uniform_tfae_anyList :
    letI := Host.plain
    (Ty.list .dynamic).WellFormed ∧ (Ty.list .dynamic).CapsuleFree ∧
      (Ty.list .dynamic).OptionalFree ∧ ∀ s : Ty, s.OptionalFree → s.hasDynamic = false →
        Uniform .lenient s (.list .dynamic) := by
  let := Host.plain
  have list {p : Ty → Prop} (here : p (.list .dynamic)) (inside : p .dynamic) :
      (Ty.list .dynamic).Everywhere p :=
    Ty.everywhere_list.2 ⟨here, (Ty.everywhere_leaf rfl).2 inside⟩
  have hw : (Ty.list .dynamic).WellFormed :=
    list ⟨Names.proper_nil, by simp⟩ ⟨Names.proper_nil, by simp⟩
  have hc : (Ty.list .dynamic).CapsuleFree := list rfl rfl
  have ho : (Ty.list .dynamic).OptionalFree := list rfl rfl
  have predictable : (Ty.list .dynamic).Predictable (Mode.lenient = .lenient ∧ True) :=
    .collection ⟨rfl, trivial⟩ .list
  have uniform := ((uniform_tfae .lenient True hw hc ho).out 0 2).2 predictable
  exact ⟨hw, hc, ho, fun s free closed => uniform s free fun _ => closed⟩

/-- An empty list of lists takes the open element type of the target, and a null of its type fills
it. -/
theorem types_differ :
    ¬ ∀ (_ : Host) (mode : Mode) (s t : Ty), s.WellFormed → s.CapsuleFree → s.OptionalFree →
      s ≠ .dynamic → t.WellFormed → t.CapsuleFree → t.OptionalFree → Uniform mode s t := by
  intro claim
  let := Host.plain
  have lists {p : Ty → Prop} {e : Ty} (hp : Ty.Structural p) (he : p e) (leaf : e.components = []) :
      (Ty.list (.list e)).Everywhere p :=
    Ty.everywhere_list.2 ⟨hp.list _,
      Ty.everywhere_list.2 ⟨hp.list e, (Ty.everywhere_leaf leaf).2 he⟩⟩
  have source : (Ty.list (.list .bool)).Everywhere Scope.capsuleFree.types :=
    lists Scope.closed_capsuleFree.structural Scope.closed_capsuleFree.structural.bool rfl
  have inner : plan? .safe (.list .bool) (.list .dynamic) = some _ :=
    @plan?_collection _ .safe .bool .dynamic _ .list (by simp) (plan?_dynamic .bool)
  have outer := @plan?_collection _ .safe _ _ _ .list (by simp) inner
  obtain ⟨n, ran, typed⟩ := @ty_of_null _ (.list (.list .bool)) (.list (.list .dynamic)) .root [] _
    (by simp)
  have uniform := claim _ .safe (.list (.list .bool)) (.list (.list .dynamic))
    (lists Ty.structural_headed ⟨Names.proper_nil, by simp⟩ rfl)
    (lists Ty.structural_not_capsule rfl rfl) (lists Ty.structural_optionalNames rfl rfl) (by simp)
    (lists Ty.structural_headed ⟨Names.proper_nil, by simp⟩ rfl)
    (lists Ty.structural_not_capsule rfl rfl) (lists Ty.structural_optionalNames rfl rfl)
    (emptyCollection .list .dynamic (.list .bool)) (.null (.list (.list .bool))) _ .root .root [] []
    _ n (.list (Ty.everywhere_list.1 source).2 (by simp) (by simp)) (.null source)
    (ty_emptyCollection ..) (ty_null _) outer run_emptyCollection ran
  have converted : (Ty.list (.list .bool)).converted (.list (.list .dynamic)) =
      .list (.list .bool) := by cbv
  rw [typed, converted, ty_emptyCollection] at uniform
  cases uniform

end Conversion

end ValueAlgebra
