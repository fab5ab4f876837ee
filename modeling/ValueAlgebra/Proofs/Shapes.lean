import ValueAlgebra.Proofs.Completion
import ValueAlgebra.Proofs.LostMarks
import ValueAlgebra.Proofs.ResultTypes

/-!
# Shapes that conversions keep

Conversions between collections, from tuples and from objects to maps take a value apart, convert
its parts one by one and put the results together again. Elements whose types differ are converted
a second time. In both passes each element of the result comes from the element in the same place of
the source, or under the same key, and there are as many (`Content.Reshaped`).

Main statements:

* `homogenize_derived`: the second pass keeps the places of the first one.
* `Rule.Planned.apply_reshapes`: each rule between types of these shapes keeps the places.
* `Conversion.run_reshapes`: so do conversions of values, whether they are planned ahead or not.
-/

namespace ValueAlgebra

open Entries Text

/-- Lists that are related to one another, and to a third one where they meet. -/
theorem forall₂_zip {α β γ : Type} {P : α → β → Prop} {R : α × β → γ → Prop} {xs : List α}
    {ys : List β} {zs : List γ} (h : List.Forall₂ P xs ys) (h' : List.Forall₂ R (xs.zip ys) zs) :
    List.Forall₂ (fun x z => ∃ y, P x y ∧ R (x, y) z) xs zs := by
  induction h generalizing zs with
  | nil =>
    cases h'
    exact .nil
  | cons hx _ ih =>
    rw [List.zip_cons_cons] at h'
    cases h' with
    | cons hz rest => exact .cons ⟨_, hx, hz⟩ (ih rest)

/-- What is made of the values of entries is paired with the entries under their names. -/
theorem paired_zip {α β : Type} {R : α → β → Prop} {entries : List (String × α)} {ys : List β}
    (h : List.Forall₂ R (values entries) ys) :
    Paired (fun _ => R) entries ((names entries).zip ys) := by
  induction entries generalizing ys with
  | nil => exact .nil
  | cons entry entries ih =>
    cases h with
    | cons hy rest => exact .cons ⟨rfl, hy⟩ (ih rest)

/-! ## Types of one shape -/

namespace Ty

/-- Types of lists, sets and tuples, of tuples, and of maps and objects, between which conversions
keep the shape. -/
inductive SameShape : Ty → Ty → Prop where
  | list (s t : Ty) : SameShape (.list s) (.list t)
  | set (s t : Ty) : SameShape (.set s) (.list t)
  | items (ss : List Ty) (t : Ty) : SameShape (.tuple ss) (.list t)
  | tuple (ss ts : List Ty) : SameShape (.tuple ss) (.tuple ts)
  | map (s t : Ty) : SameShape (.map s) (.map t)
  | attributes (ss : List (String × Ty)) (os : List String) (t : Ty) :
      SameShape (.object ss os) (.map t)

namespace SameShape

variable {s t : Ty}

theorem ne_dynamic (h : SameShape s t) : t ≠ .dynamic := by
  rintro rfl
  cases h

theorem not_capsule (h : SameShape s t) : ¬ (s.isCapsule = true ∨ t.isCapsule = true) := by
  cases h <;> simp [isCapsule]

end SameShape

end Ty

variable [Host] {S : Scope} {mode : Mode} {path : Path} {site : List Nat}

/-! ## Elements and where they come from -/

namespace Value

/-- A value is the result of a conversion of another one, which was planned from the type of the
other one or from a type that it fills. -/
def Becomes (mode : Mode) (x y : Value) : Prop :=
  ∃ s t c path site, (x.ty = s ∨ x.ty.Fills s) ∧ Conversion.Leads mode s t c ∧
    c.run x path site = .ok y

/-- The ways in which a part of a result comes from a part of a source. It may be converted once to
the type that is wanted, and once more to what it has in common with the other parts. -/
inductive Derived (mode : Mode) (x : Value) : Value → Prop where
  | kept : Derived mode x x
  | once {y : Value} (h : x.Becomes mode y) : Derived mode x y
  | twice {y z : Value} (h : x.Becomes mode y) (again : y.Becomes mode z) : Derived mode x z

/-- An element of a new collection: nulls and unknowns of unknown type take the type of the others. -/
def Elemental (mode : Mode) (e : Ty) (x y : Value) : Prop :=
  ∃ z, x.Derived mode z ∧ y = conformTo e z

theorem elemental_of_ty {e : Ty} {x : Value} (h : x.ty = e) : x.Elemental mode e x :=
  ⟨x, .kept, (conformTo_of_ty h).symm⟩

end Value

/-- The content of a list, tuple or map that has what another content has: as many parts, in the same
order or under the same keys, each of which comes from the part in its place. -/
inductive Content.Reshaped (mode : Mode) (c : Content) : Ty → Content → Prop where
  | list {t e : Ty} {items : List Value}
      (h : List.Forall₂ (Value.Elemental mode e) c.parts items) :
      Reshaped mode c (.list t) (.list e items)
  | tuple {ts : List Ty} {items : List Value}
      (h : List.Forall₂ (Value.Derived mode) c.parts items) :
      Reshaped mode c (.tuple ts) (.tuple items)
  | map {t e : Ty} {entries : List (String × Value)}
      (h : Paired (fun _ => Value.Elemental mode e) c.named entries) :
      Reshaped mode c (.map t) (.map e entries)

theorem Content.Reshaped.notNull {c : Content} {t : Ty} {w : Value}
    (h : c.Reshaped mode t w.content) : w.isNull = false := by
  obtain ⟨m, d⟩ := w
  cases h <;> rfl

/-! ## The second pass -/

/-- Where elements are converted once more, they keep their places. -/
theorem homogenize_derived {n : Nat} {kind : CollectionKind} {xs ys zs : List Value}
    (made : List.Forall₂ (Value.Becomes mode) xs ys)
    (h : homogenize (Conversion.runPart n) kind mode path site ys = .ok zs) :
    List.Forall₂ (Value.Derived mode) xs zs := by
  obtain ⟨-, rfl | ⟨u, -, hu, runs⟩⟩ := homogenize_ok h
  · exact made.imp fun _ _ => .once
  have plans := Unification.plan?_conversions hu
  rw [Value.types_eq_map, List.forall₂_map_left_iff] at plans
  refine forall₂_trans made (forall₂_zip plans runs) ?_
  rintro x - y - z - first ⟨c?, converts, ⟨-, rfl⟩ | ⟨c, site, rfl, run⟩⟩
  · exact .once first
  · cases converts with
    | convert leads =>
      exact .twice first ⟨_, _, c, path, site, .inl rfl, leads, (Conversion.runPart_ok run).2⟩

/-- A new list has the elements that it is made of. -/
theorem reshaped_list {c : Content} {t : Ty} {zs : List Value} {w : Value}
    (derived : List.Forall₂ (Value.Derived mode) c.parts zs) (h : Value.list zs = .ok w) :
    c.Reshaped mode (.list t) w.content := by
  obtain ⟨e, -, -, rfl⟩ := Value.list_eq_ok h
  exact .list (List.forall₂_map_right_iff.2 (derived.imp fun _ z hz => ⟨z, hz, rfl⟩))

/-- A new map has the elements that it is made of under their keys. -/
theorem reshaped_map {c : Content} {t : Ty} {zs : List Value} {w : Value}
    (proper : Names.Proper (names c.named))
    (derived : List.Forall₂ (Value.Derived mode) (values c.named) zs)
    (h : Value.map ((names c.named).zip zs) = .ok w) : c.Reshaped mode (.map t) w.content := by
  have length : (names c.named).length = zs.length := by
    rw [← derived.length_eq, names, values, List.length_map, List.length_map]
  obtain ⟨e, -, -, rfl⟩ := Value.map_eq_ok (by rwa [names_zip length]) h
  exact .map (List.forall₂_map_right_iff.2
    ((paired_zip derived).imp fun _ z hz => ⟨hz.1, z.2, hz.2, rfl⟩))

/-! ## Rules -/

namespace Rule

open Conversion

variable {rule : Rule Conversion} {s t target : Ty} {v w : Value} {n : Nat}

/-- A value that is passed through has its own shape. -/
theorem reshaped_self (hd : v.Decided) (hv : v.Within S) (shape : v.ty.SameShape t)
    (fills : v.ty.Fills t) : v.content.Reshaped mode t v.content := by
  cases hv with
  | null => cases hd.notNull
  | unknown => cases hd.known
  | list _ typed _ =>
    cases shape
    exact .list (List.forall₂_same.2 fun x hx => Value.elemental_of_ty (typed x hx))
  | tuple _ _ =>
    cases shape with
    | items => cases fills
    | tuple => exact .tuple (List.forall₂_same.2 fun x _ => .kept)
  | map _ _ typed _ =>
    cases shape
    exact .map (List.forall₂_same.2 fun x hx =>
      ⟨rfl, Value.elemental_of_ty (typed x.2 (mem_values hx))⟩)
  | set | object =>
    simp only [Value.ty] at shape fills
    cases shape
    cases fills
  | _ =>
    simp only [Value.ty] at shape
    cases shape

/-- Elements that are converted by one conversion. -/
theorem becomes_of_runs {element : Conversion} {wanted : Ty} {xs ys : List Value}
    (fits : ∀ x ∈ xs, x.ty.Fills s) (hp : plan? mode s wanted = some element)
    (runs : List.Forall₂ (fun x y => ∃ path site, runPart n element x path site = .ok y) xs ys) :
    List.Forall₂ (Value.Becomes mode) xs ys := by
  refine forall₂_of_mem runs ?_
  rintro x hx y - ⟨path, site, run⟩
  exact ⟨s, wanted, element, path, site, .inr (fits x hx), .planned hp, (runPart_ok run).2⟩

/-- The elements of a list or set are converted into the elements of a list. -/
theorem items_reshapes {c : Content} {items : List Value} {element : Conversion} {wanted : Ty}
    (he : (Value.bare c).elements = .ok (Value.numbered 0 items)) (parts : c.parts = items)
    (fits : ∀ x ∈ items, x.ty.Fills s) (hp : plan? mode s wanted = some element)
    (hw : Rule.apply (runPart n) (.collection .list mode element wanted) target (.bare c) path
      site = .ok w) : c.Reshaped mode (.list t) w.content := by
  rw [Rule.apply] at hw
  obtain ⟨-, -, hw⟩ := bind_eq_ok hw
  obtain ⟨ys, runs, outcome⟩ := convertItems_ok he hw
  rw [Value.map_snd_numbered] at runs
  rcases outcome with ⟨rfl, e, -, rfl⟩ | ⟨-, zs, hh, hw⟩
  · cases runs
    refine .list ?_
    rw [parts]
    exact .nil
  · rw [if_neg (by simp)] at hw
    refine reshaped_list (homogenize_derived ?_ hh) hw
    rw [parts]
    exact becomes_of_runs fits hp runs

/-- The elements of a map keep their keys. -/
theorem mapItems_reshapes {e : Ty} {entries : List (String × Value)} {element : Conversion}
    {wanted : Ty} (proper : Names.Proper (names entries))
    (fits : ∀ x ∈ values entries, x.ty.Fills s) (hp : plan? mode s wanted = some element)
    (hw : Rule.apply (runPart n) (.collection .map mode element wanted) target
      (.bare (.map e entries)) path site = .ok w) :
    (Content.map e entries).Reshaped mode (.map t) w.content := by
  rw [Rule.apply] at hw
  obtain ⟨-, -, hw⟩ := bind_eq_ok hw
  obtain ⟨ys, runs, outcome⟩ := convertEntries_ok proper.2 rfl hw
  rcases outcome with ⟨rfl, e, -, rfl⟩ | ⟨-, zs, hh, hw⟩
  · cases entries with
    | nil => exact .map .nil
    | cons => cases runs
  · refine reshaped_map proper (homogenize_derived ?_ hh) hw
    exact becomes_of_runs fits hp runs

/-- The elements of a tuple keep their places in a tuple. -/
theorem tuple_reshapes {items : List Value} {sources targets : List Ty} {plans : List Conversion}
    (length : items.length = sources.length) (fits : ∀ (i : Nat) x s, items[i]? = some x →
      sources[i]? = some s → x.ty.Fills s) (hl : sources.length = targets.length)
    (hp : List.Forall₂ (fun p c => plan? mode p.1 p.2 = some c) (sources.zip targets) plans)
    (hw : Rule.apply (runPart n) (.tuple plans) target (.bare (.tuple items)) path site = .ok w) :
    (Content.tuple items).Reshaped mode (.tuple targets) w.content := by
  obtain ⟨results, rfl, length', result⟩ := tuple_result hl hp length hw
  refine .tuple (forall₂_of_getElem? (by rw [length', ← hl, ← length]; rfl) fun i x y hx hy => ?_)
  have hi : i < targets.length := length' ▸ (List.getElem?_eq_some_iff.1 hy).1
  obtain ⟨x', s, c, path, site, hx', hs, plan, run⟩ :=
    result i y _ hy (List.getElem?_eq_getElem hi)
  obtain rfl : x' = x := Option.some.inj (hx'.symm.trans hx)
  exact .once ⟨s, _, c, path, site, .inr (fits i x' s hx' hs), .planned plan, (runPart_ok run).2⟩

/-- The elements of a tuple become the elements of a list. -/
theorem gather_reshapes {items : List Value} {sources : List Ty} {wanted : Ty}
    {plans : List Conversion} (length : items.length = sources.length)
    (fits : ∀ (i : Nat) x s, items[i]? = some x → sources[i]? = some s → x.ty.Fills s)
    (hp : List.Forall₂ (fun s c => plan? mode s wanted = some c) sources plans)
    (hw : Rule.apply (runPart n) (.gather .list mode plans wanted) target (.bare (.tuple items))
      path site = .ok w) : (Content.tuple items).Reshaped mode (.list t) w.content := by
  rw [Rule.apply] at hw
  obtain ⟨ys, hc, hw⟩ := bind_eq_ok hw
  have runs := convertTuple_ok rfl hc
  rw [Value.map_snd_numbered] at runs
  have plans : List.Forall₂ (fun (x : Value) c => ∃ s, x.ty.Fills s ∧ plan? mode s wanted = some c)
      items plans :=
    forall₂_trans (forall₂_of_getElem? length fits) hp fun x _ s _ c _ fits plan => ⟨s, fits, plan⟩
  have made : List.Forall₂ (Value.Becomes mode) items ys := by
    refine (forall₂_zip plans runs).imp ?_
    rintro x y ⟨c, ⟨s, fits, plan⟩, path, site, run⟩
    exact ⟨s, wanted, c, path, site, .inr fits, .planned plan, (runPart_ok run).2⟩
  split at hw
  · rename_i empty
    cases hw
    rw [List.isEmpty_iff.1 empty] at made
    cases made
    exact .list .nil
  · obtain ⟨zs, hh, hw⟩ := bind_eq_ok hw
    rw [if_neg (by simp)] at hw
    exact reshaped_list (homogenize_derived made hh) (orFailure_eq_ok hw)

/-- The attributes of an object become the elements of a map under their names. -/
theorem entries_reshapes {attributes : List (String × Value)} {sources : List (String × Ty)}
    {wanted : Ty} {plans : List (String × Conversion)} (proper : Names.Proper (names attributes))
    (declared : names attributes = names sources)
    (fits : ∀ name x s, (name, x) ∈ attributes → (name, s) ∈ sources → x.ty.Fills s)
    (hp : Paired (fun _ s c => plan? mode s wanted = some c) sources plans)
    (hw : Rule.apply (runPart n) (.entries mode plans) target (.bare (.object attributes)) path
      site = .ok w) : (Content.object attributes).Reshaped mode (.map t) w.content := by
  rw [Rule.apply] at hw
  obtain ⟨converted, hc, hw⟩ := bind_eq_ok hw
  obtain ⟨zs, hh, hw⟩ := bind_eq_ok hw
  have paired := convertNamed_ok (Value.namedElements_of_content proper.2 rfl) hc
  rw [covered_eq_self hp declared] at paired
  rw [← paired.names_eq] at hw
  refine reshaped_map proper (homogenize_derived ?_ hh) (orFailure_eq_ok hw)
  rw [Content.named, values, values, List.forall₂_map_left_iff, List.forall₂_map_right_iff]
  refine forall₂_of_mem paired ?_
  rintro ⟨name, x⟩ hx ⟨_, y⟩ - ⟨rfl, c, path, site, hl, run⟩
  obtain ⟨s, hs⟩ := exists_of_mem_names (declared ▸ mem_names hx)
  obtain ⟨d, hd, plan⟩ := hp.lookup (lookup_of_mem (declared ▸ proper.nodup) hs)
  cases hl.symm.trans hd
  exact ⟨s, wanted, c, path, site, .inr (fits name x s hx hs), .planned plan, (runPart_ok run).2⟩

/-- A rule whose target has the shape of a value keeps the shape. -/
theorem Planned.apply_reshapes (hS : S.Closed) (hp : Rule.Planned mode s t rule)
    (now : rule ≠ .decideLater) (fills : v.ty.Fills s) (shape : v.ty.SameShape t) (hd : v.Decided)
    (hv : v.Within S) (hw : rule.apply (runPart n) t v path site = .ok w) :
    v.content.Reshaped mode t w.content := by
  generalize typed : v.ty = u at shape
  cases hp with
  | later => exact absurd rfl now
  | same =>
    cases hw
    exact reshaped_self hd hv (typed ▸ shape) fills
  | tuple hl plans =>
    obtain ⟨items, rfl, length, fits⟩ := hd.tuple fills
    exact tuple_reshapes length fits hl plans hw
  | @items _ _ s kind _ hk hs plan =>
    cases kind with
    | map => exact absurd rfl hk
    | set => cases shape
    | list =>
      rcases hs with rfl | rfl
      · obtain ⟨e, items, rfl, fits⟩ := hd.list fills
        cases hv with
        | list _ typed _ => exact items_reshapes rfl rfl (fun x hx => typed x hx ▸ fits) plan hw
      · obtain ⟨e, items, rfl, fits⟩ := hd.set fills
        cases hv with
        | set _ typed _ => exact items_reshapes rfl rfl (fun x hx => typed x hx ▸ fits) plan hw
  | mapItems plan =>
    obtain ⟨e, entries, rfl, fits⟩ := hd.map fills
    cases hv with
    | map _ proper typed _ => exact mapItems_reshapes proper (fun x hx => typed x hx ▸ fits) plan hw
  | @gather _ _ _ kind _ hk _ plans =>
    cases kind with
    | map => exact absurd rfl hk
    | set => cases shape
    | list =>
      obtain ⟨items, rfl, length, fits⟩ := hd.tuple fills
      exact gather_reshapes length fits plans hw
  | emptyMap =>
    obtain ⟨attributes, rfl, declared, -⟩ := hd.object fills
    cases attributes with
    | nil =>
      cases hw
      exact .map .nil
    | cons => cases declared
  | entries _ _ plans =>
    obtain ⟨attributes, rfl, declared, fits⟩ := hd.object fills
    have proper := (hv.wellFormed_ty hS).names_object
    rw [Value.names_entryTypes] at proper
    exact entries_reshapes proper declared fits plans hw
  | primitive h => cases shape <;> cases s <;> cases h
  | ofCapsules _ h =>
    -- neither a value of this shape nor a type that it fills is a capsule
    rw [typed] at fills
    rcases h with h | h
    · cases s with
      | capsule => cases fills; cases shape
      | _ => cases h
    · cases shape <;> cases h
  | toDynamic | object | pick | union | select => cases shape

/-- The same holds of what is decided later, with a rule that is planned from the type of the value. -/
theorem Planned.applyDecided_reshapes (hS : S.Closed) (hp : Rule.Planned mode s t rule)
    (fills : v.ty.Fills s) (shape : v.ty.SameShape t) (hd : v.Decided) (hv : v.Within S)
    (hw : rule.applyDecided (runPart n) t v path site = .ok w) :
    v.content.Reshaped mode t w.content := by
  rcases applyDecided_ok hw with ⟨now, hw⟩ | ⟨rfl, later, hr, hw⟩
  · exact hp.apply_reshapes hS now fills shape hd hv hw
  · have lenient : mode = .lenient := by cases hp <;> assumption
    subst lenient
    have planned := planned_of_between? hr
    have now : later ≠ .decideLater := planned.ne_decideLater hd.ty_ne_dynamic shape.not_capsule
    exact planned.apply_reshapes hS now (.refl (hv.wellFormed_ty hS)) shape hd hv hw

end Rule

/-! ## Runs -/

/-- What a value of a shape becomes. A null has no elements, and the result is a null, too. -/
structure Value.Reshapes (mode : Mode) (t : Ty) (v w : Value) : Prop where
  null : w.isNull = v.isNull
  content : v.isNull = false → v.content.Reshaped mode t w.content

namespace Conversion

variable {s t : Ty} {c : Conversion} {v w : Value}

/-- A conversion that is planned from a type that a value fills keeps the shape of the value. -/
theorem run_planned_reshapes (hS : S.Closed) (hv : v.Within S) (known : v.isKnown = true)
    (shape : v.ty.SameShape t) (fills : v.ty.Fills s) (hp : plan? mode s t = some c)
    (hw : c.run v path site = .ok w) : v.Reshapes mode t w := by
  obtain ⟨rule, rfl, planned⟩ := planned_of_plan? hp
  have closed := shape.ne_dynamic
  rw [run_eq] at hw
  cases null : v.isNull with
  | true =>
    rw [runWith_null closed null] at hw
    cases hw
    exact ⟨null.symm, fun notNull => absurd (notNull.symm.trans null) Bool.false_ne_true⟩
  | false =>
    rw [runWith_decided closed known null] at hw
    obtain ⟨x, hx, rfl⟩ := map_eq_ok hw
    have reshaped : v.content.Reshaped mode t x.content :=
      planned.applyDecided_reshapes (v := v.unmark) hS (v.ty_unmark ▸ fills) (v.ty_unmark ▸ shape)
        (Value.decided_unmark known null) hv.unmark hx
    have notNull : (x.withMarks v.marks).isNull = false :=
      Content.Reshaped.notNull (c := v.content) reshaped
    exact ⟨notNull.trans null.symm, fun _ => reshaped⟩

/-- Conversions keep the shapes of lists, sets, tuples, maps and objects: a result has as many
elements as the source, and what is in a place or under a key comes from what is there in the source,
whatever is done to the elements to give them a type in common. -/
theorem run_reshapes (hS : S.Closed) (hv : v.Within S) (known : v.isKnown = true)
    (shape : v.ty.SameShape t) :
    (∀ mode s c path site w, v.ty.Fills s → plan? mode s t = some c → c.run v path site = .ok w →
        v.Reshapes mode t w) ∧
      ∀ site w, v.convert t site = .ok w → v.Reshapes .lenient t w := by
  have refl := Ty.Fills.refl (hv.wellFormed_ty hS)
  refine ⟨fun mode s c path site w fills hp hw =>
    run_planned_reshapes hS hv known shape fills hp hw, fun site w hw => ?_⟩
  unfold Value.convert at hw
  split at hw
  · rename_i same
    cases hw
    refine ⟨rfl, fun null => ?_⟩
    exact Rule.reshaped_self (v := v.unmark) (Value.decided_unmark known null) hv.unmark
      (v.ty_unmark ▸ shape) (v.ty_unmark ▸ same ▸ refl)
  · split at hw
    · exact run_planned_reshapes hS hv known shape refl ‹_› hw
    · cases hw

/-- A list of one bool. -/
def oneBool (b : Bool) : Value :=
  .bare (.list .bool [.bool b])

/-- A tuple in a tuple, next to a list in a tuple. -/
def unevenTuple : Value :=
  .bare (.tuple [.bare (.tuple [.bare (.tuple [.bool true])]), .bare (.tuple [oneBool false])])

omit [Host] in
/-- The tuples become a list of tuples and a list of lists at first. Then the inner tuple has to
become a list as well, and each bool is where it was. -/
theorem run_reshapes_unevenTuple :
    letI := Host.plain
    let t : Ty := .list (.list .dynamic)
    let w : Value := .bare (.list (.list (.list .bool))
      [.bare (.list (.list .bool) [oneBool true]), .bare (.list (.list .bool) [oneBool false])])
    unevenTuple.Within .capsuleFree ∧ unevenTuple.isKnown = true ∧ unevenTuple.ty.SameShape t ∧
      unevenTuple.convert t [] = .ok w ∧ unevenTuple.Reshapes .lenient t w := by
  let := Host.plain
  intro t w
  have hS := Scope.closed_capsuleFree
  have tuple {xs : List Value} (hx : ∀ x ∈ xs, x.Within .capsuleFree) :
      (Value.bare (.tuple xs)).Within .capsuleFree :=
    .tuple ⟨⟨Names.proper_nil, by simp⟩, rfl⟩ hx
  have bools : (oneBool false).Within .capsuleFree :=
    .list ((Ty.everywhere_leaf rfl).2 hS.structural.bool) (List.forall_mem_singleton.2 rfl)
      (List.forall_mem_singleton.2 .bool)
  have within : unevenTuple.Within .capsuleFree :=
    tuple (List.forall_mem_cons.2
      ⟨tuple (List.forall_mem_singleton.2 (tuple (List.forall_mem_singleton.2 .bool))),
        List.forall_mem_singleton.2 (tuple (List.forall_mem_singleton.2 bools))⟩)
  have shape : unevenTuple.ty.SameShape t := .items _ _
  have converts : unevenTuple.convert t [] = .ok w := by
    cbv
  exact ⟨within, rfl, shape, converts, (run_reshapes hS within rfl shape).2 [] w converts⟩

end Conversion

end ValueAlgebra
