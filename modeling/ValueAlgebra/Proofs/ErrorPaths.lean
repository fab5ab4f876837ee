import ValueAlgebra.Proofs.Faults
import ValueAlgebra.Proofs.RecordedPaths

/-!
# Where the complaints of conversions point to

A complaint of a conversion has a path, which is meant to lead from the value to the part that could
not be converted. The steps to the elements of lists, tuples and maps, to the attributes of objects
and to what unions hold do lead there. Three kinds of steps lead astray: elements of a set on the
way to a list have numbers, attributes of an object on the way to a map have their names as keys,
and an element that is converted once more has no step at all. The last does not happen to targets
without optional attributes whose element types leave nothing open.

Main statements:

* `Conversion.run_pointed`: what the path of a complaint is made of.
* `Value.PointedAt.traced`: such a path leads to a part or goes astray.
* `Value.convert_error_path`: both, for conversions of values.
-/

namespace ValueAlgebra

open Entries Text Refining

/-! ## Steps that lead to parts -/

namespace Value

variable {v x : Value} {items : List Value} {name : String}

theorem apply_item {n : Number} {i : Nat} (hn : n.toWord? = some i)
    (hc : (∃ e, v.content = .list e items) ∨ v.content = .tuple items) (hi : items[i]? = some x) :
    ∃ w, Step.apply v (.index (.number n)) = .ok (.part w) ∧ w.content = x.content := by
  have there : v.content.at? (number n).content = some x := by
    rcases hc with ⟨e, hc⟩ | hc <;> rw [hc] <;> exact Option.bind_eq_some_iff.2 ⟨i, hn, hi⟩
  exact ⟨_, Step.applyIndex_of_at? there, rfl⟩

theorem apply_entry {e : Ty} {entries : List (String × Value)} (hc : v.content = .map e entries)
    (proper : Names.Proper (names entries)) (hx : (name, x) ∈ entries) :
    ∃ w, Step.apply v (.index (.string name)) = .ok (.part w) ∧ w.content = x.content := by
  have there : v.content.at? (string name).content = some x := by
    rw [hc, string, proper.2 name (mem_names hx)]
    exact lookup_of_mem proper.nodup hx
  exact ⟨_, Step.applyIndex_of_at? there, rfl⟩

theorem apply_attribute {attributes : List (String × Value)} (hc : v.content = .object attributes)
    (nodup : (names attributes).Nodup) (hx : (name, x) ∈ attributes) :
    ∃ w, Step.apply v (.attr name) = .ok (.part w) ∧ w.content = x.content := by
  have chosen : v.content.Chosen := hc ▸ nofun
  have part : v.content.part? (.attr name) = some x := hc ▸ lookup_of_mem nodup hx
  exact ⟨_, Step.apply_of_part? chosen part, rfl⟩

theorem apply_variant {variants : List (String × Ty)} {t : Ty}
    (hc : v.content = .union variants name x) (hl : variants.lookup name = some t) :
    ∃ w, Step.apply v (.attr name) = .ok (.part w) ∧ w.content = x.content := by
  have chosen : v.content.Chosen := by
    rw [hc]
    rintro _ _ _ ⟨⟩
    exact ⟨t, hl⟩
  have part : v.content.part? (.attr name) = some x := hc ▸ if_pos rfl
  exact ⟨_, Step.apply_of_part? chosen part, rfl⟩

end Value

/-! ## Paths of complaints -/

variable [Host]

/-- Where the path of a complaint about a value may lead to: to the value, to where it leads from a
part, and to where it leads from what a part became, if elements are converted once more. -/
inductive Value.PointedAt (settled : Prop) : Value → List Step → Prop where
  | here (v : Value) : PointedAt settled v []
  | part {v x : Value} {step : Step} {rest : List Step} (hx : v.content.Located step x)
      (h : PointedAt settled x rest) : PointedAt settled v (step :: rest)
  | again {v y : Value} {rest : List Step} (open_ : ¬ settled)
      (made : v.content.Became .convertible .lenient settled y) (h : PointedAt settled y rest) :
      PointedAt settled v rest

/-- The ways in which the path of a complaint leads nowhere from a value that it has led to. -/
inductive Value.Astray (settled : Prop) (v : Value) : List Step → Prop where
  /-- The value is a set that was on the way to a list. -/
  | number {e : Ty} {items : List Value} {key x : Value} {rest : List Step}
      (hc : v.content = .set e items) (hx : (key, x) ∈ numbered 0 items)
      (h : x.PointedAt settled rest) : Astray settled v (.index key :: rest)
  /-- The value is an object that was on the way to a map. -/
  | name {attributes : List (String × Value)} {name : String} {x : Value} {rest : List Step}
      (hc : v.content = .object attributes) (hx : (name, x) ∈ attributes)
      (h : x.PointedAt settled rest) : Astray settled v (.index (.string name) :: rest)
  /-- The complaint is about what an element of the value became. -/
  | again {y : Value} {rest : List Step} (open_ : ¬ settled)
      (made : v.content.Became .convertible .lenient settled y) (h : y.PointedAt settled rest) :
      Astray settled v rest

namespace Value

variable {settled : Prop} {v : Value} {steps : List Step}

/-- Where a path can be followed to, or where it leads astray. -/
def Traced (settled : Prop) (w : Value) (steps : List Step) : Prop :=
  ∀ done, (∃ x, Path.applyFrom done w steps = .ok x) ∨
    ∃ before after x, steps = before ++ after ∧ Path.applyFrom done w before = .ok x ∧
      x.Astray settled after

theorem Traced.step {step : Step} {rest : List Step} {w x : Value}
    (h : step.apply w = .ok (.part x)) (hx : x.Traced settled rest) :
    w.Traced settled (step :: rest) := by
  intro done
  rcases hx (done ++ [step]) with ⟨y, hy⟩ | ⟨before, after, y, rfl, hy, astray⟩
  · exact .inl ⟨y, (Path.applyFrom_cons h).trans hy⟩
  · exact .inr ⟨step :: before, after, y, rfl, (Path.applyFrom_cons h).trans hy, astray⟩

theorem Astray.traced (h : v.Astray settled steps) : v.Traced settled steps :=
  fun _ => .inr ⟨[], steps, v, rfl, rfl, h⟩

/-- The path of a complaint leads to a part of the value, unless it goes astray. Where it has led
to, marks of the way have been added. -/
theorem PointedAt.traced (h : v.PointedAt settled steps) (hv : v.Within .convertible)
    (short : v.Everywhere fun u => u.content.parts.length ≤ lengthLimit)
    (known : ∀ key, .index key ∈ steps → key.isKnown = true) {w : Value}
    (hw : w.content = v.content) : w.Traced settled steps := by
  induction h generalizing w with
  | here => exact fun _ => .inl ⟨w, rfl⟩
  | again open_ made h =>
    rw [← hw] at made
    exact (Astray.again open_ made h).traced
  | @part v x step rest hx h ih =>
    have known' (key : Value) (hk : .index key ∈ rest) := known key (List.mem_cons_of_mem _ hk)
    -- the value that a step has led to, with the marks of the way
    have next (hx : x ∈ v.content.parts) (within : x.Within .convertible)
        (step' : ∃ y, step.apply w = .ok (.part y) ∧ y.content = x.content) :
        w.Traced settled (step :: rest) := by
      obtain ⟨y, hy, same⟩ := step'
      exact .step hy (ih within (short.inside hx) known' same)
    have numbered {items : List Value} {key : Value} (hn : (key, x) ∈ numbered 0 items)
        (hl : items.length ≤ lengthLimit) :
        x ∈ items ∧ ∃ (n : Number) (i : Nat), key = number n ∧ n.toWord? = some i ∧
          items[i]? = some x := by
      obtain ⟨i, hi, rfl⟩ := mem_numbered_iff.1 hn
      have bound := Nat.le_trans (Nat.le_of_lt (List.getElem?_eq_some_iff.1 hi).1) hl
      rw [Nat.zero_add]
      exact ⟨List.mem_of_getElem? hi, _, i, rfl, toWord?_ofInt bound, hi⟩
    have keyed {entries : List (String × Value)} {key : Value} (hk : (key, x) ∈ keyed entries) :
        ∃ name, key = string name ∧ (name, x) ∈ entries := by
      obtain ⟨⟨name, y⟩, hm, eq⟩ := List.mem_map.1 hk
      cases eq
      exact ⟨name, rfl, hm⟩
    obtain ⟨m, c⟩ := v
    cases hx with
    | member => cases known _ List.mem_cons_self
    | attr hc hx =>
      cases hc
      cases hv with
      | object ht within =>
        have nodup := ht.1.1.1.nodup
        rw [Ty.partNames, names_entryTypes] at nodup
        exact next (mem_values hx) (within x (mem_values hx)) (apply_attribute hw nodup hx)
    | variant hc =>
      cases hc
      cases hv with
      | union _ hl _ _ within =>
        exact next List.mem_cons_self (within trivial) (apply_variant hw hl)
    | element he hx =>
      cases hv with
      | list _ _ within =>
        cases he
        obtain ⟨hm, n, i, rfl, word, hi⟩ := numbered hx short.here
        exact next hm (within x hm) (apply_item word (.inl ⟨_, hw⟩) hi)
      | tuple _ within =>
        cases he
        obtain ⟨hm, n, i, rfl, word, hi⟩ := numbered hx short.here
        exact next hm (within x hm) (apply_item word (.inr hw) hi)
      | map _ proper _ within =>
        cases he
        obtain ⟨name, rfl, hm⟩ := keyed hx
        exact next (mem_values hm) (within x (mem_values hm)) (apply_entry hw proper hm)
      | set =>
        cases he
        exact (Astray.number hw hx h).traced
      | object =>
        cases he
        obtain ⟨name, rfl, hm⟩ := keyed hx
        exact (Astray.name hw hm h).traced
      | _ => cases he

end Value

namespace Conversion

omit [Host] in
/-- There are unions with optional attributes inside of variants. -/
theorem not_variantsRequired : ¬ ∀ t, Scope.convertible.types t → t.VariantsRequired := by
  intro h
  have union := h (.union [("a", .optionalNumber)])
    ⟨⟨Value.headed_singleton rfl, Nat.zero_le _⟩, rfl⟩ _ rfl _ List.mem_cons_self
  cases union.here

/-- The path of a complaint of a run goes on from the place of the value. -/
theorem run_pointed {settled : Prop} {s t : Ty} {c : Conversion} {v : Value} {path : Path}
    {site : List Nat} {error : PathError} (task : Task .convertible .lenient settled s t c v)
    (hw : c.run v path site = .error (.path error)) :
    ∃ rest, error.path.steps = path.steps ++ rest ∧ v.PointedAt settled rest := by
  induction hn : v.height using Nat.strong_induction_on generalizing s t c v path site error with
  | _ n ih =>
    subst hn
    have trouble := run_trouble Scope.closed_convertible (fun _ c h => Bool.noConfusion h.2) trivial
      (fun _ h => h) task hw
    clear hw
    generalize he : Failure.path error = e at trouble
    induction trouble generalizing error with
    | own _ here =>
      subst he
      exact ⟨[], by rw [here error rfl, List.append_nil], .here v⟩
    | part hx lower task h =>
      subst he
      obtain ⟨rest, eq, pointed⟩ := ih _ lower task h rfl
      exact ⟨_ :: rest, by rw [eq, Path.push, List.append_assoc]; rfl, .part hx pointed⟩
    | second made lower task loose h =>
      subst he
      obtain ⟨rest, eq, pointed⟩ := ih _ lower task h rfl
      exact ⟨rest, eq, .again (fun hs => not_variantsRequired (loose hs)) made pointed⟩
    | @later path e _ pointed =>
      cases e with
      | fault => cases he
      | path error =>
        cases he
        obtain ⟨rest, eq, pointed⟩ := pointed rfl
        refine ⟨rest, ?_, pointed⟩
        change path.steps ++ error.path.steps = _
        rw [eq]
        rfl

end Conversion

namespace Value

variable {t : Ty} {v : Value} {site : List Nat} {error : PathError}

/-- The path of a complaint about a conversion leads to a part of the value, unless it has a step
with an unknown key or goes astray: to an element of a set by a number, to an attribute of an object
by its name as a key, or to what an element became. The last happens only where the target has
optional attributes or leaves the types of elements open. -/
theorem convert_error_path (ht : t.Everywhere Scope.convertible.types) (hv : v.Within .convertible)
    (short : v.Everywhere fun u => u.content.parts.length ≤ lengthLimit)
    (known : ∀ key, .index key ∈ error.path.steps → key.isKnown = true)
    (h : v.convert t site = .error (.path error)) :
    (∃ w, error.path.apply v = .ok w) ∨
      ∃ before after w, error.path.steps = before ++ after ∧ Path.apply ⟨before⟩ v = .ok w ∧
        w.Astray (t.OptionalFree ∧ t.Settled False) after := by
  have pointed : v.PointedAt (t.OptionalFree ∧ t.Settled False) error.path.steps := by
    unfold convert at h
    split at h
    · cases h
    split at h
    · rename_i c hp
      have hS := Scope.closed_convertible
      have aims := Ty.Aims.ofEverywhere hS.structural ht
      obtain ⟨rest, eq, pointed⟩ := Conversion.run_pointed
        ⟨hv.fitted hS, .planned hp, aims,
          fun (firm : t.OptionalFree ∧ t.Settled False) => .firm firm.1 firm.2⟩ h
      rw [eq]
      exact pointed
    · cases h
      exact .here v
  exact pointed.traced hv short known rfl []

/-- An object with a text that is no number. -/
def wordObject : Value :=
  .bare (.object [("a", .bare (.string "x"))])

omit [Host] in
theorem within_wordObject : wordObject.Within .convertible ∧
    wordObject.Everywhere fun u => u.content.parts.length ≤ lengthLimit := by
  have part : ∀ w ∈ wordObject.content.parts, w = .bare (.string "x") :=
    fun w hw => List.mem_singleton.1 hw
  refine ⟨.object ?_ fun w hw => part w hw ▸ .string trivial,
    .intro (by decide) fun w hw => part w hw ▸ .intro (by decide) nofun⟩
  have object := everywhere_object_singleton Scope.closed_convertible.structural.string rfl
  simpa only [entryTypes, ty, bare] using object.here

omit [Host] in
theorem convert_error_path_attribute :
    letI := Host.plain
    let t : Ty := .object [("a", .number)] []
    let error : PathError := ⟨⟨[.attr "a"]⟩, .numberRequired⟩
    wordObject.convert t [] = .error (.path error) ∧ ((∃ w, error.path.apply wordObject = .ok w) ∨
      ∃ before after w, error.path.steps = before ++ after ∧
        Path.apply ⟨before⟩ wordObject = .ok w ∧
          w.Astray (t.OptionalFree ∧ t.Settled False) after) := by
  let := Host.plain
  intro t error
  have fails : wordObject.convert t [] = .error (.path error) := by
    cbv
  exact ⟨fails, convert_error_path
    (everywhere_object_singleton Scope.closed_convertible.structural.number rfl)
    within_wordObject.1 within_wordObject.2 (fun key hk => by cases List.mem_singleton.1 hk) fails⟩

omit [Host] in
/-- An attribute of an object on the way to a map has a key in the path, and objects have no
keys. -/
theorem convert_error_path_astray :
    ¬ ∀ (_ : Host) (t : Ty) (v : Value) (site : List Nat) (error : PathError),
      t.Everywhere Scope.convertible.types → v.Within .convertible →
      (v.Everywhere fun u => u.content.parts.length ≤ lengthLimit) →
      (∀ key, .index key ∈ error.path.steps → key.isKnown = true) →
      v.convert t site = .error (.path error) → ∃ w, error.path.apply v = .ok w := by
  intro claim
  let := Host.plain
  have hS := Scope.closed_convertible.structural
  have fails : wordObject.convert (.map .number) [] =
      .error (.path ⟨⟨[.index (.string "a")]⟩, .numberRequired⟩) := by
    cbv
  obtain ⟨w, hw⟩ := claim _ (.map .number) wordObject [] _
    (Ty.everywhere_map.2 ⟨hS.map _, (Ty.everywhere_leaf rfl).2 hS.number⟩)
    within_wordObject.1 within_wordObject.2
    (fun key hk => by cases List.mem_singleton.1 hk; rfl) fails
  have nowhere : Path.apply ⟨[.index (.string "a")]⟩ wordObject =
      .error (.path ⟨.root, .step 0 .notAMap⟩) := by
    cbv
  rw [nowhere] at hw
  cases hw

end Value

end ValueAlgebra
