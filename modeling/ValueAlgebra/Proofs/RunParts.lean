import ValueAlgebra.Conversion.Run
import ValueAlgebra.Proofs.Construction

/-!
# The steps of a run

What the helpers of `Conversion.run` do to the parts of a value, in terms of the runs of the
conversions of the parts: where a helper succeeds, each result comes from a successful run, and where
it fails, a part fails or the helper has its own complaint.

Main statements:

* `Runner.runAll_ok`, `Runner.runAll_error`: parts that are converted one by one.
* `convertNamed_ok`, `convertTuple_ok`: the parts of a map, an object or a tuple.
* `convertItems_ok`, `convertEntries_ok`, `homogenize_ok`: the elements of a collection.
* `select_ok`, `select_leaves`, `missingAttributes_ok`: the choice of a variant, what it leaves out,
  and the nulls for what is missing.
-/

namespace ValueAlgebra

open Entries Text

/-- A host without capsule types, for examples in which nothing hangs on hashes. -/
abbrev Host.plain : Host where
  digest _ := 0
  operations _ := {}
  nativeName _ := ""

/-! ## Sequences of steps that may fail -/

section

variable {ε α β : Type}

theorem bind_eq_ok {x : Except ε α} {f : α → Except ε β} {b : β} (h : x >>= f = .ok b) :
    ∃ a, x = .ok a ∧ f a = .ok b := by
  cases x with
  | error => cases h
  | ok a => exact ⟨a, rfl, h⟩

theorem bind_eq_error {x : Except ε α} {f : α → Except ε β} {e : ε} (h : x >>= f = .error e) :
    x = .error e ∨ ∃ a, x = .ok a ∧ f a = .error e := by
  cases x with
  | error =>
    cases h
    exact .inl rfl
  | ok a => exact .inr ⟨a, rfl, h⟩

theorem map_eq_ok {x : Except ε α} {f : α → β} {b : β} (h : x.map f = .ok b) :
    ∃ a, x = .ok a ∧ f a = b := by
  cases x with
  | error => cases h
  | ok a =>
    cases h
    exact ⟨a, rfl, rfl⟩

theorem map_eq_error {x : Except ε α} {f : α → β} {e : ε} (h : x.map f = .error e) :
    x = .error e := by
  cases x with
  | error =>
    cases h
    rfl
  | ok a => cases h

theorem mapError_eq_ok {ε' : Type} {x : Except ε α} {f : ε → ε'} {a : α}
    (h : x.mapError f = .ok a) : x = .ok a := by
  cases x with
  | error => cases h
  | ok b =>
    cases h
    rfl

theorem mapError_eq_error {ε' : Type} {x : Except ε α} {f : ε → ε'} {e : ε'}
    (h : x.mapError f = .error e) : ∃ d, x = .error d ∧ f d = e := by
  cases x with
  | error d =>
    cases h
    exact ⟨d, rfl, rfl⟩
  | ok => cases h

theorem forall₂_of_mapM_ok {f : α → Except ε β} {xs : List α} {ys : List β}
    (h : xs.mapM f = .ok ys) : List.Forall₂ (fun x y => f x = .ok y) xs ys := by
  induction xs generalizing ys with
  | nil =>
    cases h
    exact .nil
  | cons x xs ih =>
    rw [List.mapM_cons] at h
    obtain ⟨y, hy, h⟩ := bind_eq_ok h
    obtain ⟨rest, hr, h⟩ := bind_eq_ok h
    cases h
    exact .cons hy (ih hr)

theorem exists_of_mapM_error {f : α → Except ε β} {xs : List α} {e : ε}
    (h : xs.mapM f = .error e) : ∃ x ∈ xs, f x = .error e := by
  induction xs with
  | nil => cases h
  | cons x xs ih =>
    rw [List.mapM_cons] at h
    rcases bind_eq_error h with h | ⟨y, -, h⟩
    · exact ⟨x, List.mem_cons_self, h⟩
    · rcases bind_eq_error h with h | ⟨rest, -, h⟩
      · obtain ⟨z, hz, h⟩ := ih h
        exact ⟨z, List.mem_cons_of_mem _ hz, h⟩
      · cases h

theorem mapM_eq_ok_map {f : α → Except ε β} {g : α → β} {xs : List α}
    (h : ∀ x ∈ xs, f x = .ok (g x)) : xs.mapM f = .ok (xs.map g) := by
  induction xs with
  | nil => rfl
  | cons x xs ih =>
    rw [List.mapM_cons, h x List.mem_cons_self, ih fun y hy => h y (List.mem_cons_of_mem _ hy)]
    rfl

end

theorem orFailure_eq_ok {α : Type} {x : Except Fault α} {a : α} (h : orFailure x = .ok a) :
    x = .ok a := by
  cases x <;> cases h
  rfl

theorem orFailure_eq_error {α : Type} {x : Except Fault α} {e : Failure}
    (h : orFailure x = .error e) : ∃ fault, x = .error fault ∧ e = .fault fault := by
  cases x <;> cases h
  exact ⟨_, rfl, rfl⟩

/-! ## Elements of values -/

namespace Value

theorem asString_string {s : String} (h : normalize s = s) : (string s).asString = .ok s := by
  rw [string, h]
  rfl

theorem map_snd_numbered (start : Nat) (items : List Value) :
    (numbered start items).map (·.2) = items := by
  induction items generalizing start with
  | nil => rfl
  | cons v vs ih => rw [numbered, List.map_cons, ih]

/-- The entries of a map or object with proper names are its elements with names. -/
theorem namedElements_of_content {v : Value} {entries : List (String × Value)}
    (hn : ∀ name ∈ names entries, normalize name = name)
    (hv : v.elements = .ok (keyed entries)) :
    v.namedElements = .ok (entries.map fun x => (x.1, .string x.1, x.2)) := by
  rw [namedElements, hv]
  change (keyed entries).mapM _ = _
  rw [mapM_eq_ok_map (g := fun x => (x.1.string?.getD "", x.1, x.2))]
  · simp only [keyed, List.map_map]
    congr 1
    refine List.map_congr_left fun x hx => ?_
    simp [string?, string, bare, hn x.1 (mem_names hx)]
  · intro x hx
    obtain ⟨y, hy, rfl⟩ := List.mem_map.1 hx
    simp only [asString_string (hn y.1 (mem_names hy))]
    simp [string?, string, bare, orFailure, Except.map, hn y.1 (mem_names hy)]

end Value

/-! ## Values that are known and not null -/

/-- A value that rules are applied to: it is known, not null and without marks. -/
structure Value.Decided (v : Value) : Prop where
  unmarked : v.marks = .empty
  known : v.isKnown = true
  notNull : v.isNull = false

theorem Value.decided_unmark {v : Value} (known : v.isKnown = true) (notNull : v.isNull = false) :
    v.unmark.Decided :=
  ⟨rfl, known ▸ isKnown_of_content rfl, notNull ▸ isNull_of_content rfl⟩

theorem Value.unmark_of_unknown {v : Value} (h : v.isKnown = false) :
    ∃ r, v.unmark = bare (.unknown v.ty r) := by
  obtain ⟨m, c⟩ := v
  cases c with
  | unknown t r =>
    refine ⟨r, ?_⟩
    simp only [ty]
    rfl
  | _ => cases h

namespace Value.Decided

variable {v : Value}

theorem ty_ne_dynamic (h : v.Decided) : v.ty ≠ .dynamic := by
  obtain ⟨m, c⟩ := v
  cases c with
  | null => cases h.notNull
  | unknown => cases h.known
  | _ => simp [ty]

theorem number (h : v.Decided) (hf : v.ty.Fills .number) : ∃ n, v = Value.number n := by
  obtain ⟨m, c⟩ := v
  cases h.unmarked
  cases c with
  | null => cases h.notNull
  | unknown => cases h.known
  | number n => exact ⟨n, rfl⟩
  | _ => simp only [ty] at hf; cases hf

theorem string (h : v.Decided) (hf : v.ty.Fills .string) : ∃ s, v = bare (.string s) := by
  obtain ⟨m, c⟩ := v
  cases h.unmarked
  cases c with
  | null => cases h.notNull
  | unknown => cases h.known
  | string s => exact ⟨s, rfl⟩
  | _ => simp only [ty] at hf; cases hf

theorem bool (h : v.Decided) (hf : v.ty.Fills .bool) : ∃ b, v = Value.bool b := by
  obtain ⟨m, c⟩ := v
  cases h.unmarked
  cases c with
  | null => cases h.notNull
  | unknown => cases h.known
  | bool b => exact ⟨b, rfl⟩
  | _ => simp only [ty] at hf; cases hf

theorem list {s : Ty} (h : v.Decided) (hf : v.ty.Fills (.list s)) :
    ∃ e items, v = bare (.list e items) ∧ e.Fills s := by
  obtain ⟨m, c⟩ := v
  cases h.unmarked
  cases c with
  | null => cases h.notNull
  | unknown => cases h.known
  | list e items =>
    simp only [ty] at hf
    cases hf
    exact ⟨e, items, rfl, ‹_›⟩
  | _ => simp only [ty] at hf; cases hf

theorem set {s : Ty} (h : v.Decided) (hf : v.ty.Fills (.set s)) :
    ∃ e items, v = bare (.set e items) ∧ e.Fills s := by
  obtain ⟨m, c⟩ := v
  cases h.unmarked
  cases c with
  | null => cases h.notNull
  | unknown => cases h.known
  | set e items =>
    simp only [ty] at hf
    cases hf
    exact ⟨e, items, rfl, ‹_›⟩
  | _ => simp only [ty] at hf; cases hf

theorem map {s : Ty} (h : v.Decided) (hf : v.ty.Fills (.map s)) :
    ∃ e entries, v = bare (.map e entries) ∧ e.Fills s := by
  obtain ⟨m, c⟩ := v
  cases h.unmarked
  cases c with
  | null => cases h.notNull
  | unknown => cases h.known
  | map e entries =>
    simp only [ty] at hf
    cases hf
    exact ⟨e, entries, rfl, ‹_›⟩
  | _ => simp only [ty] at hf; cases hf

theorem object {ss : List (String × Ty)} {os : List String} (h : v.Decided)
    (hf : v.ty.Fills (.object ss os)) :
    ∃ attributes, v = bare (.object attributes) ∧ names attributes = names ss ∧
      ∀ name x s, (name, x) ∈ attributes → (name, s) ∈ ss → x.ty.Fills s := by
  obtain ⟨m, c⟩ := v
  cases h.unmarked
  cases c with
  | null => cases h.notNull
  | unknown => cases h.known
  | object attributes =>
    simp only [ty] at hf
    cases hf with
    | object hn parts _ =>
      rw [names_entryTypes] at hn
      exact ⟨attributes, rfl, hn, fun name x s hx hs =>
        parts name x.ty s (mem_entryTypes.2 ⟨x, hx, rfl⟩) hs⟩
  | _ => simp only [ty] at hf; cases hf

theorem tuple {ss : List Ty} (h : v.Decided) (hf : v.ty.Fills (.tuple ss)) :
    ∃ items, v = bare (.tuple items) ∧ items.length = ss.length ∧
      ∀ (i : Nat) x s, items[i]? = some x → ss[i]? = some s → x.ty.Fills s := by
  obtain ⟨m, c⟩ := v
  cases h.unmarked
  cases c with
  | null => cases h.notNull
  | unknown => cases h.known
  | tuple items =>
    simp only [ty] at hf
    cases hf with
    | tuple hl parts =>
      rw [length_types] at hl
      refine ⟨items, rfl, hl, fun i x s hx hs => parts i x.ty s ?_ hs⟩
      rw [types_eq_map, List.getElem?_map, hx, Option.map_some]
  | _ => simp only [ty] at hf; cases hf

theorem union {ss : List (String × Ty)} (h : v.Decided) (hf : v.ty.Fills (.union ss)) :
    ∃ variants name inner, v = bare (.union variants name inner) ∧ names variants = names ss ∧
      ∀ name a s, (name, a) ∈ variants → (name, s) ∈ ss → a.Fills s := by
  obtain ⟨m, c⟩ := v
  cases h.unmarked
  cases c with
  | null => cases h.notNull
  | unknown => cases h.known
  | union variants name inner =>
    simp only [ty] at hf
    cases hf with
    | union hn parts => exact ⟨variants, name, inner, rfl, hn, parts⟩
  | _ => simp only [ty] at hf; cases hf

end Value.Decided

/-! ## Parts that are converted one by one -/

namespace Runner

variable {run : Runner} {site : List Nat}

theorem runAll_ok {plans : List PartPlan} {values : List Value}
    (h : run.runAll site plans = .ok values) :
    List.Forall₂ (fun p v => ∃ site, run p.conversion p.part p.path site = .ok v) plans values := by
  have paired := forall₂_of_mapM_ok h
  have : plans = plans.zipIdx.map (·.1) := by simp
  rw [this, List.forall₂_map_left_iff]
  exact paired.imp fun p v hp => ⟨_, hp⟩

theorem runAll_error {plans : List PartPlan} {e : Failure}
    (h : run.runAll site plans = .error e) :
    ∃ p ∈ plans, ∃ site, run p.conversion p.part p.path site = .error e := by
  obtain ⟨⟨p, i⟩, hp, h⟩ := exists_of_mapM_error h
  exact ⟨p, (List.mem_zipIdx hp).2.2 ▸ List.getElem_mem _, _, h⟩

theorem runSecond_ok {path : Path} {inputs : List (Value × Option Conversion)}
    {values : List Value} (h : run.runSecond path site inputs = .ok values) :
    List.Forall₂ (fun x v => (x.2 = none ∧ v = x.1) ∨
      ∃ c site, x.2 = some c ∧ run c x.1 path site = .ok v) inputs values := by
  have paired := forall₂_of_mapM_ok h
  have : inputs = inputs.zipIdx.map (·.1) := by simp
  rw [this, List.forall₂_map_left_iff]
  refine paired.imp ?_
  rintro ⟨⟨v, conversion?⟩, i⟩ w hw
  cases conversion? with
  | none =>
    cases hw
    exact .inl ⟨rfl, rfl⟩
  | some c => exact .inr ⟨c, _, rfl, hw⟩

theorem runSecond_error {path : Path} {inputs : List (Value × Option Conversion)} {e : Failure}
    (h : run.runSecond path site inputs = .error e) :
    ∃ v c site, (v, some c) ∈ inputs ∧ run c v path site = .error e := by
  obtain ⟨⟨⟨v, conversion?⟩, i⟩, hp, h⟩ := exists_of_mapM_error h
  have hm : (v, conversion?) ∈ inputs := (List.mem_zipIdx hp).2.2 ▸ List.getElem_mem _
  cases conversion? with
  | none => cases h
  | some c => exact ⟨v, c, _, hm, h⟩

end Runner

variable {run : Runner} {path : Path} {site : List Nat}

/-! ## Structures -/

/-- A part of a structure that a conversion of its name was run on. -/
def ConvertedBy (run : Runner) (conversions : List (String × Conversion)) (name : String)
    (x y : Value) : Prop :=
  ∃ c path site, conversions.lookup name = some c ∧ run c x path site = .ok y

/-- The parts that a conversion has the name of. -/
def covered (conversions : List (String × Conversion)) (entries : List (String × Value)) :
    List (String × Value) :=
  entries.filter fun x => (conversions.lookup x.1).isSome

/-- Every part is covered where the conversions belong to the types of the parts. -/
theorem covered_eq_self {R : String → Ty → Conversion → Prop} {sources : List (String × Ty)}
    {conversions : List (String × Conversion)} {entries : List (String × Value)}
    (h : Paired R sources conversions) (hn : names entries = names sources) :
    covered conversions entries = entries := by
  refine List.filter_eq_self.2 fun x hx => ?_
  obtain ⟨s, hs⟩ := exists_lookup.2 (hn ▸ mem_names hx)
  obtain ⟨c, hc, -⟩ := h.lookup hs
  rw [hc]
  rfl

theorem filterMap_covered {conversions : List (String × Conversion)}
    {entries : List (String × Value)} {locate : String → Value → Path} :
    ((entries.map fun x => (x.1, Value.string x.1, x.2)).filterMap fun (name, key, part) =>
      (conversions.lookup name).map fun conversion =>
        (name, PartPlan.mk conversion part (locate name key))) =
      (covered conversions entries).filterMap fun x =>
        (conversions.lookup x.1).map fun conversion =>
          (x.1, PartPlan.mk conversion x.2 (locate x.1 (.string x.1))) := by
  rw [List.filterMap_map, covered, List.filterMap_filter]
  refine List.filterMap_congr fun x _ => ?_
  cases h : conversions.lookup x.1 <;> simp [h]

theorem convertTuple_ok {conversions : List Conversion} {v : Value}
    {elements : List (Value × Value)} {result : List Value} (he : v.elements = .ok elements)
    (h : convertTuple run conversions v path site = .ok result) :
    List.Forall₂ (fun x y => ∃ path site, run x.2 x.1 path site = .ok y)
      ((elements.map (·.2)).zip conversions) result := by
  unfold convertTuple at h
  rw [he] at h
  obtain ⟨_, eq, h⟩ := bind_eq_ok h
  cases eq
  have paired := Runner.runAll_ok h
  rw [List.forall₂_map_left_iff] at paired
  rw [List.zip_map_left, List.forall₂_map_left_iff]
  refine paired.imp ?_
  rintro ⟨⟨key, part⟩, c⟩ y hy
  exact ⟨_, hy⟩

theorem convertTuple_error {conversions : List Conversion} {v : Value}
    {elements : List (Value × Value)} {e : Failure} (he : v.elements = .ok elements)
    (h : convertTuple run conversions v path site = .error e) :
    ∃ key x c site, (key, x) ∈ elements ∧ (x, c) ∈ (elements.map (·.2)).zip conversions ∧
      run c x (path.index key) site = .error e := by
  unfold convertTuple at h
  rw [he] at h
  rcases bind_eq_error h with h | ⟨_, eq, h⟩
  · cases h
  cases eq
  obtain ⟨p, hp, site, h⟩ := Runner.runAll_error h
  obtain ⟨⟨⟨key, part⟩, c⟩, hm, rfl⟩ := List.mem_map.1 hp
  refine ⟨key, part, c, site, (List.of_mem_zip hm).1, ?_, h⟩
  rw [List.zip_map_left]
  exact List.mem_map.2 ⟨_, hm, rfl⟩

theorem missingAttributes_ok {found : List (String × Value)} {optional : List String}
    {ts : List (String × Ty)} {result : List (String × Value)}
    (h : missingAttributes found optional path ts = .ok result) :
    result = (ts.filter fun t => !contains t.1 found).map
      fun t => (t.1, .null t.2.withoutOptional) := by
  induction ts generalizing result with
  | nil =>
    cases h
    rfl
  | cons t ts ih =>
    obtain ⟨name, t⟩ := t
    rw [missingAttributes] at h
    split at h
    · rename_i hc
      rw [List.filter_cons_of_neg (by simp [hc])]
      exact ih h
    · rename_i hc
      split at h
      · obtain ⟨rest, hr, h⟩ := bind_eq_ok h
        cases h
        rw [List.filter_cons_of_pos (by simpa using hc), List.map_cons, ← ih hr]
      · cases h

theorem missingAttributes_error {found : List (String × Value)} {optional : List String}
    {ts : List (String × Ty)} {e : Failure}
    (h : missingAttributes found optional path ts = .error e) :
    ∃ complaint, e = .path ⟨path, complaint⟩ := by
  induction ts with
  | nil => cases h
  | cons t ts ih =>
    obtain ⟨name, t⟩ := t
    rw [missingAttributes] at h
    split at h
    · exact ih h
    · split at h
      · rcases bind_eq_error h with h | ⟨_, -, h⟩
        · exact ih h
        · cases h
      · cases h
        exact ⟨_, rfl⟩

/-- The results for covered parts, with the names of the parts. -/
theorem paired_of_runs {conversions : List (String × Conversion)}
    {locate : String → Value → Path} {kept : List (String × Value)} {values : List Value}
    (all : ∀ x ∈ kept, ∃ c, conversions.lookup x.1 = some c)
    (paired : List.Forall₂ (fun p v => ∃ site, run p.conversion p.part p.path site = .ok v)
      ((kept.filterMap fun x => (conversions.lookup x.1).map fun conversion =>
        (x.1, PartPlan.mk conversion x.2 (locate x.1 (.string x.1)))).map (·.2)) values) :
    Paired (ConvertedBy run conversions) kept
      (((kept.filterMap fun x => (conversions.lookup x.1).map fun conversion =>
        (x.1, PartPlan.mk conversion x.2 (locate x.1 (.string x.1)))).map (·.1)).zip values) := by
  induction kept generalizing values with
  | nil =>
    cases paired
    exact .nil
  | cons x kept ih =>
    obtain ⟨c, hc⟩ := all x List.mem_cons_self
    simp only [List.filterMap_cons, hc, Option.map_some, List.map_cons] at paired ⊢
    cases paired with
    | @cons _ y _ ys hy paired =>
      obtain ⟨site, hy⟩ := hy
      rw [List.zip_cons_cons]
      exact .cons ⟨rfl, c, _, site, hc, hy⟩
        (ih (fun x hx => all x (List.mem_cons_of_mem _ hx)) paired)

theorem convertNamed_ok {conversions : List (String × Conversion)}
    {locate : String → Value → Path} {v : Value} {entries result : List (String × Value)}
    (he : v.namedElements = .ok (entries.map fun x => (x.1, .string x.1, x.2)))
    (h : convertNamed run conversions locate v site = .ok result) :
    Paired (ConvertedBy run conversions) (covered conversions entries) result := by
  unfold convertNamed at h
  rw [he] at h
  obtain ⟨_, eq, h⟩ := bind_eq_ok h
  cases eq
  obtain ⟨values, hr, h⟩ := bind_eq_ok h
  cases h
  simp only [filterMap_covered] at hr ⊢
  refine paired_of_runs (fun x hx => ?_) (Runner.runAll_ok hr)
  exact Option.isSome_iff_exists.1 (by simpa using (List.mem_filter.1 hx).2)

theorem convertNamed_error {conversions : List (String × Conversion)}
    {locate : String → Value → Path} {v : Value} {entries : List (String × Value)} {e : Failure}
    (he : v.namedElements = .ok (entries.map fun x => (x.1, .string x.1, x.2)))
    (h : convertNamed run conversions locate v site = .error e) :
    ∃ name x c site, (name, x) ∈ entries ∧ conversions.lookup name = some c ∧
      run c x (locate name (.string name)) site = .error e := by
  unfold convertNamed at h
  rw [he] at h
  rcases bind_eq_error h with h | ⟨_, eq, h⟩
  · cases h
  cases eq
  rcases bind_eq_error h with h | ⟨_, -, h⟩
  · obtain ⟨p, hp, site, h⟩ := Runner.runAll_error h
    obtain ⟨q, hq, rfl⟩ := List.mem_map.1 hp
    rw [filterMap_covered] at hq
    obtain ⟨x, hx, hq⟩ := List.mem_filterMap.1 hq
    obtain ⟨c, hc, rfl⟩ := Option.map_eq_some_iff.1 hq
    exact ⟨x.1, x.2, c, site, (List.mem_filter.1 hx).1, hc, h⟩
  · cases h

/-! ## Collections -/

section

variable [Host] {kind : CollectionKind} {mode : Mode}

/-- Elements stay, or some are converted once more to what their types have in common. -/
theorem homogenize_ok {vs ws : List Value} (h : homogenize run kind mode path site vs = .ok ws) :
    (Value.commonType? ws).isSome = true ∧ (ws = vs ∨ ∃ u, Value.commonType? vs = none ∧
      Unification.plan? mode (Value.types vs) = some u ∧
        List.Forall₂ (fun x w => (x.2 = none ∧ w = x.1) ∨
          ∃ c site, x.2 = some c ∧ run c x.1 path site = .ok w) (vs.zip u.conversions) ws) := by
  unfold homogenize at h
  split at h
  · rename_i hc
    cases h
    exact ⟨hc, .inl rfl⟩
  rename_i hc
  split at h
  · cases h
  rename_i u hu
  obtain ⟨second, hs, h⟩ := bind_eq_ok h
  split at h
  · rename_i same
    cases h
    exact ⟨same, .inr ⟨u, by simpa using hc, hu, Runner.runSecond_ok hs⟩⟩
  · cases h

/-- The elements of a collection are converted and put together. -/
theorem convertItems_ok {element : Conversion} {wanted : Ty} {v w : Value}
    {elements : List (Value × Value)} (he : v.elements = .ok elements)
    (h : convertItems run kind mode element wanted v path site = .ok w) :
    ∃ ys, List.Forall₂ (fun x y => ∃ path site, run element x path site = .ok y)
        (elements.map (·.2)) ys ∧
      ((ys = [] ∧ ∃ e, v.ty.elementType = .ok e ∧ w = emptyCollection kind wanted e) ∨
        ys ≠ [] ∧ ∃ zs, homogenize run kind mode path site ys = .ok zs ∧
          (if kind = .set then Value.set zs else Value.list zs) = .ok w) := by
  unfold convertItems at h
  rw [he] at h
  obtain ⟨_, eq, h⟩ := bind_eq_ok h
  cases eq
  obtain ⟨ys, hr, h⟩ := bind_eq_ok h
  have paired := Runner.runAll_ok hr
  rw [List.forall₂_map_left_iff] at paired
  refine ⟨ys, List.forall₂_map_left_iff.2 (paired.imp fun x y hy => ⟨_, hy⟩), ?_⟩
  split at h
  · rename_i empty
    obtain ⟨e, eq, h⟩ := bind_eq_ok h
    cases h
    exact .inl ⟨List.isEmpty_iff.1 empty, e, orFailure_eq_ok eq, rfl⟩
  · rename_i nonempty
    obtain ⟨zs, hh, h⟩ := bind_eq_ok h
    refine .inr ⟨fun eq => nonempty (eq ▸ rfl), zs, hh, ?_⟩
    split at h
    · rename_i hk
      rw [if_pos hk]
      exact orFailure_eq_ok h
    · rename_i hk
      rw [if_neg hk]
      exact orFailure_eq_ok h

/-- The elements of a map are converted and keep their keys. -/
theorem convertEntries_ok {element : Conversion} {wanted : Ty} {v w : Value}
    {entries : List (String × Value)} (hn : ∀ name ∈ names entries, normalize name = name)
    (he : v.elements = .ok (Value.keyed entries))
    (h : convertEntries run mode element wanted v path site = .ok w) :
    ∃ ys, List.Forall₂ (fun x y => ∃ path site, run element x path site = .ok y)
        (values entries) ys ∧
      ((ys = [] ∧ ∃ e, v.ty.elementType = .ok e ∧ w = emptyCollection .map wanted e) ∨
        ys ≠ [] ∧ ∃ zs, homogenize run .map mode path site ys = .ok zs ∧
          Value.map ((names entries).zip zs) = .ok w) := by
  unfold convertEntries at h
  rw [Value.namedElements_of_content hn he] at h
  obtain ⟨_, eq, h⟩ := bind_eq_ok h
  cases eq
  obtain ⟨ys, hr, h⟩ := bind_eq_ok h
  have paired := Runner.runAll_ok hr
  rw [List.map_map, List.forall₂_map_left_iff] at paired
  refine ⟨ys, ?_, ?_⟩
  · rw [values, List.forall₂_map_left_iff]
    exact paired.imp fun x y hy => ⟨_, hy⟩
  split at h
  · rename_i empty
    obtain ⟨e, eq, h⟩ := bind_eq_ok h
    cases h
    exact .inl ⟨List.isEmpty_iff.1 empty, e, orFailure_eq_ok eq, rfl⟩
  · rename_i nonempty
    obtain ⟨zs, hh, h⟩ := bind_eq_ok h
    have hnames : (entries.map fun x => (x.1, Value.string x.1, x.2)).map (·.1) =
        names entries := by simp [names]
    rw [hnames] at h
    exact .inr ⟨fun eq => nonempty (eq ▸ rfl), zs, hh, orFailure_eq_ok h⟩

end

/-! ## Selections -/

/-- A selection that starts with the choice `chosen` ends with a variant that was chosen before or is
among the entries. -/
theorem select_ok {chosen : Option (String × Value)} {entries : List (String × Value)}
    {name : String} {part : Value} (hn : ∀ name ∈ names entries, normalize name = name)
    (h : select path chosen (Value.keyed entries) = .ok (.variant name part)) :
    chosen = some (name, part) ∨ (name, part) ∈ entries := by
  induction entries generalizing chosen with
  | nil =>
    cases chosen with
    | none => cases h
    | some chosen =>
      cases h
      exact .inl rfl
  | cons entry entries ih =>
    obtain ⟨other, x⟩ := entry
    have rest := fun name hm => hn name (List.mem_cons_of_mem _ hm)
    simp only [Value.keyed, List.map_cons] at h ih
    rw [select] at h
    split at h
    · cases h
    split at h
    · exact (ih rest h).imp_right (List.mem_cons_of_mem _)
    · rw [Value.asString_string (hn other List.mem_cons_self)] at h
      cases chosen with
      | some => cases h
      | none =>
        rcases ih rest h with h | h
        · cases h
          exact .inr List.mem_cons_self
        · exact .inr (List.mem_cons_of_mem _ h)

/-- A selection leaves out nulls. It ends without a decision only where something is unknown. -/
theorem select_leaves {chosen : Option (String × Value)} {entries : List (String × Value)}
    {selection : Selection} (hn : ∀ name ∈ names entries, normalize name = name)
    (h : select path chosen (Value.keyed entries) = .ok selection) :
    (selection = .undecided ∧ ∃ x ∈ values entries, x.isKnown = false) ∨
      ∃ name part, selection = .variant name part ∧
        (∀ other x, (other, x) ∈ entries → x.isNull = true ∨ (other, x) = (name, part)) ∧
          ∀ first, chosen = some first → first = (name, part) := by
  induction entries generalizing chosen with
  | nil =>
    cases chosen with
    | none => cases h
    | some chosen =>
      cases h
      exact .inr ⟨_, _, rfl, nofun, fun first eq => (Option.some.inj eq).symm⟩
  | cons entry entries ih =>
    obtain ⟨other, x⟩ := entry
    have rest := fun name hm => hn name (List.mem_cons_of_mem _ hm)
    simp only [Value.keyed, List.map_cons] at h ih
    rw [select] at h
    split at h
    · rename_i unknown
      cases h
      exact .inl ⟨rfl, x, List.mem_cons_self, by simpa using unknown⟩
    split at h
    · rename_i null
      rcases ih rest h with ⟨rfl, y, hy, unknown⟩ | ⟨name, part, rfl, others, first⟩
      · exact .inl ⟨rfl, y, List.mem_cons_of_mem _ hy, unknown⟩
      · refine .inr ⟨name, part, rfl, fun key y hy => ?_, first⟩
        rcases List.mem_cons.1 hy with hy | hy
        · cases hy
          exact .inl null
        · exact others key y hy
    · rw [Value.asString_string (hn other List.mem_cons_self)] at h
      cases chosen with
      | some => cases h
      | none =>
        rcases ih rest h with ⟨rfl, y, hy, unknown⟩ | ⟨name, part, rfl, others, first⟩
        · exact .inl ⟨rfl, y, List.mem_cons_of_mem _ hy, unknown⟩
        · refine .inr ⟨name, part, rfl, fun key y hy => ?_, nofun⟩
          rcases List.mem_cons.1 hy with hy | hy
          · cases hy
            exact .inr (first _ rfl)
          · exact others key y hy

theorem select_error {chosen : Option (String × Value)} {entries : List (String × Value)}
    {e : Failure} (hn : ∀ name ∈ names entries, normalize name = name)
    (h : select path chosen (Value.keyed entries) = .error e) :
    ∃ complaint, e = .path ⟨path, complaint⟩ := by
  induction entries generalizing chosen with
  | nil =>
    cases chosen with
    | none =>
      cases h
      exact ⟨_, rfl⟩
    | some => cases h
  | cons entry entries ih =>
    obtain ⟨other, x⟩ := entry
    have rest := fun name hm => hn name (List.mem_cons_of_mem _ hm)
    simp only [Value.keyed, List.map_cons] at h ih
    rw [select] at h
    split at h
    · cases h
    split at h
    · exact ih rest h
    · rw [Value.asString_string (hn other List.mem_cons_self)] at h
      cases chosen with
      | some =>
        cases h
        exact ⟨_, rfl⟩
      | none => exact ih rest h

/-! ## Runs -/

/-- A value is converted by the rule that was planned for it, or by one that is planned for its own
type. -/
theorem Rule.applyDecided_ok [Host] {t : Ty} {rule : Rule Conversion} {v w : Value}
    (h : rule.applyDecided run t v path site = .ok w) :
    (rule ≠ .decideLater ∧ rule.apply run t v path site = .ok w) ∨
      rule = .decideLater ∧ ∃ later, Rule.between? .lenient v.ty t = some later ∧
        later.apply run t v .root site = .ok w := by
  unfold applyDecided at h
  split at h
  · refine .inr ⟨rfl, ?_⟩
    have h := mapError_eq_ok h
    unfold Value.convertDecided at h
    split at h
    · exact ⟨_, ‹_›, h⟩
    · cases h
  · exact .inl ⟨‹_›, h⟩

namespace Conversion

variable [Host] {t : Ty} {rule : Rule Conversion} {v : Value}

/-- The run of a part of a value of some height. -/
def runPart (height : Nat) : Runner := fun c part path site =>
  if part.height < height then c.run part path site else .error (.fault .deepConversion)

theorem run_eq (c : Conversion) (v : Value) (path : Path) (site : List Nat) :
    c.run v path site = c.runWith (runPart v.height) v path site := by
  rw [run]
  rfl

theorem runPart_of_lt {c : Conversion} {height : Nat} (h : v.height < height) :
    runPart height c v path site = c.run v path site :=
  if_pos h

theorem runPart_ok {c : Conversion} {w : Value} {height : Nat}
    (h : runPart height c v path site = .ok w) :
    v.height < height ∧ c.run v path site = .ok w := by
  unfold runPart at h
  split at h
  · exact ⟨‹_›, h⟩
  · cases h

theorem runWith_dynamic : (toward .dynamic rule).runWith run v path site = .ok v := rfl

theorem runWith_unknown (ht : t ≠ .dynamic) (hv : v.isKnown = false) :
    (toward t rule).runWith run v path site =
      (orFailure (v.unmark.convertUnknown t)).map fun w => w.withMarks v.marks := by
  simp only [runWith, if_neg ht, hv, Bool.not_false, if_true]

theorem runWith_null (ht : t ≠ .dynamic) (hv : v.isNull = true) :
    (toward t rule).runWith run v path site =
      .ok ((Value.null (v.ty.converted t)).withMarks v.marks) := by
  have known : v.isKnown = true := by
    obtain ⟨m, c⟩ := v
    cases c <;> first | rfl | cases hv
  simp only [runWith, if_neg ht, hv, known, Bool.not_true, Bool.false_eq_true, if_false, if_true]
  rfl

theorem runWith_decided (ht : t ≠ .dynamic) (hk : v.isKnown = true) (hn : v.isNull = false) :
    (toward t rule).runWith run v path site =
      (rule.applyDecided run t v.unmark path site).map fun w => w.withMarks v.marks := by
  simp only [runWith, if_neg ht, hk, hn, Bool.not_true, Bool.false_eq_true, if_false]

end Conversion

end ValueAlgebra
