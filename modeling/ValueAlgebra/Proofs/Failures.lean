import ValueAlgebra.Proofs.Tasks

/-!
# Failures of conversions

What can go wrong in a run: a part of a value is not of the form that a lenient conversion asks for,
a number has too many digits before or after its point, a list has no room for its elements, or the
types of elements or variants do not match. The last is ruled out for steady conversions. No other
failure occurs, and a run never ends because of the height of a value: results are not higher than
what they are made of.

`Trouble` tells one level of a run from the next: a run fails by itself, at the place of the value,
or in the run of a part, or when parts that are converted already are converted once more. What holds
of all failures is shown by induction on the height of the value.

Main statements:

* `Conversion.run_trouble`: the trouble that a run ends with.
* `Conversion.run_error`: a run fails in one of these ways.
-/

namespace ValueAlgebra

open Entries Text

variable {S : Scope} {mode : Mode} {steady : Prop}

/-- A type that is not what a variant asks for, but for optional attributes. -/
structure Ty.NearMiss (wanted got : Ty) : Prop where
  closed : wanted.hasDynamic = false
  ne : got ≠ wanted.withoutOptional
  withoutOptional_eq : got.withoutOptional = wanted.withoutOptional

/-- The ways in which a conversion fails. Types do not match only where conversions are not steady. -/
inductive Excused (S : Scope) (mode : Mode) (steady : Prop) : Failure → Prop where
  | complaint (hm : mode = .lenient) (error : PathError) : Excused S mode steady (.path error)
  | elements (h : ¬ steady) (path : Path) (kind : CollectionKind) :
      Excused S mode steady (.path ⟨path, .elementsDiffer kind⟩)
  | variant (h : ¬ steady) (name : String) {wanted got : Ty} (hm : wanted.NearMiss got) :
      Excused S mode steady (.fault (.variantMismatch name wanted got))
  | exponent (hm : mode = .lenient) {s : String} (hs : S.texts s)
      (h : Number.parse s = .error .exponentOverflow) :
      Excused S mode steady (.fault .exponentOverflow)
  | capacity {n : Nat} (hn : S.lengths n) (h : Refining.listCapacity < n) :
      Excused S mode steady (.fault .capacityOverflow)

/-- The excuse of a failure holds wherever the part is. -/
theorem Excused.under {S : Scope} {mode : Mode} {steady : Prop} {e : Failure}
    (h : Excused S mode steady e) (path : Path) : Excused S mode steady (e.under path) := by
  cases h with
  | complaint hm error => exact .complaint hm _
  | elements h p kind => exact .elements h (path ++ p) kind
  | variant h name hm => exact .variant h name hm
  | exponent hm hs h => exact .exponent hm hs h
  | capacity hn h => exact .capacity hn h

variable [Host]

/-- The steps that the runs of parts have in their paths. The elements of a set have unknown keys if
they become elements of a set, and numbers otherwise. The attributes of an object have their names
as keys if they become elements of a map. -/
inductive Content.Located (c : Content) : Step → Value → Prop where
  | element {elements : List (Value × Value)} {key x : Value}
      (he : Value.elements? c = some elements) (hx : (key, x) ∈ elements) : Located c (.index key) x
  | member {elements : List (Value × Value)} {key x : Value} {wanted : Ty}
      (he : Value.elements? c = some elements) (hx : (key, x) ∈ elements) :
      Located c (.index (.unknown wanted)) x
  | attr {attributes : List (String × Value)} {name : String} {x : Value}
      (hc : c = .object attributes) (hx : (name, x) ∈ attributes) : Located c (.attr name) x
  | variant {variants : List (String × Ty)} {name : String} {x : Value}
      (hc : c = .union variants name x) : Located c (.attr name) x

/-- What an element of a content became in a run. -/
def Content.Became (S : Scope) (mode : Mode) (steady : Prop) (c : Content) (y : Value) : Prop :=
  ∃ elements key x s t d path site, Value.elements? c = some elements ∧ (key, x) ∈ elements ∧
    Task S mode steady s t d x ∧ d.run x path site = .ok y

/-- How a run of a conversion of a value at a path fails. -/
inductive Trouble (S : Scope) (mode : Mode) (steady : Prop) (v : Value) : Path → Failure → Prop where
  /-- The value itself is the reason. -/
  | own {path : Path} {e : Failure} (h : Excused S mode steady e)
      (here : ∀ error, e = .path error → error.path = path) : Trouble S mode steady v path e
  /-- The run of a part fails. -/
  | part {path : Path} {e : Failure} {step : Step} {x : Value} {s t : Ty} {c : Conversion}
      {site : List Nat} (hx : v.content.Located step x) (lower : x.height < v.height)
      (task : Task S mode steady s t c x) (h : c.run x (path.push step) site = .error e) :
      Trouble S mode steady v path e
  /-- What a part became fails to be converted once more. -/
  | second {path : Path} {e : Failure} {y : Value} {t : Ty} {c : Conversion} {site : List Nat}
      (made : v.content.Became S mode steady y) (lower : y.height < v.height)
      (task : Task S mode steady y.ty t c y) (loose : steady → ∀ t, S.types t → t.VariantsRequired)
      (h : c.run y path site = .error e) : Trouble S mode steady v path e
  /-- A conversion that is planned for the value fails, without knowing the way to it. -/
  | later {path : Path} {e : Failure} (h : Trouble S mode steady v .root e) :
      Trouble S mode steady v path (e.under path)

/-- Marks have no say in a failure. -/
theorem Trouble.of_unmark {v : Value} {path : Path} {e : Failure}
    (h : Trouble S mode steady v.unmark path e) : Trouble S mode steady v path e := by
  induction h with
  | own h here => exact .own h here
  | part hx lower task h => exact .part hx (by rwa [Value.height_unmark] at lower) task h
  | second made lower task loose h =>
    exact .second made (by rwa [Value.height_unmark] at lower) task loose h
  | later _ ih => exact .later ih

/-- A complaint about the value itself. -/
theorem Trouble.complaint {v : Value} {path : Path} (hm : mode = .lenient) (complaint : Complaint) :
    Trouble S mode steady v path (.path ⟨path, complaint⟩) :=
  .own (.complaint hm _) fun _ h => by cases h; rfl

/-- The conversion of a part fails where the part is. -/
theorem Trouble.of_task {v x : Value} {path : Path} {e : Failure} {step : Step} {s t : Ty}
    {c : Conversion} {site : List Nat} (hx : v.content.Located step x)
    (lower : x.height < v.height) (task : Task S mode steady s t c x)
    (h : Conversion.runPart v.height c x (path.push step) site = .error e) :
    Trouble S mode steady v path e :=
  .part hx lower task ((Conversion.runPart_of_lt lower).symm.trans h)

namespace Conversion

variable {n : Nat} {path : Path} {site : List Nat} {e : Failure}

theorem runPart_sound (hS : S.Closed) (hm : mode = .lenient → ∀ c, ¬ S.types (.capsule c)) :
    (runPart n).Sound S mode := fun hc hs ht hv hf h =>
  run_lands hS hm hc hs ht hv hf (runPart_ok h).2

/-! ## Collections -/

/-- Elements of one type need no second pass. In a second pass, elements are converted to what their
types have in common. -/
theorem homogenize_trouble (hS : S.Closed) {v : Value} {kind : CollectionKind} {vs : List Value}
    (hne : vs ≠ [])
    (parts : ∀ y ∈ vs, v.content.Became S mode steady y ∧ y.Within S ∧ y.height < v.height)
    (hu : steady → (∃ t, ∀ v ∈ vs, v.ty = t) ∨
      (mode = .lenient ∧ ∀ t, S.types t → t.VariantsRequired))
    (h : homogenize (runPart v.height) kind mode path site vs = .error e) :
    Trouble S mode steady v path e := by
  have differ : Value.commonType? vs = none →
      Trouble S mode steady v path (.path ⟨path, .elementsDiffer kind⟩) := by
    intro none
    cases mode with
    | lenient => exact .complaint rfl _
    | safe =>
      refine .own (.elements (fun hs => ?_) path kind) fun _ h => by cases h; rfl
      obtain ⟨t, ht⟩ := (hu hs).resolve_right fun h => by cases h.1
      rw [Value.commonType?_of_all hne ht] at none
      cases none
  unfold homogenize at h
  split at h
  · cases h
  rename_i hc
  have hc : Value.commonType? vs = none := by simpa using hc
  split at h
  · cases h
    exact differ hc
  rename_i u hp
  rcases bind_eq_error h with h | ⟨ws, -, h⟩
  · obtain ⟨y, c, site, hm, hr⟩ := Runner.runSecond_error h
    obtain ⟨hm, hl, target⟩ := secondPass hS (fun y hy => (parts y hy).2.1) hp hm
    obtain ⟨became, within, height⟩ := parts y hm
    rw [runPart_of_lt height] at hr
    have loose (hs : steady) : mode = .lenient ∧ ∀ t, S.types t → t.VariantsRequired := by
      refine (hu hs).resolve_left ?_
      rintro ⟨t, ht⟩
      rw [Value.commonType?_of_all hne ht] at hc
      cases hc
    exact .second became height
      ⟨within.fitted hS, hl, target, fun hs => .loose (loose hs).1 (loose hs).2⟩
      (fun hs => (loose hs).2) hr
  · split at h
    · cases h
    · cases h
      exact differ hc

theorem run_toDynamic {s : Ty} {c : Conversion} {v w : Value}
    (hc : plan? mode s .dynamic = some c) (h : c.run v path site = .ok w) : w = v := by
  rw [plan?_dynamic] at hc
  cases hc
  rw [run_eq, runWith_dynamic] at h
  cases h
  rfl

/-- The elements of a collection have one type when they are converted steadily. -/
theorem uniform (hS : S.Closed) {source wanted s t : Ty} {kind : CollectionKind} {c : Conversion}
    {m : Nat} {ws : List Value} (hc : plan? mode s wanted = some c)
    (hst : Steady S mode source (kind.type wanted)) (lands : LandAll S wanted m ws)
    (hr : ∀ w ∈ ws, ∃ v path site, v.ty = t ∧ runPart n c v path site = .ok w) :
    (∃ t, ∀ w ∈ ws, w.ty = t) ∨ (mode = .lenient ∧ ∀ t, S.types t → t.VariantsRequired) := by
  rcases hst.element (by cases kind <;> rfl) with ⟨closed, exact_⟩ | ⟨-, rfl, -⟩ | loose
  · exact .inl ⟨_, fun w hw => (lands w hw).ty_eq hS exact_ closed⟩
  · refine .inl ⟨t, fun w hw => ?_⟩
    obtain ⟨v, path, site, hty, hr⟩ := hr w hw
    rw [run_toDynamic hc (runPart_ok hr).2, hty]
  · exact .inr loose

theorem convertItems_trouble (hS : S.Closed) (hm : mode = .lenient → ∀ c, ¬ S.types (.capsule c))
    (hd : S.deep) {kind : CollectionKind} (hk : kind ≠ .map) {source wanted s t : Ty}
    {c : Conversion} {v : Value} {elements : List (Value × Value)} {m : Nat}
    (hc : plan? mode s wanted = some c) (he : v.elements = .ok elements)
    (hl : Value.elements? v.content = some elements) (hty : v.ty.elementType = .ok t)
    (task : ∀ x ∈ elements, Task S mode steady s wanted c x.2)
    (hv : ∀ x ∈ elements, x.2.ty = t ∧ x.2.height ≤ m) (hn : m < v.height)
    (hst : steady → Steady S mode source (kind.type wanted))
    (h : convertItems (runPart v.height) kind mode c wanted v path site = .error e) :
    Trouble S mode steady v path e := by
  unfold convertItems at h
  rw [he] at h
  rcases bind_eq_error h with h | ⟨_, eq, h⟩
  · cases h
  cases eq
  rcases bind_eq_error h with h | ⟨values, hr, h⟩
  · obtain ⟨p, hp, site, h⟩ := Runner.runAll_error h
    obtain ⟨⟨key, x⟩, hx, rfl⟩ := List.mem_map.1 hp
    have lower := Nat.lt_of_le_of_lt (hv _ hx).2 hn
    rw [runPart_of_lt lower] at h
    have located : v.content.Located
        (.index (if kind = .set then .unknown wanted else key)) x := by
      split
      · exact .member hl hx
      · exact .element hl hx
    exact .part located lower (task _ hx) h
  split at h
  · rw [hty] at h
    rcases bind_eq_error h with h | ⟨_, -, h⟩ <;> cases h
  · rename_i nonempty
    have hne : values ≠ [] := fun eq => nonempty (eq ▸ rfl)
    have paired := Runner.runAll_ok hr
    rw [List.forall₂_map_left_iff] at paired
    have lands : LandAll S wanted m values := fun y hy => by
      obtain ⟨x, hx, site, hxy⟩ := exists_left_of_forall₂ paired hy
      have task := task x hx
      exact (runPart_sound hS hm task.leads task.source task.target task.within task.fills
        hxy).mono (hv x hx).2
    rcases bind_eq_error h with h | ⟨second, hh, h⟩
    · refine homogenize_trouble hS hne (fun y hy => ⟨?_, (lands y hy).within,
        Nat.lt_of_le_of_lt ((lands y hy).height hd) hn⟩)
        (fun hs => uniform (n := v.height) (t := t) hS hc (hst hs) lands fun y hy => ?_) h
      · obtain ⟨x, hx, site, hxy⟩ := exists_left_of_forall₂ paired hy
        exact ⟨elements, x.1, x.2, s, wanted, c, _, site, hl, hx, task x hx, (runPart_ok hxy).2⟩
      · obtain ⟨x, hx, site, hxy⟩ := exists_left_of_forall₂ paired hy
        exact ⟨x.2, _, site, (hv x hx).1, hxy⟩
    · obtain ⟨-, hl, t, hcommon⟩ := homogenize_lands hS (runPart_sound hS hm) hne lands hh
      have hne := ne_nil_of_length_eq hl hne
      cases kind with
      | list =>
        rw [Value.list_of_common hne hcommon] at h
        cases h
      | set =>
        rw [Value.set_of_common hne hcommon] at h
        cases h
      | map => cases hk rfl

theorem convertEntries_trouble (hS : S.Closed)
    (hm : mode = .lenient → ∀ c, ¬ S.types (.capsule c)) (hd : S.deep) {source wanted s t : Ty}
    {c : Conversion} {v : Value} {entries : List (String × Value)} {m : Nat}
    (hc : plan? mode s wanted = some c) (hp : Names.Proper (names entries))
    (he : v.elements = .ok (Value.keyed entries))
    (hl : Value.elements? v.content = some (Value.keyed entries)) (hty : v.ty.elementType = .ok t)
    (task : ∀ x ∈ values entries, Task S mode steady s wanted c x)
    (hv : ∀ x ∈ values entries, x.ty = t ∧ x.height ≤ m) (hn : m < v.height)
    (hst : steady → Steady S mode source (CollectionKind.map.type wanted))
    (h : convertEntries (runPart v.height) mode c wanted v path site = .error e) :
    Trouble S mode steady v path e := by
  have keyed {name : String} {x : Value} (hx : (name, x) ∈ entries) :
      (Value.string name, x) ∈ Value.keyed entries := List.mem_map.2 ⟨_, hx, rfl⟩
  unfold convertEntries at h
  rw [Value.namedElements_of_content hp.2 he] at h
  rcases bind_eq_error h with h | ⟨_, eq, h⟩
  · cases h
  cases eq
  rcases bind_eq_error h with h | ⟨vs, hr, h⟩
  · obtain ⟨p, hp, site, h⟩ := Runner.runAll_error h
    rw [List.map_map] at hp
    obtain ⟨⟨name, x⟩, hx, rfl⟩ := List.mem_map.1 hp
    have lower := Nat.lt_of_le_of_lt (hv x (mem_values hx)).2 hn
    change runPart v.height c x _ site = .error e at h
    rw [runPart_of_lt lower] at h
    exact .part (.element hl (keyed hx)) lower (task x (mem_values hx)) h
  split at h
  · rw [hty] at h
    rcases bind_eq_error h with h | ⟨_, -, h⟩ <;> cases h
  · rename_i nonempty
    have hne : vs ≠ [] := fun eq => nonempty (eq ▸ rfl)
    have paired := Runner.runAll_ok hr
    rw [List.map_map, List.forall₂_map_left_iff] at paired
    have lands : LandAll S wanted m vs := fun y hy => by
      obtain ⟨⟨name, x⟩, hx, site, hxy⟩ := exists_left_of_forall₂ paired hy
      have task := task x (mem_values hx)
      exact (runPart_sound hS hm task.leads task.source task.target task.within task.fills
        hxy).mono (hv x (mem_values hx)).2
    rcases bind_eq_error h with h | ⟨second, hh, h⟩
    · refine homogenize_trouble hS hne (fun y hy => ⟨?_, (lands y hy).within,
        Nat.lt_of_le_of_lt ((lands y hy).height hd) hn⟩)
        (fun hs => uniform (n := v.height) (t := t) hS hc (hst hs) lands fun y hy => ?_) h
      · obtain ⟨⟨name, x⟩, hx, site, hxy⟩ := exists_left_of_forall₂ paired hy
        exact ⟨_, _, x, s, wanted, c, _, site, hl, keyed hx, task x (mem_values hx),
          (runPart_ok hxy).2⟩
      · obtain ⟨⟨name, x⟩, hx, site, hxy⟩ := exists_left_of_forall₂ paired hy
        exact ⟨x, _, site, (hv x (mem_values hx)).1, hxy⟩
    · obtain ⟨-, hl, t, hcommon⟩ := homogenize_lands hS (runPart_sound hS hm) hne lands hh
      have hne := ne_nil_of_length_eq hl hne
      rw [← paired.length_eq, ← length_names] at hl
      have hnames : (entries.map fun x => (x.1, Value.string x.1, x.2)).map (·.1) =
          names entries := by simp [names]
      have proper : Names.Proper (names ((names entries).zip second)) := by
        rwa [names_zip hl.symm]
      have hvalues := values_zip hl.symm
      rw [hnames, Value.map_of_common proper (by rwa [hvalues]) (by rw [hvalues, hcommon])] at h
      cases h

end Conversion

/-! ## Planned rules -/

namespace Rule

variable {s t : Ty} {v : Value} {path : Path} {site : List Nat} {e : Failure}

open Conversion

theorem object_trouble (hS : S.Closed) {sources targets absent : List (String × Ty)}
    {os optional : List String} {plans : List (String × Conversion)}
    (h : ObjectPlan mode sources optional targets plans absent)
    (hv : Applicable S (.object sources os) (.object targets optional) v)
    (hst : steady → Steady S mode (.object sources os) (.object targets optional))
    (hw : Rule.apply (runPart v.height) (.object plans absent) t v path site = .error e) :
    Trouble S mode steady v path e := by
  obtain ⟨attributes, rfl, -, proper, parts⟩ := hv.object hS
  rw [Rule.apply] at hw
  rcases bind_eq_error hw with hw | ⟨_, -, hw⟩
  · obtain ⟨name, x, c, site, hx, hl, hr⟩ :=
      convertNamed_error (Value.namedElements_of_content proper.2 rfl) hw
    obtain ⟨s, t, -, task⟩ := object_task h hv hst parts hx hl
    exact .of_task (.attr rfl hx) (Value.height_lt_object (mem_values hx)) task hr
  · cases hw

theorem tuple_trouble {sources targets : List Ty} {plans : List Conversion}
    (h : List.Forall₂ (fun p c => plan? mode p.1 p.2 = some c) (sources.zip targets) plans)
    (hv : Applicable S (.tuple sources) (.tuple targets) v)
    (hst : steady → Steady S mode (.tuple sources) (.tuple targets))
    (hw : Rule.apply (runPart v.height) (.tuple plans) t v path site = .error e) :
    Trouble S mode steady v path e := by
  obtain ⟨items, rfl, -, parts⟩ := hv.tuple
  rw [Rule.apply] at hw
  rcases bind_eq_error hw with hw | ⟨_, -, hw⟩
  · obtain ⟨key, x, c, site, hk, hx, hr⟩ := convertTuple_error rfl hw
    rw [Value.map_snd_numbered] at hx
    obtain ⟨s, t, -, task⟩ := tuple_task h hv hst parts hx
    exact .of_task (.element rfl hk) (Value.height_lt_tuple (List.of_mem_zip hx).1) task hr
  · cases hw

theorem items_trouble (hS : S.Closed) (hm : mode = .lenient → ∀ c, ¬ S.types (.capsule c))
    (hd : S.deep) {source wanted : Ty} {kind : CollectionKind} {c : Conversion} (hk : kind ≠ .map)
    (hs : source = .list s ∨ source = .set s) (h : plan? mode s wanted = some c)
    (hv : Applicable S source (kind.type wanted) v)
    (hst : steady → Steady S mode source (kind.type wanted))
    (hw : Rule.apply (runPart v.height) (.collection kind mode c wanted) t v path site = .error e) :
    Trouble S mode steady v path e := by
  have task {x : Value} := element_task (x := x) (hs.imp_right .inl) h hv hst
  have numbered {items : List Value} {x : Value × Value} (hx : x ∈ Value.numbered 0 items) :
      x.2 ∈ items := by
    rw [← Value.map_snd_numbered 0 items]
    exact List.mem_map_of_mem hx
  rw [Rule.apply] at hw
  rcases hs with rfl | rfl
  · obtain ⟨a, items, rfl, -, parts⟩ := hv.list
    rcases bind_eq_error hw with hw | ⟨_, -, hw⟩
    · cases hw
    rw [if_neg hk] at hw
    exact convertItems_trouble hS hm hd hk h rfl rfl rfl
      (fun x hx => task (parts _ (numbered hx)).2)
      (fun x hx => ⟨(parts _ (numbered hx)).1, Value.height_le_heightAll (numbered hx)⟩)
      (by simp [Value.bare, Value.height]) hst hw
  · obtain ⟨a, items, rfl, -, parts⟩ := hv.set
    rcases bind_eq_error hw with hw | ⟨_, -, hw⟩
    · cases hw
    rw [if_neg hk] at hw
    exact convertItems_trouble hS hm hd hk h rfl rfl rfl
      (fun x hx => task (parts _ (numbered hx)).2)
      (fun x hx => ⟨(parts _ (numbered hx)).1, Value.height_le_heightAll (numbered hx)⟩)
      (by simp [Value.bare, Value.height]) hst hw

theorem mapItems_trouble (hS : S.Closed) (hm : mode = .lenient → ∀ c, ¬ S.types (.capsule c))
    (hd : S.deep) {wanted : Ty} {c : Conversion} (h : plan? mode s wanted = some c)
    (hv : Applicable S (.map s) (.map wanted) v)
    (hst : steady → Steady S mode (.map s) (.map wanted))
    (hw : Rule.apply (runPart v.height) (.collection .map mode c wanted) t v path site = .error e) :
    Trouble S mode steady v path e := by
  obtain ⟨a, entries, rfl, -, proper, parts⟩ := hv.map
  rw [Rule.apply] at hw
  rcases bind_eq_error hw with hw | ⟨_, -, hw⟩
  · cases hw
  rw [if_pos rfl] at hw
  exact convertEntries_trouble hS hm hd h proper rfl rfl rfl
    (fun x hx => @element_task _ _ _ _ _ _ _ _ .map _ (.inr (.inr rfl)) h hv hst x (parts x hx).2)
    (fun x hx => ⟨(parts x hx).1, Value.height_le_heightEntries hx⟩)
    (by simp [Value.bare, Value.height]) hst hw

theorem gather_trouble (hS : S.Closed) (hm : mode = .lenient → ∀ c, ¬ S.types (.capsule c))
    (hd : S.deep) {sources : List Ty} {wanted a : Ty} {kind : CollectionKind}
    {plans : List Conversion} (hk : kind ≠ .map) (ha : Rule.Gathers mode sources wanted a)
    (h : List.Forall₂ (fun s c => plan? mode s a = some c) sources plans)
    (hv : Applicable S (.tuple sources) (kind.type wanted) v)
    (hst : steady → Steady S mode (.tuple sources) (kind.type wanted))
    (hw : Rule.apply (runPart v.height) (.gather kind mode plans a) t v path site = .error e) :
    Trouble S mode steady v path e := by
  obtain ⟨items, rfl, hn, parts⟩ := hv.tuple
  have task {x : Value} {c : Conversion} := gather_task (x := x) (c := c) hS ha h hv hst hn parts
  rw [Rule.apply] at hw
  rcases bind_eq_error hw with hw | ⟨results, hc, hw⟩
  · obtain ⟨key, x, c, site, hk, hx, hr⟩ := convertTuple_error rfl hw
    rw [Value.map_snd_numbered] at hx
    obtain ⟨s, -, task⟩ := task hx
    exact .of_task (.element rfl hk) (Value.height_lt_tuple (List.of_mem_zip hx).1) task hr
  split at hw
  · cases hw
  · rename_i nonempty
    have hne : results ≠ [] := fun eq => nonempty (eq ▸ rfl)
    have runs := convertTuple_ok rfl hc
    rw [Value.map_snd_numbered] at runs
    have lands : LandAll S a (Value.heightAll items) results := by
      intro y hy
      obtain ⟨⟨x, c⟩, hx, path, site, hr⟩ := exists_left_of_forall₂ runs hy
      obtain ⟨s, -, task⟩ := task hx
      exact (runPart_sound hS hm task.leads task.source task.target task.within task.fills hr).mono
        (Value.height_le_heightAll (List.of_mem_zip hx).1)
    rcases bind_eq_error hw with hw | ⟨second, hh, hw⟩
    · refine homogenize_trouble hS hne (fun y hy => ⟨?_, (lands y hy).within, ?_⟩)
        (fun hst' => ?_) hw
      · obtain ⟨⟨x, c⟩, hx, path, site, hr⟩ := exists_left_of_forall₂ runs hy
        obtain ⟨s, -, task⟩ := task hx
        obtain ⟨⟨key, x'⟩, hk, rfl⟩ := List.mem_map.1
          ((Value.map_snd_numbered 0 items).symm ▸ (List.of_mem_zip hx).1)
        exact ⟨_, key, _, s, a, c, path, site, rfl, hk, task, (runPart_ok hr).2⟩
      · simp only [Value.bare, Value.height]
        exact Nat.lt_succ_of_le ((lands y hy).height hd)
      · obtain ⟨y, hy⟩ := List.exists_mem_of_ne_nil _ hne
        obtain ⟨⟨x, c⟩, hx, -⟩ := exists_left_of_forall₂ runs hy
        obtain ⟨s, hs, -⟩ := task hx
        rcases ((hst hst').gathers ha (List.ne_nil_of_mem hs) fun hd =>
          Ty.anyHasDynamic_eq_false.1 (by rwa [Ty.hasDynamic] at hd)).2 with
          ⟨closed, exact_⟩ | plain
        · exact .inl ⟨_, fun w hw => (lands w hw).ty_eq hS exact_ closed⟩
        · exact .inr plain
    · obtain ⟨-, hl, t, hcommon⟩ := homogenize_lands hS (runPart_sound hS hm) hne lands hh
      have hne := ne_nil_of_length_eq hl hne
      cases kind with
      | list =>
        rw [Value.list_of_common hne hcommon] at hw
        cases hw
      | set =>
        rw [Value.set_of_common hne hcommon] at hw
        cases hw
      | map => cases hk rfl

theorem entries_trouble (hS : S.Closed) (hm : mode = .lenient → ∀ c, ¬ S.types (.capsule c))
    (hd : S.deep) {sources : List (String × Ty)} {os : List String} {wanted a : Ty}
    {plans : List (String × Conversion)} (ha : Rule.Gathers mode (values sources) wanted a)
    (h : Paired (fun _ s c => plan? mode s a = some c) sources plans) (hs : sources ≠ [])
    (hv : Applicable S (.object sources os) (.map wanted) v)
    (hst : steady → Steady S mode (.object sources os) (.map wanted))
    (hw : Rule.apply (runPart v.height) (.entries mode plans) t v path site = .error e) :
    Trouble S mode steady v path e := by
  obtain ⟨attributes, rfl, hn, proper, parts⟩ := hv.object hS
  have named := @Value.namedElements_of_content (.bare (.object attributes)) attributes proper.2 rfl
  have keyed {name : String} {x : Value} (hx : (name, x) ∈ attributes) :
      (Value.string name, x) ∈ Value.keyed attributes := List.mem_map.2 ⟨_, hx, rfl⟩
  rw [Rule.apply] at hw
  rcases bind_eq_error hw with hw | ⟨converted, hc, hw⟩
  · obtain ⟨name, x, c, site, hx, hl, hr⟩ := convertNamed_error named hw
    obtain ⟨s, task⟩ := entries_task hS ha h hv hst parts hx hl
    exact .of_task (.element rfl (keyed hx)) (Value.height_lt_object (mem_values hx)) task hr
  have paired := convertNamed_ok named hc
  rw [covered_eq_self h hn] at paired
  have lands : LandAll S a (Value.heightEntries attributes) (values converted) := by
    intro y hy
    obtain ⟨name, hy⟩ := exists_of_mem_values hy
    obtain ⟨x, hx, c, path, site, hl, hr⟩ := paired.mem_right hy
    obtain ⟨s, task⟩ := entries_task hS ha h hv hst parts hx hl
    exact (runPart_sound hS hm task.leads task.source task.target task.within task.fills hr).mono
      (Value.height_le_heightEntries (mem_values hx))
  have hne : values converted ≠ [] := by
    intro eq
    have hnames := paired.names_eq
    rw [hn, List.map_eq_nil_iff.1 eq] at hnames
    exact hs (List.map_eq_nil_iff.1 hnames)
  rcases bind_eq_error hw with hw | ⟨second, hh, hw⟩
  · refine homogenize_trouble hS hne (fun y hy => ⟨?_, (lands y hy).within, ?_⟩)
      (fun hst' => ?_) hw
    · obtain ⟨name, hy⟩ := exists_of_mem_values hy
      obtain ⟨x, hx, c, path, site, hl, hr⟩ := paired.mem_right hy
      obtain ⟨s, task⟩ := entries_task hS ha h hv hst parts hx hl
      exact ⟨_, _, x, s, a, c, path, site, rfl, keyed hx, task, (runPart_ok hr).2⟩
    · simp only [Value.bare, Value.height]
      exact Nat.lt_succ_of_le ((lands y hy).height hd)
    · rcases (@Steady.gathers _ _ _ _ _ _ _ .map (hst hst') ha
        (fun eq => hs (List.map_eq_nil_iff.1 eq)) fun hd =>
          Ty.anyHasDynamicEntry_eq_false.1 (by rwa [Ty.hasDynamic] at hd)).2 with
        ⟨closed, exact_⟩ | plain
      · exact .inl ⟨_, fun w hw => (lands w hw).ty_eq hS exact_ closed⟩
      · exact .inr plain
  · obtain ⟨-, hl, t, hcommon⟩ := homogenize_lands hS (runPart_sound hS hm) hne lands hh
    have hne := ne_nil_of_length_eq hl hne
    have hl : (names converted).length = second.length := by
      rw [hl, names, values, List.length_map, List.length_map]
    have hvalues := values_zip hl
    have proper : Names.Proper (names ((names converted).zip second)) := by
      rwa [names_zip hl, ← paired.names_eq]
    rw [Value.map_of_common proper (by rwa [hvalues]) (by rw [hvalues, hcommon])] at hw
    cases hw

theorem pick_trouble {targets : List (String × Ty)} {optional : List String}
    {plans : List (String × Conversion)}
    (h : Paired (fun _ t c => plan? .lenient s t = some c) targets plans)
    (hv : Applicable S (.map s) (.object targets optional) v)
    (hst : steady → Steady S .lenient (.map s) (.object targets optional))
    (hw : Rule.apply (runPart v.height) (.pick plans targets optional) t v path site = .error e) :
    Trouble S .lenient steady v path e := by
  obtain ⟨a, entries, rfl, -, proper, parts⟩ := hv.map
  rw [Rule.apply] at hw
  rcases bind_eq_error hw with hw | ⟨converted, -, hw⟩
  · obtain ⟨name, x, c, site, hx, hl, hr⟩ :=
      convertNamed_error (Value.namedElements_of_content proper.2 rfl) hw
    obtain ⟨t, -, task⟩ := pick_task h hv hst (parts x (mem_values hx)).2 hl
    exact .of_task (.element rfl (List.mem_map.2 ⟨_, hx, rfl⟩))
      (Value.height_lt_map (mem_values hx)) task hr
  · rcases bind_eq_error hw with hw | ⟨_, -, hw⟩
    · obtain ⟨complaint, rfl⟩ := missingAttributes_error hw
      exact .complaint rfl complaint
    · cases hw

theorem variant_trouble (hS : S.Closed) (hm : mode = .lenient → ∀ c, ¬ S.types (.capsule c))
    {targets : List (String × Ty)} {plans : List (String × Conversion)} {name : String}
    {part : Value} {complaint : Complaint} (hn : normalize name = name)
    (located : v.content.Located (.attr name) part) (lower : part.height < v.height)
    (hnone : plans.lookup name = none → mode = .lenient)
    (hsome : ∀ c, plans.lookup name = some c → ∃ s t, targets.lookup name = some t ∧
      (steady → S.Exact t) ∧ Task S mode steady s t c part)
    (hw : convertVariant (runPart v.height) plans (.union targets) name part complaint path site =
      .error e) : Trouble S mode steady v path e := by
  unfold convertVariant at hw
  split at hw
  · rename_i none
    cases hw
    exact .complaint (hnone none) _
  · rename_i c hc
    obtain ⟨s, t, ht, exact_, task⟩ := hsome c hc
    rcases bind_eq_error hw with hw | ⟨inner, hr, hw⟩
    · exact .of_task located lower task hw
    · have lands := runPart_sound hS hm task.leads task.source task.target task.within task.fills hr
      obtain ⟨fault, hu, rfl⟩ := orFailure_eq_error hw
      obtain ⟨misfit, rfl⟩ := Value.union_eq_error hn ht hu
      have closed : t.hasDynamic = false := by
        by_contra open_
        exact misfit (by rw [Value.Fits, if_pos (by simpa using open_)]; exact lands.fills.conforms)
      refine .own (.variant (fun hs => misfit (lands.fits hS (exact_ hs))) _
        ⟨closed, fun eq => misfit ?_, lands.fills.withoutOptional_eq closed⟩)
        fun _ h => by cases h
      rw [Value.Fits, closed, eq]
      exact beq_self_eq_true _

theorem union_trouble (hS : S.Closed) (hm : mode = .lenient → ∀ c, ¬ S.types (.capsule c))
    (hd : S.deep) {sources targets : List (String × Ty)} {plans : List (String × Conversion)}
    (h : Paired (fun name s c => ∃ t, targets.lookup name = some t ∧ plan? mode s t = some c)
      sources plans)
    (hv : Applicable S (.union sources) (.union targets) v)
    (hst : steady → Steady S mode (.union sources) (.union targets))
    (hw : Rule.apply (runPart v.height) (.union plans) (.union targets) v path site = .error e) :
    Trouble S mode steady v path e := by
  obtain ⟨variants, name, inner, rfl, normal, ofSources, parts⟩ := hv.union hS hd
  rw [Rule.apply] at hw
  rcases bind_eq_error hw with hw | ⟨_, eq, hw⟩
  · cases hw
  cases eq
  refine variant_trouble hS hm normal (.variant rfl) Value.height_lt_union (fun none => ?_)
    (fun c hc => variant_task (.inl rfl) h hv hst parts hc) hw
  obtain ⟨s, hs⟩ := exists_lookup.2 ofSources
  obtain ⟨c, hc, -⟩ := h.lookup hs
  rw [hc] at none
  cases none

theorem select_trouble (hS : S.Closed) (hm : ∀ c, ¬ S.types (.capsule c))
    {sources targets : List (String × Ty)} {os : List String} {plans : List (String × Conversion)}
    (h : Paired (fun name s c => ∃ t, targets.lookup name = some t ∧
      plan? .lenient s t = some c) sources plans)
    (hv : Applicable S (.object sources os) (.union targets) v)
    (hst : steady → Steady S .lenient (.object sources os) (.union targets))
    (hw : Rule.apply (runPart v.height) (.select plans) (.union targets) v path site = .error e) :
    Trouble S .lenient steady v path e := by
  obtain ⟨attributes, rfl, hn, proper, parts⟩ := hv.object hS
  rw [Rule.apply, convertSelection] at hw
  rcases bind_eq_error hw with hw | ⟨_, eq, hw⟩
  · cases hw
  cases eq
  rcases bind_eq_error hw with hw | ⟨selection, hs, hw⟩
  · obtain ⟨complaint, rfl⟩ := ValueAlgebra.select_error proper.2 hw
    exact .complaint rfl complaint
  cases selection with
  | undecided =>
    have narrowed := Refining.narrowed_refine hS (t := .union targets) (by simp) 2
    obtain ⟨s, r, hs, narrowed, -⟩ := narrowed.notNull (Nat.le_refl _)
    obtain ⟨fault, hr, rfl⟩ := orFailure_eq_error hw
    rw [Value.refineNotNull, hs] at hr
    obtain ⟨rfl, hl, big⟩ := narrowed.result_error hr
    exact .own (.capacity hl big) fun _ h => by cases h
  | variant name part =>
    have hx : (name, part) ∈ attributes :=
      (select_ok proper.2 hs).resolve_left (by intro h; cases h)
    exact variant_trouble hS (fun _ => hm) (proper.2 name (mem_names hx)) (.attr rfl hx)
      (Value.height_lt_object (mem_values hx)) (fun _ => rfl)
      (fun c hc => variant_task (.inr ⟨os, rfl⟩) h hv hst (fun s hs => parts name part s hx hs) hc) hw

theorem primitive_trouble {rule : PrimitiveRule} (h : PrimitiveRule.between? mode s t = some rule)
    (hv : Applicable S s t v) (hw : rule.apply v path = .error e) :
    Trouble S mode steady v path e := by
  unfold PrimitiveRule.between? at h
  split at h
  · cases h
    obtain ⟨n, rfl⟩ := hv.decided.number hv.fills
    cases hw
  · cases h
    obtain ⟨b, rfl⟩ := hv.decided.bool hv.fills
    cases hw
  · split at h <;> cases h
    rename_i lenient
    obtain ⟨text, rfl⟩ := hv.decided.string hv.fills
    change numberOfText text path = .error e at hw
    rw [numberOfText, Value.parseNumber] at hw
    cases hv.within with
    | string ht =>
      cases hn : Number.parse text with
      | ok n =>
        rw [hn] at hw
        cases hw
      | error cause =>
        rw [hn] at hw
        cases cause <;> cases hw
        · exact .complaint lenient _
        · exact .complaint lenient _
        · exact .complaint lenient _
        · exact .own (.exponent lenient ht hn) fun _ h => by cases h
  · split at h <;> cases h
    rename_i lenient
    obtain ⟨text, rfl⟩ := hv.decided.string hv.fills
    change boolOfText text path = .error e at hw
    unfold boolOfText at hw
    repeat' split at hw
    all_goals cases hw
    all_goals exact .complaint lenient _
  · cases h

/-- The trouble that a planned rule ends with. -/
theorem Planned.apply_trouble (hS : S.Closed) (hm : mode = .lenient → ∀ c, ¬ S.types (.capsule c))
    (hd : S.deep) {rule : Rule Conversion} (h : Planned mode s t rule) (hl : rule ≠ .decideLater)
    (hv : Applicable S s t v) (hst : steady → Steady S mode s t)
    (hw : rule.apply (runPart v.height) t v path site = .error e) :
    Trouble S mode steady v path e := by
  cases h with
  | toDynamic | same | emptyMap => cases hw
  | later => cases hl rfl
  | object h => exact object_trouble hS h hv hst hw
  | tuple _ h => exact tuple_trouble h hv hst hw
  | items hk hs h => exact items_trouble hS hm hd hk hs h hv hst hw
  | mapItems h => exact mapItems_trouble hS hm hd h hv hst hw
  | gather hk ha h => exact gather_trouble hS hm hd hk ha h hv hst hw
  | entries hs ha h => exact entries_trouble hS hm hd ha h hs hv hst hw
  | pick lenient h =>
    subst lenient
    exact pick_trouble h hv hst hw
  | union h => exact union_trouble hS hm hd h hv hst hw
  | select lenient _ h =>
    subst lenient
    exact select_trouble hS (hm rfl) h hv hst hw
  | primitive h => exact primitive_trouble h hv hw
  | ofCapsules lenient hc => exact absurd hc (hv.noCapsule (hm lenient))

theorem Planned.applyDecided_trouble (hS : S.Closed)
    (hm : mode = .lenient → ∀ c, ¬ S.types (.capsule c)) (hd : S.deep) {rule : Rule Conversion}
    (h : Planned mode s t rule) (hv : Applicable S s t v) (hst : steady → Steady S mode s t)
    (hw : rule.applyDecided (runPart v.height) t v path site = .error e) :
    Trouble S mode steady v path e := by
  unfold applyDecided at hw
  split at hw
  · have lenient : mode = .lenient := by cases h <;> assumption
    subst lenient
    have later : s = .dynamic := by
      cases h with
      | later => rfl
      | ofCapsules _ hc => exact absurd hc (hv.noCapsule (hm rfl))
    subst later
    obtain ⟨d, later, rfl⟩ := mapError_eq_error hw
    refine .later ?_
    unfold Value.convertDecided at later
    split at later
    · rename_i rule hr
      have hv' : Applicable S v.ty t v := ⟨hv.decided, hv.within,
        .refl (hv.within.wellFormed_ty hS), hv.within.ty hS, hv.target⟩
      have planned := planned_of_between? hr
      exact planned.apply_trouble hS hm hd
        (planned.ne_decideLater hv.decided.ty_ne_dynamic (hv'.noCapsule (hm rfl))) hv'
        (fun hs => (hst hs).ofDynamic v.ty) later
    · cases later
      exact .complaint rfl _
  · rename_i hl
    exact h.apply_trouble hS hm hd hl hv hst hw

end Rule

namespace Conversion

/-- A run within a deep scope ends in trouble with the value, with a part of it, or with what a part
became. -/
theorem run_trouble (hS : S.Closed) (hm : mode = .lenient → ∀ c, ¬ S.types (.capsule c))
    (hd : S.deep) (limit : ∀ n, S.lengths n → n ≤ Refining.lengthLimit) {s t : Ty} {c : Conversion}
    {v : Value} {path : Path} {site : List Nat} {e : Failure} (task : Task S mode steady s t c v)
    (hw : c.run v path site = .error e) : Trouble S mode steady v path e := by
  rw [run_eq] at hw
  cases task.leads with
  | forget => cases hw
  | planned hp =>
    obtain ⟨rule, rfl, planned⟩ := planned_of_plan? hp
    by_cases hne : t = .dynamic
    · cases hne
      cases hw
    cases known : v.isKnown with
    | false =>
      rw [runWith_unknown hne known] at hw
      obtain ⟨fault, hu, rfl⟩ := orFailure_eq_error (map_eq_error hw)
      obtain ⟨r, hr⟩ := Value.unmark_of_unknown known
      rw [hr] at hu
      obtain ⟨rfl, n, hl, big⟩ := Value.convertUnknown_error hS limit (hr ▸ task.within.unmark) hu
      exact .own (.capacity hl big) fun _ h => by cases h
    | true =>
      cases null : v.isNull with
      | true =>
        rw [runWith_null hne null] at hw
        cases hw
      | false =>
        rw [runWith_decided hne known null] at hw
        have hv' : Applicable S s t v.unmark := ⟨Value.decided_unmark known null,
          task.within.unmark, by rw [Value.ty_unmark]; exact task.fills, task.source, task.target⟩
        rw [← Value.height_unmark v] at hw
        exact (planned.applyDecided_trouble hS hm hd hv' task.steady (map_eq_error hw)).of_unmark

/-- A run within a deep scope fails in one of the ways that are excused. -/
theorem run_error (hS : S.Closed) (hm : mode = .lenient → ∀ c, ¬ S.types (.capsule c)) (hd : S.deep)
    (limit : ∀ n, S.lengths n → n ≤ Refining.lengthLimit) {s t : Ty} {c : Conversion} {v : Value}
    {path : Path} {site : List Nat} {e : Failure} (task : Task S mode steady s t c v)
    (hw : c.run v path site = .error e) : Excused S mode steady e := by
  induction hn : v.height using Nat.strong_induction_on generalizing s t c v path site e with
  | _ n ih =>
    subst hn
    have trouble := run_trouble hS hm hd limit task hw
    clear hw
    induction trouble with
    | own h => exact h
    | part _ lower task h => exact ih _ lower task h rfl
    | second _ lower task _ h => exact ih _ lower task h rfl
    | later _ excused => exact excused.under _

end Conversion

end ValueAlgebra
