import ValueAlgebra.Proofs.Landing

/-!
# Results of conversions

A successful conversion lands on its target: the result is within the scope of the value and its
type fills the target. In a deep scope the result is not higher than the value, which is why parts
of results can be converted again.

The proof goes rule by rule, for any way to run the conversions of parts that lands on their
targets.

Main statements:

* `Rule.Planned.apply_lands`: a planned rule lands on its target if the runs of parts do.
* `Conversion.run_lands`: a run lands on its target.
-/

namespace ValueAlgebra

open Entries Text

variable [Host] {S : Scope} {mode : Mode} {run : Runner} {path : Path} {site : List Nat}

/-! ## Planned rules -/

/-- What is known of a value that a rule is applied to, on the way from one type to another. -/
structure Applicable (S : Scope) (s t : Ty) (v : Value) : Prop where
  decided : v.Decided
  within : v.Within S
  fills : v.ty.Fills s
  source : s.Everywhere S.types
  target : Ty.Aims S.types t

omit [Host] in
/-- Capsule types have no say in a scope without capsules. -/
theorem Applicable.noCapsule {s t : Ty} {v : Value} (hv : Applicable S s t v) (hm : ∀ c, ¬ S.types (.capsule c)) :
    ¬ (s.isCapsule = true ∨ t.isCapsule = true) := by
  have isCapsule {u : Ty} (hu : u.isCapsule = true) : ∃ c, u = .capsule c := by
    cases u with
    | capsule c => exact ⟨c, rfl⟩
    | _ => cases hu
  rintro (hc | hc)
  · obtain ⟨c, rfl⟩ := isCapsule hc
    exact hm c hv.source.here
  · obtain ⟨c, rfl⟩ := isCapsule hc
    exact hm c hv.target.here.1

namespace Rule

variable {s t : Ty} {v w : Value}

/-- An attribute of a new object: a part that was converted from its type, or null where there is
no part of the name. -/
def Attribute (run : Runner) (mode : Mode) (parts : List (String × Value))
    (types : String → Ty → Prop) (name : String) (t : Ty) (y : Value) : Prop :=
  (name ∉ names parts ∧ y = .null t.withoutOptional) ∨
    ∃ x s c path site, (name, x) ∈ parts ∧ types name s ∧
      Conversion.plan? mode s t = some c ∧ run c x path site = .ok y

/-- An object is converted into one with the attributes of the target. -/
theorem object_result {sources targets absent : List (String × Ty)} {optional : List String}
    {plans : List (String × Conversion)} {attributes : List (String × Value)}
    (h : Conversion.ObjectPlan mode sources optional targets plans absent)
    (hn : names attributes = names sources) (proper : Names.Proper (names attributes))
    (nodup : (names targets).Nodup)
    (hw : Rule.apply run (.object plans absent) t (.bare (.object attributes)) path site = .ok w) :
    ∃ entries, w = .object entries ∧ (∀ name, name ∈ names entries ↔ name ∈ names targets) ∧
      ∀ name y t, (name, y) ∈ entries → (name, t) ∈ targets →
        Attribute run mode attributes (fun name s => (name, s) ∈ sources) name t y := by
  rw [Rule.apply] at hw
  obtain ⟨converted, hc, hw⟩ := bind_eq_ok hw
  cases hw
  have paired := convertNamed_ok (Value.namedElements_of_content proper.2 rfl) hc
  refine ⟨_, rfl, fun name => ?_, fun name y t hy ht => ?_⟩
  · rw [names_append, List.mem_append, names_mapValues]
    constructor
    · rintro (hc | ha)
      · obtain ⟨y, hy⟩ := exists_of_mem_names hc
        obtain ⟨x, hx, c, -, -, hl, -⟩ := paired.mem_right hy
        obtain ⟨-, t, -, ht, -⟩ := h.converted name c (mem_of_lookup hl)
        exact mem_names ht
      · exact h.names_absent.subset ha
    · intro ht
      rcases h.cover name ht with hp | ha
      · obtain ⟨c, hc⟩ := exists_of_mem_names hp
        obtain ⟨s, -, hs, -, -⟩ := h.converted name c hc
        obtain ⟨x, hx⟩ := exists_of_mem_names (hn ▸ mem_names (mem_of_lookup hs))
        have hx : (name, x) ∈ covered plans attributes := by
          refine List.mem_filter.2 ⟨hx, ?_⟩
          exact List.lookup_isSome_iff.2 ⟨(name, c), hc, by simp⟩
        obtain ⟨y, hy, -⟩ := paired.mem_left hx
        exact .inl (mem_names hy)
      · exact .inr ha
  · rcases List.mem_append.1 hy with hy | hy
    · obtain ⟨x, hx, c, path, site, hl, hr⟩ := paired.mem_right hy
      obtain ⟨s, t', hs, ht', hp⟩ := h.converted name c (mem_of_lookup hl)
      cases eq_of_mem nodup ht ht'
      exact .inr ⟨x, s, c, path, site, (List.mem_filter.1 hx).1, mem_of_lookup hs, hp, hr⟩
    · obtain ⟨a, ha, rfl⟩ := mem_mapValues.1 hy
      obtain ⟨none, -, t', ht', rfl⟩ := h.missing name a ha
      exact .inl ⟨hn ▸ lookup_eq_none.1 none, by rw [eq_of_mem nodup ht' ht]⟩

/-- A map is converted into an object with the attributes of the target. -/
theorem pick_result {targets : List (String × Ty)} {optional : List String}
    {plans : List (String × Conversion)} {e : Ty} {entries : List (String × Value)}
    (h : Paired (fun _ t c => Conversion.plan? .lenient s t = some c) targets plans)
    (proper : Names.Proper (names entries)) (nodup : (names targets).Nodup)
    (hw : Rule.apply run (.pick plans targets optional) t (.bare (.map e entries)) path site =
      .ok w) :
    ∃ attributes, w = .object attributes ∧
      (∀ name, name ∈ names attributes ↔ name ∈ names targets) ∧
      ∀ name y t, (name, y) ∈ attributes → (name, t) ∈ targets →
        Attribute run .lenient entries (fun _ s' => s' = s) name t y := by
  rw [Rule.apply] at hw
  obtain ⟨converted, hc, hw⟩ := bind_eq_ok hw
  obtain ⟨missing, hm, hw⟩ := bind_eq_ok hw
  cases hw
  have paired := convertNamed_ok (Value.namedElements_of_content proper.2 rfl) hc
  rw [missingAttributes_ok hm]
  refine ⟨_, rfl, fun name => ?_, fun name y t hy ht => ?_⟩
  · rw [names_append, List.mem_append]
    constructor
    · rintro (hc | ha)
      · obtain ⟨y, hy⟩ := exists_of_mem_names hc
        obtain ⟨x, hx, c, -, -, hl, -⟩ := paired.mem_right hy
        rw [h.names_eq]
        exact mem_names (mem_of_lookup hl)
      · obtain ⟨y, hy⟩ := exists_of_mem_names ha
        obtain ⟨t, ht, eq⟩ := List.mem_map.1 hy
        cases eq
        exact mem_names (List.mem_filter.1 ht).1
    · intro hn
      by_cases found : name ∈ names converted
      · exact .inl found
      · obtain ⟨t, ht⟩ := exists_of_mem_names hn
        refine .inr (mem_names (a := .null t.withoutOptional) (List.mem_map.2 ⟨(name, t), ?_, rfl⟩))
        refine List.mem_filter.2 ⟨ht, ?_⟩
        rw [Bool.not_eq_true']
        exact Bool.eq_false_iff.2 (mt contains_iff.1 found)
  · rcases List.mem_append.1 hy with hy | hy
    · obtain ⟨x, hx, c, path, site, hl, hr⟩ := paired.mem_right hy
      obtain ⟨t', ht', hp⟩ := h.mem_right (mem_of_lookup hl)
      cases eq_of_mem nodup ht ht'
      exact .inr ⟨x, s, c, path, site, (List.mem_filter.1 hx).1, rfl, hp, hr⟩
    · obtain ⟨t', ht', eq⟩ := List.mem_map.1 hy
      cases eq
      obtain ⟨ht', absent⟩ := List.mem_filter.1 ht'
      refine .inl ⟨fun hx => ?_, by rw [eq_of_mem nodup ht' ht]⟩
      -- a part of that name would have been converted
      obtain ⟨x, hx⟩ := exists_of_mem_names hx
      obtain ⟨c, hc, -⟩ := h.lookup (lookup_of_mem nodup ht')
      obtain ⟨y, hy, -⟩ := @Paired.mem_left _ _ _ _ _ t'.1 x paired
        (List.mem_filter.2 ⟨hx, by simp [hc]⟩)
      rw [Bool.not_eq_true'] at absent
      exact Bool.eq_false_iff.1 absent (contains_iff.2 (mem_names hy))

/-- An object lands on its target if its attributes do. -/
theorem attributes_land (hS : S.Closed) (hrun : run.Sound S mode) {targets : List (String × Ty)}
    {optional : List String} {parts entries : List (String × Value)} {types : String → Ty → Prop}
    (ht : Ty.Aims S.types (.object targets optional))
    (hp : ∀ name x s, (name, x) ∈ parts → types name s →
      x.Within S ∧ x.ty.Fills s ∧ s.Everywhere S.types)
    (hn : ∀ name, name ∈ names entries ↔ name ∈ names targets)
    (hv : ∀ name y t, (name, y) ∈ entries → (name, t) ∈ targets →
      Attribute run mode parts types name t y) :
    Lands S (.object targets optional) (Value.heightEntries parts + 1) (.object entries) := by
  have target := (ht.mono hS.headed).wellFormed
  have pos := Value.heightEntries_pos parts
  refine ValueAlgebra.object_lands hS ht hn pos fun name y t hy hm => ?_
  rcases hv name y t hy hm with ⟨-, rfl⟩ | ⟨x, s, c, path, site, hx, hs, hc, hr⟩
  · exact lands_null (ht.ofAttribute hm) (target.ofAttribute hm) pos
  · obtain ⟨within, fills, source⟩ := hp name x s hx hs
    exact (hrun (.planned hc) source (ht.ofAttribute hm) within fills hr).mono
      (Value.height_le_heightEntries (mem_values hx))

theorem object_lands (hS : S.Closed) (hrun : run.Sound S mode)
    {sources targets absent : List (String × Ty)} {os optional : List String}
    {plans : List (String × Conversion)}
    (h : Conversion.ObjectPlan mode sources optional targets plans absent)
    (hv : Applicable S (.object sources os) (.object targets optional) v)
    (hw : Rule.apply run (.object plans absent) (.object targets optional) v path site = .ok w) :
    Lands S (.object targets optional) v.height w := by
  obtain ⟨attributes, rfl, hn, fills⟩ := hv.decided.object hv.fills
  have source := hv.source.mono hS.headed
  have target := (hv.target.mono hS.headed).wellFormed
  cases hv.within with
  | object _ within =>
    obtain ⟨entries, rfl, hne, result⟩ := object_result h hn
      (hn ▸ Ty.WellFormed.names_object source) target.names_object.nodup hw
    exact attributes_land hS hrun hv.target (fun name x s hx hs =>
      ⟨within x (mem_values hx), fills name x s hx hs, hv.source.ofAttribute hs⟩) hne result

theorem pick_lands (hS : S.Closed) (hrun : run.Sound S .lenient) {targets : List (String × Ty)}
    {optional : List String} {plans : List (String × Conversion)}
    (h : Paired (fun _ t c => Conversion.plan? .lenient s t = some c) targets plans)
    (hv : Applicable S (.map s) (.object targets optional) v)
    (hw : Rule.apply run (.pick plans targets optional) (.object targets optional) v path site =
      .ok w) : Lands S (.object targets optional) v.height w := by
  obtain ⟨e, entries, rfl, hf⟩ := hv.decided.map hv.fills
  have target := (hv.target.mono hS.headed).wellFormed
  cases hv.within with
  | map _ proper types within =>
    obtain ⟨attributes, rfl, hn, result⟩ := pick_result h proper target.names_object.nodup hw
    refine attributes_land hS hrun hv.target (fun name x s' hx hs => ?_) hn result
    cases hs
    exact ⟨within x (mem_values hx), types x (mem_values hx) ▸ hf,
      (Ty.everywhere_map.1 hv.source).2⟩

/-- A tuple is converted into one with the elements of the target. -/
theorem tuple_result {sources targets : List Ty} {plans : List Conversion} {items : List Value}
    (hl : sources.length = targets.length)
    (h : List.Forall₂ (fun p c => Conversion.plan? mode p.1 p.2 = some c)
      (sources.zip targets) plans)
    (hn : items.length = sources.length)
    (hw : Rule.apply run (.tuple plans) t (.bare (.tuple items)) path site = .ok w) :
    ∃ results, w = .tuple results ∧ results.length = targets.length ∧
      ∀ (i : Nat) y t, results[i]? = some y → targets[i]? = some t →
        ∃ x s c path site, items[i]? = some x ∧ sources[i]? = some s ∧
          Conversion.plan? mode s t = some c ∧ run c x path site = .ok y := by
  rw [Rule.apply] at hw
  obtain ⟨results, hc, hw⟩ := bind_eq_ok hw
  cases hw
  have runs := convertTuple_ok rfl hc
  rw [Value.map_snd_numbered] at runs
  refine ⟨results, rfl, ?_, fun i y t hy ht => ?_⟩
  · rw [← runs.length_eq, List.length_zip, ← h.length_eq, List.length_zip]
    omega
  · obtain ⟨x, c, hx, hc, path, site, hr⟩ := getElem?_of_zip runs hy
    obtain ⟨s, t', hs, ht', hp⟩ := getElem?_of_zip h hc
    rw [ht] at ht'
    cases ht'
    exact ⟨x, s, c, path, site, hx, hs, hp, hr⟩

theorem tuple_lands (hS : S.Closed) (hrun : run.Sound S mode) {sources targets : List Ty}
    {plans : List Conversion} (hl : sources.length = targets.length)
    (h : List.Forall₂ (fun p c => Conversion.plan? mode p.1 p.2 = some c)
      (sources.zip targets) plans)
    (hv : Applicable S (.tuple sources) (.tuple targets) v)
    (hw : Rule.apply run (.tuple plans) (.tuple targets) v path site = .ok w) :
    Lands S (.tuple targets) v.height w := by
  obtain ⟨items, rfl, hn, fills⟩ := hv.decided.tuple hv.fills
  cases hv.within with
  | tuple _ within =>
    obtain ⟨results, rfl, length, result⟩ := tuple_result hl h hn hw
    have lands : ∀ (i : Nat) y t, results[i]? = some y → targets[i]? = some t →
        Lands S t (Value.heightAll items) y := by
      intro i y t hy ht
      obtain ⟨x, s, c, path, site, hx, hs, hp, hr⟩ := result i y t hy ht
      have hx' := List.mem_of_getElem? hx
      exact (hrun (.planned hp) (hv.source.ofItem (List.mem_of_getElem? hs))
        (hv.target.ofItem (List.mem_of_getElem? ht)) (within x hx') (fills i x s hx hs) hr).mono
        (Value.height_le_heightAll hx')
    have each : ∀ y ∈ results, ∃ t, Lands S t (Value.heightAll items) y := by
      intro y hy
      obtain ⟨i, hi⟩ := List.mem_iff_getElem?.1 hy
      have hlt := length ▸ (List.getElem?_eq_some_iff.1 hi).1
      exact ⟨_, lands i y _ hi (List.getElem?_eq_getElem hlt)⟩
    refine ⟨.tuple ?_ fun y hy => ?_, ?_, fun hd => ?_⟩
    · have top := hv.target.here.1
      rw [Ty.withoutOptional, Ty.withoutOptionalAll_eq_map] at top
      refine hS.structural.tuple top ?_
      rw [Value.length_types, length, List.length_map]
    · obtain ⟨t, ht⟩ := each y hy
      exact ht.within
    · simp only [Value.tuple, Value.bare, Value.ty]
      refine .tuple (by rw [Value.length_types, length]) fun i a t ha ht => ?_
      rw [Value.types_eq_map, List.getElem?_map, Option.map_eq_some_iff] at ha
      obtain ⟨y, hy, rfl⟩ := ha
      exact (lands i y t hy ht).fills
    · simp only [Value.tuple, Value.bare, Value.height]
      refine Nat.succ_le_succ (Value.heightAll_le (Value.heightAll_pos items) fun y hy => ?_)
      obtain ⟨t, ht⟩ := each y hy
      exact ht.height hd

theorem items_lands (hS : S.Closed) (hrun : run.Sound S mode) {source wanted : Ty}
    {kind : CollectionKind} {c : Conversion} (hk : kind ≠ .map)
    (hs : source = .list s ∨ source = .set s) (h : Conversion.plan? mode s wanted = some c)
    (hv : Applicable S source (kind.type wanted) v)
    (hw : Rule.apply run (.collection kind mode c wanted) (kind.type wanted) v path site = .ok w) :
    Lands S (kind.type wanted) v.height w := by
  have target : Ty.Aims S.types wanted := (Ty.everywhere_collection.1 hv.target).2
  rw [Rule.apply] at hw
  obtain ⟨-, -, hw⟩ := bind_eq_ok hw
  rw [if_neg hk] at hw
  have parts {e : Ty} {items : List Value} (hf : e.Fills s) (ht : ∀ x ∈ items, x.ty = e)
      (hi : ∀ x ∈ items, x.Within S) : ∀ x ∈ Value.numbered 0 items,
        x.2.Within S ∧ x.2.ty.Fills s ∧ x.2.height ≤ Value.heightAll items := by
    intro x hx
    have hx : x.2 ∈ items := by
      rw [← Value.map_snd_numbered 0 items]
      exact List.mem_map_of_mem hx
    exact ⟨hi _ hx, ht _ hx ▸ hf, Value.height_le_heightAll hx⟩
  rcases hs with rfl | rfl
  · obtain ⟨e, items, rfl, hf⟩ := hv.decided.list hv.fills
    cases hv.within with
    | list he ht hi =>
      exact convertItems_lands hS hrun hk h (Ty.everywhere_list.1 hv.source).2 target rfl rfl he
        (parts hf ht hi) (Value.heightAll_pos items) hw
  · obtain ⟨e, items, rfl, hf⟩ := hv.decided.set hv.fills
    cases hv.within with
    | set he ht hi =>
      exact convertItems_lands hS hrun hk h (Ty.everywhere_set.1 hv.source).2 target rfl rfl he
        (parts hf ht hi) (Value.heightAll_pos items) hw

theorem mapItems_lands (hS : S.Closed) (hrun : run.Sound S mode) {wanted : Ty} {c : Conversion}
    (h : Conversion.plan? mode s wanted = some c) (hv : Applicable S (.map s) (.map wanted) v)
    (hw : Rule.apply run (.collection .map mode c wanted) (.map wanted) v path site = .ok w) :
    Lands S (.map wanted) v.height w := by
  obtain ⟨e, entries, rfl, hf⟩ := hv.decided.map hv.fills
  rw [Rule.apply] at hw
  obtain ⟨-, -, hw⟩ := bind_eq_ok hw
  rw [if_pos rfl] at hw
  cases hv.within with
  | map he hn ht hi =>
    exact convertEntries_lands hS hrun h (Ty.everywhere_map.1 hv.source).2
      (Ty.everywhere_map.1 hv.target).2 hn rfl rfl he
      (fun x hx => ⟨hi x hx, ht x hx ▸ hf, Value.height_le_heightEntries hx⟩)
      (Value.heightEntries_pos entries) hw

theorem gather_lands (hS : S.Closed) (hrun : run.Sound S mode) {sources : List Ty}
    {wanted e : Ty} {kind : CollectionKind} {plans : List Conversion} (hk : kind ≠ .map)
    (he : Rule.Gathers mode sources wanted e)
    (h : List.Forall₂ (fun s c => Conversion.plan? mode s e = some c) sources plans)
    (hv : Applicable S (.tuple sources) (kind.type wanted) v)
    (hw : Rule.apply run (.gather kind mode plans e) (kind.type wanted) v path site = .ok w) :
    Lands S (kind.type wanted) v.height w := by
  obtain ⟨items, rfl, hn, fills⟩ := hv.decided.tuple hv.fills
  have source := (Ty.everywhere_tuple.1 hv.source).2
  have target : Ty.Aims S.types wanted := (Ty.everywhere_collection.1 hv.target).2
  obtain ⟨aims, toWanted⟩ := he.aims hS source target
  have pos := Value.heightAll_pos items
  cases hv.within with
  | tuple _ within =>
    rw [Rule.apply] at hw
    obtain ⟨results, hc, hw⟩ := bind_eq_ok hw
    have runs := convertTuple_ok rfl hc
    rw [Value.map_snd_numbered] at runs
    refine Lands.collection_mono (e := e) ?_ toWanted
    split at hw
    · cases hw
      refine lands_emptyCollection aims (aims.mono hS.headed).wellFormed aims.withoutOptional ?_
      exact Nat.succ_le_succ pos
    · rename_i nonempty
      obtain ⟨second, hh, hw⟩ := bind_eq_ok hw
      have lands : LandAll S e (Value.heightAll items) results := by
        intro y hy
        obtain ⟨i, hi⟩ := List.mem_iff_getElem?.1 hy
        obtain ⟨x, c, hx, hc, path, site, hr⟩ := getElem?_of_zip runs hi
        have hlt : i < sources.length := hn ▸ (List.getElem?_eq_some_iff.1 hx).1
        have hs := List.getElem?_eq_getElem hlt
        have hp := getElem?_of_forall₂ h hs hc
        have hx' := List.mem_of_getElem? hx
        exact (hrun (.planned hp) (source _ (List.mem_of_getElem? hs))
          aims (within x hx') (fills i x _ hx hs) hr).mono (Value.height_le_heightAll hx')
      have hne : results ≠ [] := fun eq => nonempty (eq ▸ rfl)
      exact (homogenize_lands hS hrun hne lands hh).1.collection hS pos hk hw

theorem entries_lands (hS : S.Closed) (hrun : run.Sound S mode) {sources : List (String × Ty)}
    {os : List String} {wanted e : Ty} {plans : List (String × Conversion)} (hs : sources ≠ [])
    (he : Rule.Gathers mode (values sources) wanted e)
    (h : Paired (fun _ s c => Conversion.plan? mode s e = some c) sources plans)
    (hv : Applicable S (.object sources os) (.map wanted) v)
    (hw : Rule.apply run (.entries mode plans) (.map wanted) v path site = .ok w) :
    Lands S (.map wanted) v.height w := by
  obtain ⟨attributes, rfl, hn, fills⟩ := hv.decided.object hv.fills
  have source := (Ty.everywhere_object.1 hv.source).2
  have proper : Names.Proper (names attributes) :=
    hn ▸ Ty.WellFormed.names_object (hv.source.mono hS.headed)
  obtain ⟨aims, toWanted⟩ := he.aims hS source (Ty.everywhere_map.1 hv.target).2
  have pos := Value.heightEntries_pos attributes
  have all := covered_eq_self h hn
  cases hv.within with
  | object _ within =>
    rw [Rule.apply] at hw
    obtain ⟨converted, hc, hw⟩ := bind_eq_ok hw
    obtain ⟨second, hh, hw⟩ := bind_eq_ok hw
    have paired := convertNamed_ok (Value.namedElements_of_content proper.2 rfl) hc
    have hnames : names converted = names attributes := by rw [← paired.names_eq, all]
    have planned : ∀ name x c, (name, x) ∈ attributes → plans.lookup name = some c →
        ∃ s t, t = e ∧ Conversion.plan? mode s t = some c ∧ x.ty.Fills s ∧
          s.Everywhere S.types ∧ Ty.Aims S.types t := by
      intro name x c hx hl
      obtain ⟨s, hs, hp⟩ := h.mem_right (mem_of_lookup hl)
      exact ⟨s, e, rfl, hp, fills name x s hx hs, source s (mem_values hs), aims⟩
    have lands : LandAll S e (Value.heightEntries attributes) (values converted) := by
      intro y hy
      obtain ⟨name, hy⟩ := exists_of_mem_values hy
      obtain ⟨_, rfl, lands⟩ := paired_lands (T := fun _ t => t = e) hrun
        (fun x hx => ⟨within x hx, Value.height_le_heightEntries hx⟩) planned paired hy
      exact lands
    have hne : values converted ≠ [] := by
      intro eq
      rw [List.map_eq_nil_iff.1 eq, names_nil, hn] at hnames
      exact hs (List.map_eq_nil_iff.1 hnames.symm)
    obtain ⟨lands', hl, -⟩ := homogenize_lands hS hrun hne lands hh
    have hl : (names converted).length = second.length := by
      rw [hl, names, values, List.length_map, List.length_map]
    refine @Lands.collection_mono _ .map e _ _ _ ?_ toWanted
    refine LandAll.map hS ?_ ?_ pos (orFailure_eq_ok hw)
    · rw [values_zip hl]
      exact lands'
    · rw [names_zip hl, hnames]
      exact proper

omit [Host] in
/-- What a variant holds is converted into what a variant of the target holds. -/
theorem variant_lands {targets : List (String × Ty)} {plans : List (String × Conversion)}
    {name : String} {part : Value} {complaint : Complaint} {n : Nat}
    (ht : Ty.Aims S.types (.union targets)) (hwf : (Ty.union targets).WellFormed)
    (hn : normalize name = name)
    (hp : S.deep → part.height ≤ n ∧ ∀ c, plans.lookup name = some c → ∃ t,
      targets.lookup name = some t ∧ ∀ {y path site}, run c part path site = .ok y →
        Lands S t part.height y)
    (hw : convertVariant run plans (.union targets) name part complaint path site = .ok w) :
    Lands S (.union targets) (n + 1) w := by
  unfold convertVariant at hw
  split at hw
  · cases hw
  · rename_i c hc
    obtain ⟨y, hr, hw⟩ := bind_eq_ok hw
    obtain ⟨t, hl, hf, rfl⟩ := Value.union_eq_ok hn (orFailure_eq_ok hw)
    have lands (hd : S.deep) : Lands S t n y := by
      obtain ⟨hh, hp⟩ := hp hd
      obtain ⟨t', hl', hp⟩ := hp c hc
      rw [hl] at hl'
      cases hl'
      exact (hp hr).mono hh
    refine ⟨.union ht.union hl hf (fun hd => (lands hd).fills) fun hd => (lands hd).within, ?_,
      fun hd => ?_⟩
    · simp only [Value.bare, Value.ty]
      exact .refl hwf
    · simp only [Value.bare, Value.height]
      exact Nat.succ_le_succ ((lands hd).height hd)

theorem union_lands (hS : S.Closed) (hrun : run.Sound S mode) {sources targets : List (String × Ty)}
    {plans : List (String × Conversion)}
    (h : Paired (fun name s c => ∃ t, targets.lookup name = some t ∧
      Conversion.plan? mode s t = some c) sources plans)
    (hv : Applicable S (.union sources) (.union targets) v)
    (hw : Rule.apply run (.union plans) (.union targets) v path site = .ok w) :
    Lands S (.union targets) v.height w := by
  obtain ⟨variants, name, inner, rfl, hn, fills⟩ := hv.decided.union hv.fills
  have target := (hv.target.mono hS.headed).wellFormed
  have source : (Ty.union sources).WellFormed := hv.source.mono hS.headed
  cases hv.within with
  | union _ hl _ ha hi =>
    rw [Rule.apply] at hw
    obtain ⟨_, eq, hw⟩ := bind_eq_ok hw
    cases eq
    have ofVariants := mem_names (mem_of_lookup hl)
    refine variant_lands hv.target target (source.names_union.2 name (hn ▸ ofVariants))
      (fun hd => ⟨Nat.le_refl _, fun c hc => ?_⟩) hw
    obtain ⟨s, hs, t, ht, hp⟩ := h.mem_right (mem_of_lookup hc)
    exact ⟨t, ht, fun hr => hrun (.planned hp) (hv.source.ofVariant hs)
      (hv.target.ofVariant (mem_of_lookup ht)) (hi hd)
      ((ha hd).trans (fills name _ s (mem_of_lookup hl) hs)) hr⟩

theorem select_lands (hS : S.Closed) (hrun : run.Sound S mode)
    {sources targets : List (String × Ty)} {os : List String} {plans : List (String × Conversion)}
    (h : Paired (fun name s c => ∃ t, targets.lookup name = some t ∧
      Conversion.plan? mode s t = some c) sources plans)
    (hv : Applicable S (.object sources os) (.union targets) v)
    (hw : Rule.apply run (.select plans) (.union targets) v path site = .ok w) :
    Lands S (.union targets) v.height w := by
  obtain ⟨attributes, rfl, hn, fills⟩ := hv.decided.object hv.fills
  have target := (hv.target.mono hS.headed).wellFormed
  have proper : Names.Proper (names attributes) :=
    hn ▸ Ty.WellFormed.names_object (hv.source.mono hS.headed)
  have pos := Value.heightEntries_pos attributes
  cases hv.within with
  | object _ within =>
    rw [Rule.apply, convertSelection] at hw
    obtain ⟨_, eq, hw⟩ := bind_eq_ok hw
    cases eq
    obtain ⟨selection, hs, hw⟩ := bind_eq_ok hw
    cases selection with
    | undecided =>
      have narrowed := Refining.narrowed_refine hS (t := .union targets) (by simp)
        (Value.heightEntries attributes + 1)
      obtain ⟨s, r, hs, narrowed, -⟩ := narrowed.notNull (Nat.succ_le_succ pos)
      have hw := orFailure_eq_ok hw
      rw [Value.refineNotNull, hs] at hw
      obtain ⟨within, hty, hh⟩ := narrowed.result_ok hS (Nat.succ_pos _) hv.target.union hw
      exact ⟨within, hty.symm ▸ .refl target, fun _ => hh⟩
    | variant name part =>
      have hx : (name, part) ∈ attributes := (select_ok proper.2 hs).resolve_left (by intro h; cases h)
      refine variant_lands hv.target target (proper.2 name (mem_names hx)) (fun hd =>
        ⟨Value.height_le_heightEntries (mem_values hx), fun c hc => ?_⟩) hw
      obtain ⟨s, hs, t, ht, hp⟩ := h.mem_right (mem_of_lookup hc)
      exact ⟨t, ht, fun hr => hrun (.planned hp) (hv.source.ofAttribute hs)
        (hv.target.ofVariant (mem_of_lookup ht)) (within part (mem_values hx))
        (fills name part s hx hs) hr⟩

omit [Host] in
theorem primitive_lands (hS : S.Closed) {rule : PrimitiveRule}
    (h : PrimitiveRule.between? mode s t = some rule) (hv : Applicable S s t v)
    (hw : rule.apply v path = .ok w) : Lands S t v.height w := by
  have hpos := v.height_pos
  have string {text : String} (ht : S.texts (normalize text)) :
      Lands S .string v.height (.string text) := by
    refine ⟨.string ht, ?_, fun _ => ?_⟩
    · simp only [Value.string, Value.bare, Value.ty]
      exact .string
    · simp only [Value.string, Value.bare, Value.height]
      exact hpos
  unfold PrimitiveRule.between? at h
  split at h
  · cases h
    obtain ⟨n, rfl⟩ := hv.decided.number hv.fills
    cases hw
    cases hv.within with
    | number ht => exact string ht
  · cases h
    obtain ⟨b, rfl⟩ := hv.decided.bool hv.fills
    cases hw
    exact string (hS.flag b)
  · split at h <;> cases h
    obtain ⟨text, rfl⟩ := hv.decided.string hv.fills
    cases hv.within with
    | string ht =>
      change numberOfText text path = .ok w at hw
      rw [numberOfText, Value.parseNumber] at hw
      cases hn : Number.parse text with
      | error e =>
        rw [hn] at hw
        cases e <;> cases hw
      | ok n =>
        rw [hn] at hw
        cases hw
        refine ⟨.number (hS.parsed text n ht hn), ?_, fun _ => ?_⟩
        · simp only [Value.number, Value.bare, Value.ty]
          exact .number
        · simp only [Value.number, Value.bare, Value.height]
          exact hpos
  · split at h <;> cases h
    obtain ⟨text, rfl⟩ := hv.decided.string hv.fills
    change boolOfText text path = .ok w at hw
    have bool (b : Bool) : Lands S .bool (Value.bare (.string text)).height (.bool b) := by
      refine ⟨.bool, ?_, fun _ => ?_⟩
      · simp only [Value.bool, Value.bare, Value.ty]
        exact .bool
      · simp only [Value.bool, Value.bare, Value.height]
        exact Nat.le_refl _
    unfold boolOfText at hw
    split at hw
    · cases hw
      exact bool true
    split at hw
    · cases hw
      exact bool false
    all_goals
      repeat' split at hw
      all_goals cases hw
  · cases h

theorem emptyMap_lands (hS : S.Closed) {os : List String} {wanted : Ty}
    (hv : Applicable S (.object [] os) (.map wanted) v)
    (hw : Rule.apply run (.emptyMap wanted.withoutOptional) (.map wanted) v path site = .ok w) :
    Lands S (.map wanted) v.height w := by
  obtain ⟨attributes, rfl, -, -⟩ := hv.decided.object hv.fills
  have target : (Ty.map wanted).WellFormed := (hv.target.mono hS.headed).wellFormed
  cases hw
  have aims : Ty.Aims S.types wanted := (Ty.everywhere_map.1 hv.target).2
  refine ⟨.map aims.withoutOptional Names.proper_nil (by simp) (by simp), ?_, fun _ => ?_⟩
  · simp only [Value.emptyMap, Value.bare, Value.ty]
    exact .map (.withoutOptional (Ty.everywhere_map.1 target).2)
  · simp only [Value.emptyMap, Value.bare, Value.height, Value.heightEntries]
    exact Nat.succ_le_succ (Value.heightEntries_pos attributes)

/-! ## All rules -/

/-- A planned rule lands on its target, if the runs of parts do and no capsule type has a say. -/
theorem Planned.apply_lands (hS : S.Closed) (hm : mode = .lenient → ∀ c, ¬ S.types (.capsule c))
    (hrun : run.Sound S mode) {rule : Rule Conversion} (h : Planned mode s t rule)
    (hl : rule ≠ .decideLater) (hv : Applicable S s t v)
    (hw : rule.apply run t v path site = .ok w) : Lands S t v.height w := by
  have kept {w : Value} (hf : v.ty.Fills t) (hw : (.ok v : Except Failure Value) = .ok w) :
      Lands S t v.height w := by
    cases hw
    exact ⟨hv.within, hf, fun _ => Nat.le_refl _⟩
  cases h with
  | toDynamic => exact kept (.dynamic _) hw
  | later => cases hl rfl
  | same => exact kept hv.fills hw
  | object h => exact object_lands hS hrun h hv hw
  | tuple length h => exact tuple_lands hS hrun length h hv hw
  | items hk hs h => exact items_lands hS hrun hk hs h hv hw
  | mapItems h => exact mapItems_lands hS hrun h hv hw
  | gather hk he h => exact gather_lands hS hrun hk he h hv hw
  | emptyMap => exact emptyMap_lands hS hv hw
  | entries hs he h => exact entries_lands hS hrun hs he h hv hw
  | pick hm h =>
    subst hm
    exact pick_lands hS hrun h hv hw
  | union h => exact union_lands hS hrun h hv hw
  | select _ _ h => exact select_lands hS hrun h hv hw
  | primitive h => exact primitive_lands hS h hv hw
  | ofCapsules lenient hc => exact absurd hc (hv.noCapsule (hm lenient))

/-- Only for values of unknown type is there something to decide later. -/
theorem Planned.ne_decideLater {rule : Rule Conversion} (h : Planned mode s t rule)
    (hs : s ≠ .dynamic) (hc : ¬ (s.isCapsule = true ∨ t.isCapsule = true)) :
    rule ≠ .decideLater := by
  rintro rfl
  cases h with
  | later => exact hs rfl
  | ofCapsules _ h => exact hc h

theorem Planned.applyDecided_lands (hS : S.Closed)
    (hm : mode = .lenient → ∀ c, ¬ S.types (.capsule c)) (hrun : run.Sound S mode)
    {rule : Rule Conversion} (h : Planned mode s t rule) (hv : Applicable S s t v)
    (hw : rule.applyDecided run t v path site = .ok w) : Lands S t v.height w := by
  rcases applyDecided_ok hw with ⟨hl, hw⟩ | ⟨rfl, later, hr, hw⟩
  · exact h.apply_lands hS hm hrun hl hv hw
  · -- the type of the value is not `dynamic`, so the second plan decides
    have lenient : mode = .lenient := by cases h <;> assumption
    subst lenient
    have hv' : Applicable S v.ty t v := ⟨hv.decided, hv.within,
      .refl (hv.within.wellFormed_ty hS), hv.within.ty hS, hv.target⟩
    have planned := planned_of_between? hr
    exact planned.apply_lands hS hm hrun
      (planned.ne_decideLater hv.decided.ty_ne_dynamic (hv'.noCapsule (hm rfl))) hv' hw

end Rule

/-! ## Runs -/

namespace Conversion

/-- One step of a run lands on its target, if the runs of parts do. -/
theorem runWith_lands (hS : S.Closed) (hm : mode = .lenient → ∀ c, ¬ S.types (.capsule c))
    (hrun : run.Sound S mode) {s t : Ty} {c : Conversion} {v w : Value}
    (hc : Conversion.Leads mode s t c) (hs : s.Everywhere S.types) (ht : Ty.Aims S.types t)
    (hv : v.Within S) (hf : v.ty.Fills s) (hw : c.runWith run v path site = .ok w) :
    Lands S t v.height w := by
  have pos := v.height_pos
  cases hc with
  | forget ht =>
    cases ht
    cases hw
    refine Lands.withMarks ⟨Value.within_unknown hS ((Ty.everywhere_leaf rfl).2 hS.dynamic),
      .dynamic _, fun _ => ?_⟩ _
    exact Nat.le_trans (Refining.height_bare_unknown _) pos
  | planned hp =>
    obtain ⟨rule, rfl, planned⟩ := planned_of_plan? hp
    by_cases hd : t = .dynamic
    · cases hd
      rw [runWith_dynamic] at hw
      cases hw
      exact ⟨hv, .dynamic _, fun _ => Nat.le_refl _⟩
    have converted : (v.ty.converted t).Everywhere S.types :=
      ht.filledFrom hS.structural hS.dynamic (hv.ty hS)
    have fills : (v.ty.converted t).Fills t := Ty.filledFrom_fills (ht.mono hS.headed).wellFormed _
    cases known : v.isKnown with
    | false =>
      rw [runWith_unknown hd known] at hw
      obtain ⟨x, hx, rfl⟩ := map_eq_ok hw
      obtain ⟨r, hr⟩ := Value.unmark_of_unknown known
      have hx := orFailure_eq_ok hx
      rw [hr] at hx
      obtain ⟨within, hty, height⟩ := Value.convertUnknown_ok hS (hr ▸ hv.unmark) converted hx
      rw [← hr, Value.height_unmark] at height
      exact Lands.withMarks ⟨within, hty.symm ▸ fills, fun _ => height⟩ _
    | true =>
      cases null : v.isNull with
      | true =>
        rw [runWith_null hd null] at hw
        cases hw
        refine Lands.withMarks ⟨Value.within_null converted, ?_, fun _ => ?_⟩ _
        · simp only [Value.null, Value.bare, Value.ty]
          exact fills
        · simp only [Value.null, Value.bare, Value.height]
          exact pos
      | false =>
        rw [runWith_decided hd known null] at hw
        obtain ⟨x, hx, rfl⟩ := map_eq_ok hw
        have hv' : Applicable S s t v.unmark :=
          ⟨Value.decided_unmark known null, hv.unmark, by rwa [Value.ty_unmark], hs, ht⟩
        rw [← Value.height_unmark]
        exact (planned.applyDecided_lands hS hm hrun hv' hx).withMarks _

/-- A run of a conversion lands on its target. -/
theorem run_lands (hS : S.Closed) (hm : mode = .lenient → ∀ c, ¬ S.types (.capsule c)) {s t : Ty}
    {c : Conversion} {v w : Value} (hc : Conversion.Leads mode s t c) (hs : s.Everywhere S.types)
    (ht : Ty.Aims S.types t) (hv : v.Within S) (hf : v.ty.Fills s)
    (hw : c.run v path site = .ok w) : Lands S t v.height w := by
  induction hn : v.height using Nat.strong_induction_on generalizing s t c v w path site with
  | _ n ih =>
    subst hn
    rw [run_eq] at hw
    refine runWith_lands hS hm (fun hc hs ht hv hf hw => ?_) hc hs ht hv hf hw
    obtain ⟨lower, hw⟩ := runPart_ok hw
    exact ih _ lower hc hs ht hv hf hw rfl

end Conversion

end ValueAlgebra
