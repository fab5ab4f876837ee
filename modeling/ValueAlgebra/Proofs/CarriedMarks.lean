import ValueAlgebra.Proofs.Faults
import ValueAlgebra.Proofs.LostMarks
import ValueAlgebra.Proofs.UnifiedRuns

/-!
# Marks that conversions carry

The marks of a value and of all its parts are meant to ride along to the result of a conversion.
Where parts are converted and put together again they do, at every depth: a part carries its marks
into the part that it becomes, and a set gathers the marks of its elements. So a run carries all
marks but those that the conversion loses.

Main statements:

* `Rule.Planned.apply_carries`: a planned rule carries marks if the conversions of parts do.
* `Conversion.run_carries`: a run carries all marks but those that the conversion loses.
* `Value.marks_carried`: so do conversions of values and conversions into a unified type.
-/

namespace ValueAlgebra

open Entries Text

variable [Host]

omit [Host] in
/-- An element of a list is paired with one of another list of the same length. -/
theorem exists_mem_zip {α β : Type} {xs : List α} {ys : List β} {x : α}
    (length : xs.length = ys.length) (hx : x ∈ xs) : ∃ y, (x, y) ∈ xs.zip ys := by
  rw [← List.map_fst_zip (Nat.le_of_eq length)] at hx
  obtain ⟨⟨x, y⟩, hy, rfl⟩ := List.mem_map.1 hx
  exact ⟨y, hy⟩

/-! ## Parts that carry marks -/

variable {S : Scope} {mode : Mode} {mark : String}

/-- The runs of lower values carry a mark, unless their conversions lose it. -/
def CarriesBelow (S : Scope) (mode : Mode) (mark : String) (n : Nat) : Prop :=
  ∀ {s t : Ty} {c : Conversion} {x y : Value} {path : Path} {site : List Nat},
    Task S mode False s t c x → x.height < n → c.run x path site = .ok y → mark ∈ x.deepMarks →
      mark ∈ y.deepMarks ∨ c.Loses mark x

namespace Rule

open Conversion

variable {rule : Rule Conversion} {s t : Ty} {c : Conversion} {v w x y : Value} {path : Path}
  {site : List Nat}

theorem Takes.carries (below : CarriesBelow S mode mark v.height)
    (takes : rule.Takes v.content x c) (task : Task S mode False s t c x)
    (hr : runPart v.height c x path site = .ok y) (hn : mark ∈ x.deepMarks) {target : Ty} :
    mark ∈ y.deepMarks ∨ (toward target rule).Loses mark v :=
  (below task (runPart_ok hr).1 (runPart_ok hr).2 hn).imp_right (.part takes)

/-- A value that a run made of a part of another one, and that may be converted once more. -/
structure Made (S : Scope) (rule : Rule Conversion) (v y : Value) : Prop where
  makes : rule.Makes v.content y
  within : y.Within S
  lower : y.height < v.height

theorem Takes.made (hS : S.Closed) (hm : mode = .lenient → ∀ c, ¬ S.types (.capsule c))
    (hd : S.deep) (takes : rule.Takes v.content x c) (task : Task S mode False s t c x)
    (hr : runPart v.height c x path site = .ok y) : Made S rule v y := by
  have lands := runPart_sound hS hm task.leads task.source task.target task.within task.fills hr
  exact ⟨⟨x, c, path, site, takes, (runPart_ok hr).2⟩, lands.within,
    Nat.lt_of_le_of_lt (lands.height hd) (runPart_ok hr).1⟩

/-- Elements that are converted once more carry marks. -/
theorem homogenize_carries (hS : S.Closed) (below : CarriesBelow S mode mark v.height)
    {kind : CollectionKind} {ys zs : List Value} (made : ∀ y ∈ ys, Made S rule v y)
    (h : homogenize (runPart v.height) kind mode path site ys = .ok zs) (hy : y ∈ ys)
    (hn : mark ∈ y.deepMarks) :
    (∃ z ∈ zs, mark ∈ z.deepMarks) ∨ (toward t rule).Loses mark v := by
  obtain ⟨-, rfl | ⟨u, differ, hu, runs⟩⟩ := homogenize_ok h
  · exact .inl ⟨y, hy, hn⟩
  have length := (Unification.plan?_conversions hu).length_eq
  rw [Value.length_types] at length
  obtain ⟨c?, hm⟩ := exists_mem_zip length hy
  obtain ⟨z, hz, ⟨-, rfl⟩ | ⟨c, site, rfl, hr⟩⟩ := exists_right_of_forall₂ runs hm
  · exact .inl ⟨_, hz, hn⟩
  · obtain ⟨-, leads, target⟩ := secondPass hS (fun y hy => (made y hy).within) hu hm
    have lower := (made y hy).lower
    rw [runPart_of_lt lower] at hr
    rcases below ⟨(made y hy).within.fitted hS, leads, target, False.elim⟩ lower hr hn with kept | lost
    · exact .inl ⟨z, hz, kept⟩
    · exact .inr (.again (fun y hy => (made y hy).makes) differ hu hm lost)

/-- A new list or set carries the marks of what it is made of. -/
theorem collected_carries (hS : S.Closed) (below : CarriesBelow S mode mark v.height)
    {kind : CollectionKind} {ys zs : List Value} (made : ∀ y ∈ ys, Made S rule v y)
    (h : homogenize (runPart v.height) kind mode path site ys = .ok zs)
    (hw : (if kind = .set then Value.set zs else Value.list zs) = .ok w) (hy : y ∈ ys)
    (hn : mark ∈ y.deepMarks) : mark ∈ w.deepMarks ∨ (toward t rule).Loses mark v := by
  refine (homogenize_carries hS below made h hy hn).imp_left ?_
  rintro ⟨z, hz, hn⟩
  split at hw
  · exact Value.mem_deepMarks_set hw hz hn
  · exact Value.mem_deepMarks_list hw hz hn

/-- A new map carries the marks of what it is made of. -/
theorem mapped_carries (hS : S.Closed) (below : CarriesBelow S mode mark v.height)
    {ys zs : List Value} {keys : List String} (proper : Names.Proper keys)
    (length : ys.length = keys.length) (made : ∀ y ∈ ys, Made S rule v y)
    (h : homogenize (runPart v.height) .map mode path site ys = .ok zs)
    (hw : Value.map (keys.zip zs) = .ok w) (hy : y ∈ ys) (hn : mark ∈ y.deepMarks) :
    mark ∈ w.deepMarks ∨ (toward t rule).Loses mark v := by
  refine (homogenize_carries hS below made h hy hn).imp_left ?_
  rintro ⟨z, hz, hn⟩
  have hl : keys.length = zs.length := by
    obtain ⟨-, rfl | ⟨u, -, hu, runs⟩⟩ := homogenize_ok h
    · exact length.symm
    · rw [← runs.length_eq, List.length_zip, ← (Unification.plan?_conversions hu).length_eq,
        Value.length_types, Nat.min_self, length]
  refine Value.mem_deepMarks_map ?_ hw ?_ hn
  · rwa [names_zip hl]
  · rwa [values_zip hl]

/-! ## Planned rules -/

/-- A part with a name is converted with its marks where there is a conversion of the name. -/
theorem named_carries (rule : Rule Conversion) {plans : List (String × Conversion)} {converted : List (String × Value)}
    {key : String} (below : CarriesBelow S mode mark v.height) (hr : rule.byName? = some plans)
    (paired : Paired (ConvertedBy (runPart v.height) plans) (covered plans v.content.named) converted)
    (hx : (key, x) ∈ v.content.named)
    (task : ∀ c, plans.lookup key = some c → ∃ s t, Task S mode False s t c x)
    (hn : mark ∈ x.deepMarks) {target : Ty} :
    (∃ y, (key, y) ∈ converted ∧ mark ∈ y.deepMarks) ∨ (toward target rule).Loses mark v := by
  cases hc : plans.lookup key with
  | none => exact .inr (.unnamed hr hx hc hn)
  | some c =>
    obtain ⟨y, hy, c', path, site, hc', hrun⟩ := paired.mem_left
      (List.mem_filter.2 ⟨hx, Option.isSome_iff_exists.2 ⟨c, hc⟩⟩)
    rw [hc] at hc'
    cases hc'
    obtain ⟨s, t, task⟩ := task c hc
    exact (Takes.carries below (.named hr hx hc) task hrun hn).imp_left fun hn => ⟨y, hy, hn⟩

theorem object_carries (hS : S.Closed) (below : CarriesBelow S mode mark v.height)
    {sources targets absent : List (String × Ty)} {os optional : List String}
    {plans : List (String × Conversion)}
    (h : ObjectPlan mode sources optional targets plans absent)
    (hv : Applicable S (.object sources os) (.object targets optional) v)
    (hw : Rule.apply (runPart v.height) (.object plans absent) t v path site = .ok w)
    (hn : mark ∈ v.deepMarks) : mark ∈ w.deepMarks ∨ (toward t (.object plans absent)).Loses mark v := by
  have target := ((hv.target.mono hS.headed).wellFormed).names_object
  obtain ⟨attributes, rfl, same, proper, parts⟩ := hv.object hS
  obtain ⟨x, hx, hn⟩ := hv.marked hn
  obtain ⟨key, hx⟩ := exists_of_mem_values hx
  rw [Rule.apply] at hw
  obtain ⟨converted, hc, hw⟩ := bind_eq_ok hw
  cases hw
  have paired := convertNamed_ok (Value.namedElements_of_content proper.2 rfl) hc
  have kept {name : String} (hn : name ∈ names converted) :
      name ∈ names attributes ∧ name ∈ names targets := by
    obtain ⟨y, hy⟩ := exists_of_mem_names hn
    obtain ⟨x, hx, c, -, -, hl, -⟩ := paired.mem_right hy
    obtain ⟨-, t, -, ht, -⟩ := h.converted name c (mem_of_lookup hl)
    exact ⟨mem_names (List.mem_filter.1 hx).1, mem_names ht⟩
  refine (named_carries _ below rfl paired hx (fun c hc => ?_) hn).imp_left ?_
  · obtain ⟨s, t, -, task⟩ := object_task h hv False.elim parts hx hc
    exact ⟨s, t, task⟩
  rintro ⟨y, hy, hn⟩
  refine Value.mem_deepMarks_object (fun name hn => ?_) ?_ (List.mem_append_left _ hy) hn
  · rw [names_append, List.mem_append, names_mapValues] at hn
    exact target.2 name (hn.elim (fun hn => (kept hn).2) fun hn => h.names_absent.subset hn)
  · rw [names_append, names_mapValues]
    refine List.nodup_append'.2 ⟨?_, target.nodup.sublist h.names_absent, fun name found absent => ?_⟩
    · rw [← paired.names_eq]
      exact proper.nodup.sublist (List.filter_sublist.map _)
    · obtain ⟨a, ha⟩ := exists_of_mem_names absent
      obtain ⟨none, -⟩ := h.missing name a ha
      exact lookup_eq_none.1 none (same ▸ (kept found).1)

theorem pick_carries (below : CarriesBelow S .lenient mark v.height)
    {targets : List (String × Ty)} {optional : List String} {plans : List (String × Conversion)}
    (h : Paired (fun _ t c => plan? .lenient s t = some c) targets plans)
    (target : Names.Proper (names targets)) (hv : Applicable S (.map s) (.object targets optional) v)
    (hw : Rule.apply (runPart v.height) (.pick plans targets optional) t v path site = .ok w)
    (hn : mark ∈ v.deepMarks) :
    mark ∈ w.deepMarks ∨ (toward t (.pick plans targets optional)).Loses mark v := by
  obtain ⟨e, entries, rfl, -, proper, parts⟩ := hv.map
  obtain ⟨x, hx, hn⟩ := hv.marked hn
  obtain ⟨key, hx⟩ := exists_of_mem_values hx
  rw [Rule.apply] at hw
  obtain ⟨converted, hc, hw⟩ := bind_eq_ok hw
  obtain ⟨missing, hm, hw⟩ := bind_eq_ok hw
  cases hw
  have paired := convertNamed_ok (Value.namedElements_of_content proper.2 rfl) hc
  have kept : (names converted).Sublist (names entries) := by
    rw [← paired.names_eq]
    exact List.filter_sublist.map _
  refine (named_carries _ below rfl paired hx (fun c hc => ?_) hn).imp_left ?_
  · obtain ⟨t, -, task⟩ := pick_task h hv False.elim (parts x (mem_values hx)).2 hc
    exact ⟨s, t, task⟩
  rintro ⟨y, hy, hn⟩
  have names_missing : names missing =
      names (targets.filter fun t => !contains t.1 converted) := by
    rw [missingAttributes_ok hm, names, names, List.map_map]
    rfl
  refine Value.mem_deepMarks_object (fun name hn => ?_) ?_ (List.mem_append_left _ hy) hn
  · rw [names_append, List.mem_append, names_missing] at hn
    exact hn.elim (fun hn => proper.2 name (kept.subset hn)) fun hn =>
      target.2 name ((List.filter_sublist.map _).subset hn)
  · rw [names_append, names_missing]
    refine List.nodup_append'.2 ⟨proper.nodup.sublist kept,
      target.nodup.sublist (List.filter_sublist.map _), fun name found absent => ?_⟩
    obtain ⟨t, ht⟩ := exists_of_mem_names absent
    have := (List.mem_filter.1 ht).2
    rw [Bool.not_eq_true'] at this
    exact Bool.eq_false_iff.1 this (contains_iff.2 found)

theorem tuple_carries (below : CarriesBelow S mode mark v.height) {sources targets : List Ty}
    {plans : List Conversion} (hl : sources.length = targets.length)
    (h : List.Forall₂ (fun p c => plan? mode p.1 p.2 = some c) (sources.zip targets) plans)
    (hv : Applicable S (.tuple sources) (.tuple targets) v)
    (hw : Rule.apply (runPart v.height) (.tuple plans) t v path site = .ok w)
    (hn : mark ∈ v.deepMarks) : mark ∈ w.deepMarks ∨ (toward t (.tuple plans)).Loses mark v := by
  obtain ⟨items, rfl, same, parts⟩ := hv.tuple
  obtain ⟨x, hx, hn⟩ := hv.marked hn
  rw [Rule.apply] at hw
  obtain ⟨results, hc, hw⟩ := bind_eq_ok hw
  cases hw
  have runs := convertTuple_ok rfl hc
  rw [Value.map_snd_numbered] at runs
  have length : items.length = plans.length := by
    rw [← h.length_eq, List.length_zip, same, ← hl, Nat.min_self]
  obtain ⟨c, hx⟩ := exists_mem_zip length hx
  obtain ⟨y, hy, path, site, hr⟩ := exists_right_of_forall₂ runs hx
  obtain ⟨s, t, -, task⟩ := tuple_task h hv False.elim parts hx
  have takes : (Rule.tuple plans).Takes (.tuple items) x c := .item rfl hx
  exact (takes.carries below task hr hn).imp_left (Value.mem_deepMarks_of_part hy)

theorem gather_carries (hS : S.Closed) (hm : mode = .lenient → ∀ c, ¬ S.types (.capsule c))
    (hd : S.deep) (below : CarriesBelow S mode mark v.height) {sources : List Ty} {wanted a : Ty}
    {kind : CollectionKind} {plans : List Conversion} (ha : Rule.Gathers mode sources wanted a)
    (h : List.Forall₂ (fun s c => plan? mode s a = some c) sources plans)
    (hv : Applicable S (.tuple sources) (kind.type wanted) v)
    (hw : Rule.apply (runPart v.height) (.gather kind mode plans a) t v path site = .ok w)
    (hn : mark ∈ v.deepMarks) :
    mark ∈ w.deepMarks ∨ (toward t (.gather kind mode plans a)).Loses mark v := by
  obtain ⟨items, rfl, same, parts⟩ := hv.tuple
  obtain ⟨x, hx, hn⟩ := hv.marked hn
  have task {x : Value} {c : Conversion} (hx : (x, c) ∈ items.zip plans) :=
    gather_task hS ha h hv False.elim same parts hx
  have takes {x : Value} {c : Conversion} (hx : (x, c) ∈ items.zip plans) :
      (gather kind mode plans a).Takes (.tuple items) x c := .item rfl hx
  rw [Rule.apply] at hw
  obtain ⟨results, hc, hw⟩ := bind_eq_ok hw
  have runs := convertTuple_ok rfl hc
  rw [Value.map_snd_numbered] at runs
  obtain ⟨c, hx⟩ := exists_mem_zip (same.trans h.length_eq) hx
  obtain ⟨y, hy, path, site, hr⟩ := exists_right_of_forall₂ runs hx
  rw [if_neg (fun empty => List.ne_nil_of_mem hy (List.isEmpty_iff.1 empty))] at hw
  obtain ⟨zs, hh, hw⟩ := bind_eq_ok hw
  have made : ∀ y ∈ results, Made S (.gather kind mode plans a) (.bare (.tuple items)) y := by
    intro y hy
    obtain ⟨⟨x, c⟩, hx, path, site, hr⟩ := exists_left_of_forall₂ runs hy
    obtain ⟨s, -, task⟩ := task hx
    exact (takes hx).made hS hm hd task hr
  obtain ⟨s, -, task⟩ := task hx
  rcases (takes hx).carries below task hr hn with hn | lost
  · refine collected_carries hS below made hh ?_ hy hn
    split at hw <;> rename_i hk
    · rw [if_pos hk]
      exact orFailure_eq_ok hw
    · rw [if_neg hk]
      exact orFailure_eq_ok hw
  · exact .inr lost

theorem items_carries (hS : S.Closed) (hm : mode = .lenient → ∀ c, ¬ S.types (.capsule c))
    (hd : S.deep) (below : CarriesBelow S mode mark v.height) {source wanted : Ty}
    {kind : CollectionKind} (hk : kind ≠ .map) (hs : source = .list s ∨ source = .set s)
    (h : plan? mode s wanted = some c) (hv : Applicable S source (kind.type wanted) v)
    (hw : Rule.apply (runPart v.height) (.collection kind mode c wanted) t v path site = .ok w)
    (hn : mark ∈ v.deepMarks) :
    mark ∈ w.deepMarks ∨ (toward t (.collection kind mode c wanted)).Loses mark v := by
  have task {x : Value} := element_task (x := x) (hs.imp_right .inl) h hv False.elim
  rcases hs with rfl | rfl
  · obtain ⟨e, items, rfl, -, parts⟩ := hv.list
    obtain ⟨x, hx, hn⟩ := hv.marked hn
    rw [Rule.apply] at hw
    obtain ⟨-, -, hw⟩ := bind_eq_ok hw
    rw [if_neg hk] at hw
    obtain ⟨ys, runs, outcome⟩ := convertItems_ok rfl hw
    rw [Value.map_snd_numbered] at runs
    obtain ⟨y, hy, path, site, hr⟩ := exists_right_of_forall₂ runs hx
    obtain ⟨-, zs, hh, hw⟩ := outcome.resolve_left fun empty => List.ne_nil_of_mem hy empty.1
    have made : ∀ y ∈ ys, Made S (.collection kind mode c wanted) (.bare (.list e items)) y := by
      intro y hy
      obtain ⟨x, hx, path, site, hr⟩ := exists_left_of_forall₂ runs hy
      exact Takes.made hS hm hd (.element hx) (task (parts x hx).2) hr
    rcases Takes.carries below (.element hx) (task (parts x hx).2) hr hn with hn | lost
    · exact collected_carries hS below made hh hw hy hn
    · exact .inr lost
  · -- the elements of a set have no marks
    obtain ⟨e, items, rfl, -, -⟩ := hv.set
    obtain ⟨x, hx, -⟩ := hv.marked hn
    cases hx

theorem mapItems_carries (hS : S.Closed) (hm : mode = .lenient → ∀ c, ¬ S.types (.capsule c))
    (hd : S.deep) (below : CarriesBelow S mode mark v.height) {wanted : Ty}
    (h : plan? mode s wanted = some c) (hv : Applicable S (.map s) (.map wanted) v)
    (hw : Rule.apply (runPart v.height) (.collection .map mode c wanted) t v path site = .ok w)
    (hn : mark ∈ v.deepMarks) :
    mark ∈ w.deepMarks ∨ (toward t (.collection .map mode c wanted)).Loses mark v := by
  have task {x : Value} := @element_task _ _ _ _ _ _ _ _ .map _ (.inr (.inr rfl)) h hv False.elim x
  obtain ⟨e, entries, rfl, -, proper, parts⟩ := hv.map
  obtain ⟨x, hx, hn⟩ := hv.marked hn
  rw [Rule.apply] at hw
  obtain ⟨-, -, hw⟩ := bind_eq_ok hw
  rw [if_pos rfl] at hw
  obtain ⟨ys, runs, outcome⟩ := convertEntries_ok proper.2 rfl hw
  obtain ⟨y, hy, path, site, hr⟩ := exists_right_of_forall₂ runs hx
  obtain ⟨-, zs, hh, hw⟩ := outcome.resolve_left fun empty => List.ne_nil_of_mem hy empty.1
  have made : ∀ y ∈ ys, Made S (.collection .map mode c wanted) (.bare (.map e entries)) y := by
    intro y hy
    obtain ⟨x, hx, path, site, hr⟩ := exists_left_of_forall₂ runs hy
    exact Takes.made hS hm hd (.element hx) (task (parts x hx).2) hr
  have length : ys.length = (names entries).length := by
    rw [← runs.length_eq, values, names, List.length_map, List.length_map]
  rcases Takes.carries below (.element hx) (task (parts x hx).2) hr hn with hn | lost
  · exact mapped_carries hS below proper length made hh hw hy hn
  · exact .inr lost

theorem entries_carries (hS : S.Closed) (hm : mode = .lenient → ∀ c, ¬ S.types (.capsule c))
    (hd : S.deep) (below : CarriesBelow S mode mark v.height) {sources : List (String × Ty)}
    {os : List String} {wanted a : Ty} {plans : List (String × Conversion)}
    (ha : Rule.Gathers mode (values sources) wanted a)
    (h : Paired (fun _ s c => plan? mode s a = some c) sources plans)
    (hv : Applicable S (.object sources os) (.map wanted) v)
    (hw : Rule.apply (runPart v.height) (.entries mode plans) t v path site = .ok w)
    (hn : mark ∈ v.deepMarks) :
    mark ∈ w.deepMarks ∨ (toward t (.entries mode plans)).Loses mark v := by
  obtain ⟨attributes, rfl, same, proper, parts⟩ := hv.object hS
  obtain ⟨x, hx, hn⟩ := hv.marked hn
  obtain ⟨key, hx⟩ := exists_of_mem_values hx
  have task {name : String} {x : Value} {c : Conversion} (hx : (name, x) ∈ attributes)
      (hc : plans.lookup name = some c) := entries_task hS ha h hv False.elim parts hx hc
  rw [Rule.apply] at hw
  obtain ⟨converted, hc, hw⟩ := bind_eq_ok hw
  obtain ⟨zs, hh, hw⟩ := bind_eq_ok hw
  have paired := convertNamed_ok (Value.namedElements_of_content proper.2 rfl) hc
  have keys : names converted = names attributes := by
    rw [← paired.names_eq, covered_eq_self h same]
  have made : ∀ y ∈ values converted,
      Made S (.entries mode plans) (.bare (.object attributes)) y := by
    intro y hy
    obtain ⟨name, hy⟩ := exists_of_mem_values hy
    obtain ⟨x, hx, c, path, site, hl, hr⟩ := paired.mem_right hy
    have hx := (List.mem_filter.1 hx).1
    obtain ⟨s, task⟩ := task hx hl
    exact Takes.made hS hm hd (.named rfl hx hl) task hr
  have planned (c : Conversion) (hc : plans.lookup key = some c) :
      ∃ s t, Task S mode False s t c x :=
    (task hx hc).imp fun _ task => ⟨a, task⟩
  rcases named_carries (.entries mode plans) below rfl paired hx planned hn with
    ⟨y, hy, hn⟩ | lost
  · refine mapped_carries hS below (keys ▸ proper) ?_ made hh (orFailure_eq_ok hw) (mem_values hy) hn
    rw [values, names, List.length_map, List.length_map]
  · exact .inr lost

theorem variant_carries (below : CarriesBelow S mode mark v.height)
    {targets : List (String × Ty)} {plans : List (String × Conversion)} {key : String}
    {complaint : Complaint} (hr : rule.byName? = some plans) (hx : (key, x) ∈ v.content.named)
    (normal : normalize key = key)
    (task : ∀ c, plans.lookup key = some c → ∃ s t, Task S mode False s t c x)
    (hw : convertVariant (runPart v.height) plans (.union targets) key x complaint path site = .ok w)
    (hn : mark ∈ x.deepMarks) : mark ∈ w.deepMarks ∨ (toward t rule).Loses mark v := by
  unfold convertVariant at hw
  split at hw
  · cases hw
  rename_i c hc
  obtain ⟨inner, hrun, hw⟩ := bind_eq_ok hw
  obtain ⟨s, t, task⟩ := task c hc
  obtain ⟨-, -, -, rfl⟩ := Value.union_eq_ok normal (orFailure_eq_ok hw)
  exact (Takes.carries below (.named hr hx hc) task hrun hn).imp_left
    (Value.mem_deepMarks_of_part List.mem_cons_self)

theorem union_carries (hS : S.Closed) (hd : S.deep) (below : CarriesBelow S mode mark v.height)
    {sources targets : List (String × Ty)} {plans : List (String × Conversion)}
    (h : Paired (fun name s c => ∃ t, targets.lookup name = some t ∧ plan? mode s t = some c)
      sources plans)
    (hv : Applicable S (.union sources) (.union targets) v)
    (hw : Rule.apply (runPart v.height) (.union plans) (.union targets) v path site = .ok w)
    (hn : mark ∈ v.deepMarks) : mark ∈ w.deepMarks ∨ (toward t (.union plans)).Loses mark v := by
  obtain ⟨variants, name, inner, rfl, normal, -, parts⟩ := hv.union hS hd
  obtain ⟨x, hx, hn⟩ := hv.marked hn
  cases List.mem_singleton.1 hx
  rw [Rule.apply] at hw
  obtain ⟨_, eq, hw⟩ := bind_eq_ok hw
  cases eq
  refine variant_carries below rfl (List.mem_singleton_self _) normal (fun c hc => ?_) hw hn
  obtain ⟨s, t, -, -, task⟩ := variant_task (.inl rfl) h hv False.elim parts hc
  exact ⟨s, t, task⟩

theorem select_carries (hS : S.Closed) (below : CarriesBelow S .lenient mark v.height)
    {sources targets : List (String × Ty)} {os : List String} {plans : List (String × Conversion)}
    (h : Paired (fun name s c => ∃ t, targets.lookup name = some t ∧
      plan? .lenient s t = some c) sources plans)
    (hv : Applicable S (.object sources os) (.union targets) v)
    (hw : Rule.apply (runPart v.height) (.select plans) (.union targets) v path site = .ok w)
    (hn : mark ∈ v.deepMarks) : mark ∈ w.deepMarks ∨ (toward t (.select plans)).Loses mark v := by
  obtain ⟨attributes, rfl, same, proper, parts⟩ := hv.object hS
  obtain ⟨x, hx, hn⟩ := hv.marked hn
  rw [Rule.apply, convertSelection] at hw
  obtain ⟨_, eq, hw⟩ := bind_eq_ok hw
  cases eq
  obtain ⟨selection, hs, hw⟩ := bind_eq_ok hw
  rcases select_leaves proper.2 hs with ⟨rfl, unknown⟩ | ⟨name, part, rfl, others, -⟩
  · exact .inr (.unselected rfl hx hn (.inr unknown))
  obtain ⟨key, hx⟩ := exists_of_mem_values hx
  rcases others key x hx with null | eq
  · exact .inr (.unselected rfl (mem_values hx) hn (.inl null))
  cases eq
  refine variant_carries below rfl hx (proper.2 name (mem_names hx)) (fun c hc => ?_) hw hn
  obtain ⟨s, t, -, -, task⟩ := variant_task (.inr ⟨os, rfl⟩) h hv False.elim
    (fun s hs => parts name x s hx hs) hc
  exact ⟨s, t, task⟩

/-- A planned rule carries a mark, unless it loses it, if the runs of lower values do. -/
theorem Planned.apply_carries (hS : S.Closed) (hm : mode = .lenient → ∀ c, ¬ S.types (.capsule c))
    (hd : S.deep) (below : CarriesBelow S mode mark v.height) (h : Planned mode s t rule)
    (hl : rule ≠ .decideLater) (hv : Applicable S s t v)
    (hw : rule.apply (runPart v.height) t v path site = .ok w) (hn : mark ∈ v.deepMarks) :
    mark ∈ w.deepMarks ∨ (toward t rule).Loses mark v := by
  cases h with
  | toDynamic | same =>
    cases hw
    exact .inl hn
  | later => cases hl rfl
  | object h => exact object_carries hS below h hv hw hn
  | tuple length h => exact tuple_carries below length h hv hw hn
  | items hk hs h => exact items_carries hS hm hd below hk hs h hv hw hn
  | mapItems h => exact mapItems_carries hS hm hd below h hv hw hn
  | gather _ ha h => exact gather_carries hS hm hd below ha h hv hw hn
  | emptyMap =>
    obtain ⟨x, hx, -⟩ := hv.marked hn
    obtain ⟨attributes, rfl, same, -⟩ := hv.object hS
    rw [names_nil, names, List.map_eq_nil_iff] at same
    subst same
    cases hx
  | entries _ ha h => exact entries_carries hS hm hd below ha h hv hw hn
  | pick lenient h =>
    subst lenient
    exact pick_carries below h ((hv.target.mono hS.headed).wellFormed).names_object hv hw hn
  | union h => exact union_carries hS hd below h hv hw hn
  | select lenient _ h =>
    subst lenient
    exact select_carries hS below h hv hw hn
  | primitive h => exact absurd hn (hv.primitive_unmarked h)
  | ofCapsules lenient hc => exact absurd hc (hv.noCapsule (hm lenient))

end Rule

namespace Conversion

/-- A run carries all marks of a value and of its parts but those that the conversion loses. -/
theorem run_carries (hS : S.Closed) (hm : mode = .lenient → ∀ c, ¬ S.types (.capsule c))
    (hd : S.deep) {s t : Ty} {c : Conversion} {v w : Value} {path : Path} {site : List Nat}
    (task : Task S mode False s t c v) (hw : c.run v path site = .ok w)
    (hn : mark ∈ v.deepMarks) : mark ∈ w.deepMarks ∨ c.Loses mark v := by
  induction ht : v.height using Nat.strong_induction_on generalizing s t c v path site w with
  | _ n ih =>
    subst ht
    have below : CarriesBelow S mode mark v.height := fun task lower hr hn =>
      ih _ lower task hr hn rfl
    rw [run_eq] at hw
    cases task.leads with
    | forget =>
      cases hw
      rcases Value.mem_deepMarks.1 hn with own | ⟨x, hx, hn⟩
      · exact .inl (Value.mem_deepMarks_withMarks.2 (.inl own))
      · exact .inr (.forgotten hx hn)
    | planned hp =>
      obtain ⟨rule, rfl, planned⟩ := planned_of_plan? hp
      by_cases hne : t = .dynamic
      · cases hne
        cases hw
        exact .inl hn
      -- the marks of the value itself are added to the result
      have carry {r : Except Failure Value} {w : Value}
          (hw : r.map (fun w => w.withMarks v.marks) = .ok w)
          (inner : ∀ y, r = .ok y → mark ∈ v.unmark.deepMarks →
            mark ∈ y.deepMarks ∨ (toward t rule).Loses mark v) :
          mark ∈ w.deepMarks ∨ (toward t rule).Loses mark v := by
        obtain ⟨y, hy, rfl⟩ := map_eq_ok hw
        rcases Value.mem_deepMarks.1 hn with own | parts
        · exact .inl (Value.mem_deepMarks_withMarks.2 (.inl own))
        · exact (inner y hy (Value.mem_deepMarks.2 (.inr parts))).imp_left fun hn =>
            Value.mem_deepMarks_withMarks.2 (.inr hn)
      cases known : v.isKnown with
      | false =>
        rw [runWith_unknown hne known] at hw
        refine carry hw fun y _ hn => ?_
        obtain ⟨r, hr⟩ := Value.unmark_of_unknown known
        rw [hr] at hn
        cases hn
      | true =>
        cases null : v.isNull with
        | true =>
          rw [runWith_null hne null] at hw
          refine carry (r := .ok (.null (v.ty.converted t))) hw fun y _ hn => ?_
          obtain ⟨m, c⟩ := v
          cases c with
          | null => cases hn
          | _ => cases null
        | false =>
          rw [runWith_decided hne known null] at hw
          refine carry hw fun y hy hn => ?_
          have hv' : Applicable S s t v.unmark := ⟨Value.decided_unmark known null,
            task.within.unmark, by rw [Value.ty_unmark]; exact task.fills, task.source, task.target⟩
          have below : CarriesBelow S mode mark v.unmark.height := by
            rwa [Value.height_unmark]
          rw [← Value.height_unmark v] at hy
          refine Or.imp_right Loses.of_unmark ?_
          rcases Rule.applyDecided_ok hy with ⟨hl, hy⟩ | ⟨rfl, later, hr, hy⟩
          · exact planned.apply_carries hS hm hd below hl hv' hy hn
          · have lenient : mode = .lenient := by cases planned <;> assumption
            subst lenient
            have hv'' : Applicable S v.unmark.ty t v.unmark := ⟨hv'.decided, hv'.within,
              .refl (hv'.within.wellFormed_ty hS), hv'.within.ty hS, hv'.target⟩
            have planned := Rule.planned_of_between? hr
            exact (planned.apply_carries hS hm hd below
              (planned.ne_decideLater hv'.decided.ty_ne_dynamic (hv''.noCapsule (hm rfl))) hv'' hy
              hn).imp_right (.later hr)

end Conversion

namespace Value

variable {v : Value}

/-- A mark anywhere in a value is found in what the value is converted to and in what it becomes
where its type is unified with others, unless the conversion loses it: with an attribute or key that
there is no place for, with an attribute that selects nothing, or in a value that is forgotten. -/
theorem marks_carried (hv : v.Within .convertible) (hn : mark ∈ v.deepMarks) :
    (∀ (t : Ty) (site : List Nat) (w : Value), t.Everywhere Scope.convertible.types →
      v.convert t site = .ok w → mark ∈ w.deepMarks ∨
        ∃ c, Conversion.plan? .lenient v.ty t = some c ∧ c.Loses mark v) ∧
    ∀ (mode : Mode) (types : List Ty) (u : Unification) (i : Nat) (c : Option Conversion)
      (path : Path) (site : List Nat) (w : Value),
      (∀ t ∈ types, t.Everywhere Scope.convertible.types) →
      Unification.plan? mode types = some u → types[i]? = some v.ty → u.conversions[i]? = some c →
      Conversion.runOrKeep c v path site = .ok w → mark ∈ w.deepMarks ∨
        ∃ d, c = some d ∧ d.Loses mark v := by
  have hS := Scope.closed_convertible
  have noCapsule (c : CapsuleType) : ¬ Scope.convertible.types (.capsule c) :=
    fun h => Bool.noConfusion h.2
  refine ⟨fun t site w ht h => ?_, fun mode types u i c path site w all hu hs hc h => ?_⟩
  · unfold convert at h
    split at h
    · cases h
      exact .inl hn
    split at h
    · rename_i c hp
      have task : Task .convertible .lenient False v.ty t c v :=
        ⟨hv.fitted hS, .planned hp, .ofEverywhere hS.structural ht, False.elim⟩
      exact (Conversion.run_carries hS (fun _ => noCapsule) trivial task h hn).imp_right
        fun lost => ⟨c, hp, lost⟩
    · cases h
  · cases getElem?_of_forall₂ (Unification.plan?_conversions hu) hs hc with
    | stay =>
      cases h
      exact .inl hn
    | @convert c leads =>
      have target := Unification.target_everywhere hS.structural
        (List.ne_nil_of_mem (List.mem_of_getElem? hs)) hu all
      have task : Task .convertible mode False v.ty u.target c v :=
        ⟨hv.fitted hS, leads, .ofEverywhere hS.structural target, False.elim⟩
      exact (Conversion.run_carries hS (fun _ => noCapsule) trivial task h hn).imp_right
        fun lost => ⟨c, rfl, lost⟩

/-- A tuple with a marked element. -/
def markedTuple : Value :=
  .bare (.tuple [(Value.bool true).withMarks (.ofList ["m"])])

omit [Host] in
/-- The element keeps its mark when it becomes a text. -/
theorem marks_carried_element :
    letI := Host.plain
    let t : Ty := .tuple [.string]
    "m" ∈ markedTuple.deepMarks ∧
      (∃ w, markedTuple.convert t [] = .ok w ∧ ("m" ∈ w.deepMarks ∨
        ∃ c, Conversion.plan? .lenient markedTuple.ty t = some c ∧ c.Loses "m" markedTuple)) ∧
      ∃ u c w, Unification.plan? .safe [markedTuple.ty, t] = some u ∧ u.conversions[0]? = some c ∧
        Conversion.runOrKeep c markedTuple .root [] = .ok w ∧ ("m" ∈ w.deepMarks ∨
          ∃ d, c = some d ∧ d.Loses "m" markedTuple) := by
  let := Host.plain
  intro t
  have hS := Scope.closed_convertible
  have tuple {e : Ty} (he : Scope.convertible.types e) (leaf : e.components = []) :
      (Ty.tuple [e]).Everywhere Scope.convertible.types := by
    refine Ty.everywhere_tuple.2 ⟨⟨⟨⟨Names.proper_nil, by simp⟩, ?_⟩, rfl⟩, fun u hu => ?_⟩
    · change 1 ≤ Refining.lengthLimit
      decide
    · obtain rfl := List.mem_singleton.1 hu
      exact (Ty.everywhere_leaf leaf).2 he
  have target : t.Everywhere Scope.convertible.types := tuple hS.structural.string rfl
  have within : markedTuple.Within .convertible := by
    refine .tuple (tuple (e := .bool) hS.structural.bool rfl).here fun w hw => ?_
    obtain rfl := List.mem_singleton.1 hw
    exact Within.withMarks .bool _
  have marked : "m" ∈ markedTuple.deepMarks := by
    decide
  have all : ∀ u ∈ [markedTuple.ty, t], u.Everywhere Scope.convertible.types :=
    List.forall_mem_cons.2 ⟨within.ty hS, List.forall_mem_singleton.2 target⟩
  obtain ⟨convert, unify⟩ := marks_carried within marked
  refine ⟨marked, ?_, ?_⟩
  · have runs : (markedTuple.convert t []).toOption.isSome = true := by
      cbv
    cases h : markedTuple.convert t [] with
    | ok w => exact ⟨w, rfl, convert t [] w target h⟩
    | error => rw [h] at runs; cases runs
  · have runs : ((Unification.plan? .safe [markedTuple.ty, t]).bind fun u =>
        u.conversions[0]?.map fun c =>
          (Conversion.runOrKeep c markedTuple .root []).toOption.isSome) = some true := by
      cbv
    obtain ⟨u, hu, runs⟩ := Option.bind_eq_some_iff.1 runs
    obtain ⟨c, hc, runs⟩ := Option.map_eq_some_iff.1 runs
    cases h : Conversion.runOrKeep c markedTuple .root [] with
    | ok w => exact ⟨u, c, w, hu, hc, h, unify .safe _ u 0 c .root [] w all hu rfl hc h⟩
    | error => rw [h] at runs; cases runs

/-- An object with an attribute that is unknown and marked. -/
def markedUnknown : Value :=
  .bare (.object [("a", (Value.unknown .number).withMarks (.ofList ["m"]))])

omit [Host] in
/-- The attribute of an object leaves open which variant is selected, and its mark is lost, although
the union has a variant for it. -/
theorem marks_carried_unselected :
    ¬ ∀ (_ : Host) (attributes : List (String × Value)) (variants : List (String × Ty))
      (site : List Nat) (w : Value) (mark : String),
      (Ty.union variants).Everywhere Scope.convertible.types →
      (bare (.object attributes)).Within .convertible → names attributes ⊆ names variants →
      (bare (.object attributes)).convert (.union variants) site = .ok w →
      mark ∈ (bare (.object attributes)).deepMarks → mark ∈ w.deepMarks := by
  intro claim
  let := Host.plain
  have hS := Scope.closed_convertible.structural
  have target : (Ty.union [("a", .number)]).Everywhere Scope.convertible.types := by
    refine Ty.everywhere_union.2 ⟨⟨⟨headed_singleton rfl, Nat.zero_le _⟩, rfl⟩, fun u hu => ?_⟩
    obtain rfl := List.mem_singleton.1 hu
    exact (Ty.everywhere_leaf rfl).2 hS.number
  have within : markedUnknown.Within .convertible := by
    refine .object ?_ fun w hw => ?_
    · have object := everywhere_object_singleton hS.number rfl
      simpa only [entryTypes, ty_withMarks, unknown, refined, ty, bare] using object.here
    · obtain rfl := List.mem_singleton.1 hw
      exact (within_unknown Scope.closed_convertible ((Ty.everywhere_leaf rfl).2 hS.number)).withMarks _
  have runs : markedUnknown.convert (.union [("a", .number)]) [] =
      .ok (.refined (.union [("a", .number)]) .notNull) := by
    cbv
  have lost := claim _ _ [("a", .number)] [] _ "m" target within (List.Subset.refl _) runs (by decide)
  cases lost

end Value

end ValueAlgebra
