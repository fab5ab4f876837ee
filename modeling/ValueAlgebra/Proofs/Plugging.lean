import ValueAlgebra.Proofs.OpenParts
import ValueAlgebra.Proofs.Plans

/-!
# One type in the place of all dynamic parts

`Ty.plug` puts one type in the place of each dynamic part of a type. Two values of a type that is
plugged in different ways both convert to the type, but have nothing in common: where there is a
dynamic part, no type without dynamic parts is the target of safe conversions from both.

Main statements:

* `Ty.Fills.filledFrom_eq`: a type that fills another one is what the other is filled with from it.
* `Conversion.plan?_isSome_of_fills`: a type converts to each type that it fills.
* `Conversion.closed_of_plugged`: the ways to plug a type have no target without dynamic parts, unless
  there is nothing to plug.
-/

namespace ValueAlgebra

open Entries

namespace Ty

/-! ## Plugging -/

mutual

/-- Puts a type in the place of each dynamic part. -/
def plug : Ty → Ty → Ty
  | .dynamic, u => u
  | .list e, u => .list (e.plug u)
  | .set e, u => .set (e.plug u)
  | .map e, u => .map (e.plug u)
  | .object attributes optional, u => .object (plugEntries attributes u) optional
  | .tuple elements, u => .tuple (plugAll elements u)
  | .union variants, u => .union (plugEntries variants u)
  | .number, _ => .number
  | .string, _ => .string
  | .bool, _ => .bool
  | .capsule c, _ => .capsule c

def plugAll : List Ty → Ty → List Ty
  | [], _ => []
  | t :: ts, u => t.plug u :: plugAll ts u

def plugEntries : List (String × Ty) → Ty → List (String × Ty)
  | [], _ => []
  | (name, t) :: ts, u => (name, t.plug u) :: plugEntries ts u

end

variable {u t : Ty}

theorem plugAll_eq_map (ts : List Ty) (u : Ty) : plugAll ts u = ts.map fun t => t.plug u := by
  induction ts with
  | nil => rfl
  | cons t ts ih => rw [plugAll, ih, List.map_cons]

theorem plugEntries_eq_mapValues (ts : List (String × Ty)) (u : Ty) :
    plugEntries ts u = mapValues (fun t => t.plug u) ts := by
  induction ts with
  | nil => rfl
  | cons t ts ih =>
    obtain ⟨name, t⟩ := t
    rw [plugEntries, ih]
    rfl

theorem plug_fills (h : t.WellFormed) : (t.plug u).Fills t := by
  unfold WellFormed at h
  induction h with
  | @intro t here inside ih =>
    have entries {vs : List (String × Ty)} {name : String} {a b : Ty} (hd : (names vs).Nodup)
        (hv : ∀ b ∈ values vs, (b.plug u).Fills b) (ha : (name, a) ∈ plugEntries vs u)
        (hb : (name, b) ∈ vs) : a.Fills b := by
      rw [plugEntries_eq_mapValues] at ha
      obtain ⟨c, hc, rfl⟩ := mem_mapValues.1 ha
      rw [eq_of_mem hd hc hb]
      exact hv b (mem_values hb)
    cases t with
    | dynamic => exact .dynamic _
    | number => simp only [plug, Fills.number]
    | string => simp only [plug, Fills.string]
    | bool => simp only [plug, Fills.bool]
    | capsule c => simp only [plug, Fills.capsule]
    | list e =>
      rw [plug]
      exact .list (ih e List.mem_cons_self)
    | set e =>
      rw [plug]
      exact .set (ih e List.mem_cons_self)
    | map e =>
      rw [plug]
      exact .map (ih e List.mem_cons_self)
    | object as os =>
      rw [plug]
      refine .object ?_ (fun name a b => entries here.1.nodup ih) (List.Subset.refl _)
      rw [plugEntries_eq_mapValues, names_mapValues]
    | union vs =>
      rw [plug]
      refine .union ?_ fun name a b => entries here.1.nodup ih
      rw [plugEntries_eq_mapValues, names_mapValues]
    | tuple ts =>
      rw [plug, plugAll_eq_map]
      refine .tuple (List.length_map _) fun i a b ha hb => ?_
      rw [List.getElem?_map, hb] at ha
      cases ha
      exact ih b (List.mem_of_getElem? hb)

/-- A plugged type has the structural properties that the type has apart from its dynamic parts, if
the plug has them. -/
theorem Everywhere.plug {p : Ty → Prop} (hp : Structural p) (hu : u.Everywhere p)
    (ho : ∀ as os, p (.object as os) → os = [])
    (h : t.Everywhere fun t => t = .dynamic ∨ p t) : (t.plug u).Everywhere p := by
  induction h with
  | @intro t here inside ih =>
    have entries {vs : List (String × Ty)} (hv : ∀ b ∈ values vs, (b.plug u).Everywhere p) :
        ∀ a ∈ values (plugEntries vs u), a.Everywhere p := by
      rw [plugEntries_eq_mapValues, values_mapValues]
      exact List.forall_mem_map.2 hv
    cases t with
    | dynamic => exact hu
    | number | string | bool | capsule =>
      rw [Ty.plug]
      exact (everywhere_leaf rfl).2 (here.resolve_left (by intro h; cases h))
    | list e =>
      rw [Ty.plug]
      exact everywhere_list.2 ⟨hp.list _, ih e List.mem_cons_self⟩
    | set e =>
      rw [Ty.plug]
      exact everywhere_set.2 ⟨hp.set _, ih e List.mem_cons_self⟩
    | map e =>
      rw [Ty.plug]
      exact everywhere_map.2 ⟨hp.map _, ih e List.mem_cons_self⟩
    | object as os =>
      have here := here.resolve_left (by intro h; cases h)
      cases ho as os here
      rw [Ty.plug]
      refine everywhere_object.2 ⟨hp.object here ?_, entries ih⟩
      rw [plugEntries_eq_mapValues, names_mapValues]
    | union vs =>
      rw [Ty.plug]
      have parts := entries ih
      refine everywhere_union.2 ⟨hp.union (here.resolve_left (by intro h; cases h)) ?_ fun a ha =>
        (parts a ha).mono fun u hu => ?_, parts⟩
      · rw [plugEntries_eq_mapValues, names_mapValues]
      · cases u with
        | object as os => exact ho as os hu
        | _ => rfl
    | tuple ts =>
      rw [Ty.plug, plugAll_eq_map]
      exact everywhere_tuple.2 ⟨hp.tuple (here.resolve_left (by intro h; cases h)) (List.length_map _),
        List.forall_mem_map.2 ih⟩

/-- Nothing is left open by a plug that leaves nothing open. -/
theorem hasDynamic_plug (hu : u.hasDynamic = false) (t : Ty) : (t.plug u).hasDynamic = false := by
  induction t using Ty.induction with
  | _ t ih =>
    have entries {vs : List (String × Ty)}
        (hv : ∀ b ∈ values vs, (b.plug u).hasDynamic = false) :
        anyHasDynamicEntry (plugEntries vs u) = false := by
      rw [anyHasDynamicEntry_eq_false, plugEntries_eq_mapValues, values_mapValues]
      exact List.forall_mem_map.2 hv
    cases t with
    | dynamic => simpa only [plug] using hu
    | number | string | bool | capsule => simp only [plug, hasDynamic]
    | list e | set e | map e =>
      rw [plug, hasDynamic]
      exact ih e List.mem_cons_self
    | object | union =>
      rw [plug, hasDynamic]
      exact entries ih
    | tuple ts =>
      rw [plug, hasDynamic, anyHasDynamic_eq_false, plugAll_eq_map]
      exact List.forall_mem_map.2 ih

/-! ## Filling from a type that fills -/

variable [Host]

theorem map_filledFrom_eq {as bs : List (String × Ty)} {source : String → Ty}
    (hn : names as = names bs)
    (h : ∀ name a b, (name, a) ∈ as → (name, b) ∈ bs → b.filledFrom (source name) = a) :
    bs.map (fun t => (t.1, t.2.filledFrom (source t.1))) = as := by
  induction bs generalizing as with
  | nil => exact (List.map_eq_nil_iff.1 hn).symm
  | cons entry bs ih =>
    obtain ⟨name, b⟩ := entry
    cases as with
    | nil => cases hn
    | cons first as =>
      obtain ⟨other, a⟩ := first
      rw [names_cons, names_cons, List.cons.injEq] at hn
      obtain ⟨rfl, hn⟩ := hn
      rw [List.map_cons, ih hn fun name a b ha hb =>
        h name a b (List.mem_cons_of_mem _ ha) (List.mem_cons_of_mem _ hb)]
      rw [h other a b List.mem_cons_self List.mem_cons_self]

/-- What a type is filled with from a type that fills it is the latter. -/
theorem Fills.filledFrom_eq {s : Ty} (h : s.Fills t) (hw : t.WellFormed) (ho : t.OptionalFree) :
    t.filledFrom s = s := by
  induction h with
  | dynamic => rw [filledFrom]
  | number | string | bool | capsule => simp only [filledFrom]
  | list _ ih =>
    rw [filledFrom, itemSource, ih (everywhere_list.1 hw).2 (everywhere_list.1 ho).2]
  | set _ ih =>
    rw [filledFrom, itemSource, ih (everywhere_set.1 hw).2 (everywhere_set.1 ho).2]
  | map _ ih =>
    rw [filledFrom, entrySource, ih (everywhere_map.1 hw).2 (everywhere_map.1 ho).2]
  | @object as bs os ps hn _ optional ih =>
    obtain rfl : ps = [] := ho.here
    obtain rfl : os = [] := List.subset_nil.1 optional
    have nodup : (names as).Nodup := hn ▸ hw.names_object.nodup
    rw [filledFrom, fillAttributes_eq_map,
      @map_filledFrom_eq _ _ _ (fun name => attributeSource name _) hn fun name a b ha hb => ?_]
    rw [attributeSource, lookup_of_mem nodup ha, Option.getD_some,
      ih name a b ha hb (hw.ofAttribute hb) (ho.ofAttribute hb)]
  | @union as bs hn _ ih =>
    have nodup : (names as).Nodup := hn ▸ hw.names_union.nodup
    rw [filledFrom, fillVariants_eq_map,
      @map_filledFrom_eq _ _ _ (fun name => variantSource name _) hn fun name a b ha hb => ?_]
    rw [variantSource, lookup_of_mem nodup ha, Option.getD_some,
      ih name a b ha hb (hw.ofVariant hb) (ho.ofVariant hb)]
  | @tuple as bs hl _ ih =>
    rw [filledFrom, itemSources, if_pos hl]
    congr 1
    refine List.ext_getElem? fun i => ?_
    rcases lt_or_ge i bs.length with hi | hi
    · have hf := List.getElem?_eq_getElem (hi.trans_eq (length_fillItems bs as).symm)
      have hb := List.getElem?_eq_getElem hi
      have ha := List.getElem?_eq_getElem (hi.trans_eq hl.symm)
      rw [hf, getElem?_fillItems hf hb, ha, Option.getD_some,
        ih i _ _ ha hb (hw.ofItem (List.mem_of_getElem? hb)) (ho.ofItem (List.mem_of_getElem? hb))]
    · rw [List.getElem?_eq_none, List.getElem?_eq_none]
      · rwa [hl]
      · rwa [length_fillItems]

end Ty

namespace Conversion

variable [Host] {mode : Mode}

/-! ## Types that convert part by part -/

theorem plan?_list_isSome {s t : Ty} :
    (plan? mode (.list s) (.list t)).isSome = (plan? mode s t).isSome := by
  by_cases eq : s = t
  · rw [eq, plan?_self, plan?_self]
  · rw [plan?, Rule.between?.eq_def, if_neg (by simp), if_neg (by simp), if_neg (by simpa using eq)]
    simp

theorem plan?_set_isSome {s t : Ty} :
    (plan? mode (.set s) (.set t)).isSome = (plan? mode s t).isSome := by
  by_cases eq : s = t
  · rw [eq, plan?_self, plan?_self]
  · rw [plan?, Rule.between?.eq_def, if_neg (by simp), if_neg (by simp), if_neg (by simpa using eq)]
    simp

theorem plan?_map_isSome {s t : Ty} :
    (plan? mode (.map s) (.map t)).isSome = (plan? mode s t).isSome := by
  by_cases eq : s = t
  · rw [eq, plan?_self, plan?_self]
  · rw [plan?, Rule.between?.eq_def, if_neg (by simp), if_neg (by simp), if_neg (by simpa using eq)]
    simp

theorem planNamed?_isSome {sources targets : List (String × Ty)}
    (h : ∀ name s, (name, s) ∈ sources →
      ∃ t, targets.lookup name = some t ∧ (plan? mode s t).isSome = true) :
    (planNamed? mode targets sources).isSome = true := by
  induction sources with
  | nil => rw [planNamed?]; rfl
  | cons entry sources ih =>
    obtain ⟨name, s⟩ := entry
    obtain ⟨t, ht, hp⟩ := h name s List.mem_cons_self
    obtain ⟨c, hc⟩ := Option.isSome_iff_exists.1 hp
    obtain ⟨plans, hps⟩ := Option.isSome_iff_exists.1
      (ih fun n u hu => h n u (List.mem_cons_of_mem _ hu))
    rw [planNamed?]
    simp [ht, hc, hps]

/-- Unions convert where every variant of the source has one of its name that it converts to. -/
theorem plan?_union_isSome {sources targets : List (String × Ty)}
    (h : ∀ name s, (name, s) ∈ sources →
      ∃ t, targets.lookup name = some t ∧ (plan? mode s t).isSome = true) :
    (plan? mode (.union sources) (.union targets)).isSome = true := by
  by_cases eq : Ty.union sources = .union targets
  · rw [eq]
    exact plan?_self
  · obtain ⟨plans, hp⟩ := Option.isSome_iff_exists.1 (planNamed?_isSome h)
    rw [plan?, Rule.between?.eq_def, if_neg (by simp), if_neg (by simp), if_neg eq]
    simp [hp]

/-- A type converts to each type that it fills. -/
theorem plan?_isSome_of_fills {s t : Ty} (h : s.Fills t) (hw : t.WellFormed) :
    (plan? mode s t).isSome = true := by
  induction h with
  | dynamic =>
    rw [plan?_dynamic]
    rfl
  | number | string | bool | capsule => exact plan?_self
  | list _ ih => exact plan?_list_isSome.trans (ih (Ty.everywhere_list.1 hw).2)
  | set _ ih => exact plan?_set_isSome.trans (ih (Ty.everywhere_set.1 hw).2)
  | map _ ih => exact plan?_map_isSome.trans (ih (Ty.everywhere_map.1 hw).2)
  | object hn _ _ ih =>
    refine plan?_object_isSome fun name b hb => ?_
    obtain ⟨a, ha⟩ := exists_lookup.2 (hn ▸ mem_names hb)
    exact ⟨a, ha, ih name a b (mem_of_lookup ha) hb (hw.ofAttribute hb)⟩
  | union hn _ ih =>
    refine plan?_union_isSome fun name a ha => ?_
    obtain ⟨b, hb⟩ := exists_lookup.2 (hn ▸ mem_names ha)
    exact ⟨b, hb, ih name a b ha (mem_of_lookup hb) (hw.ofVariant (mem_of_lookup hb))⟩
  | tuple hl _ ih =>
    refine plan?_tuple_isSome hl fun i a b ha hb => ?_
    exact ih i a b ha hb (hw.ofItem (List.mem_of_getElem? hb))

/-! ## Targets of plugged types -/

theorem isSome_of_plan?_object {sources targets : List (String × Ty)} {os optional : List String}
    {name : String} {s t : Ty} (hd : (names targets).Nodup) (hs : sources.lookup name = some s)
    (ht : (name, t) ∈ targets)
    (h : (plan? mode (.object sources os) (.object targets optional)).isSome = true) :
    (plan? mode s t).isSome = true := by
  by_cases eq : Ty.object sources os = .object targets optional
  · cases eq
    rw [eq_of_mem hd (mem_of_lookup hs) ht]
    exact plan?_self
  · rw [plan?, Rule.between?.eq_def, if_neg (by simp), if_neg (by simp), if_neg eq] at h
    obtain ⟨⟨plans, absent⟩, h⟩ := Option.isSome_iff_exists.1 (by simpa using h)
    have plan := planObject?_spec h
    rcases plan.cover name (mem_names ht) with hn | hn
    · obtain ⟨c, hc⟩ := exists_of_mem_names hn
      obtain ⟨s', t', hs', ht', hp⟩ := plan.converted name c hc
      rw [hs] at hs'
      cases hs'
      rw [eq_of_mem hd ht ht', hp]
      rfl
    · obtain ⟨a, ha⟩ := exists_of_mem_names hn
      have := (plan.missing name a ha).1
      rw [hs] at this
      cases this

theorem isSome_of_plan?_tuple {sources targets : List Ty} {i : Nat} {s t : Ty}
    (hs : sources[i]? = some s) (ht : targets[i]? = some t)
    (h : (plan? mode (.tuple sources) (.tuple targets)).isSome = true) :
    (plan? mode s t).isSome = true := by
  by_cases eq : Ty.tuple sources = .tuple targets
  · cases eq
    rw [hs] at ht
    cases ht
    exact plan?_self
  · rw [plan?, Rule.between?.eq_def, if_neg (by simp), if_neg (by simp), if_neg eq] at h
    obtain ⟨plans, h⟩ := Option.isSome_iff_exists.1 (by simpa using h)
    have hz : (sources.zip targets)[i]? = some (s, t) := by
      rw [List.getElem?_zip_eq_some]
      exact ⟨hs, ht⟩
    obtain ⟨c, -, hc⟩ := exists_right_of_forall₂ (planEach?_spec h).2 (List.mem_of_getElem? hz)
    rw [hc]
    rfl

theorem isSome_of_plan?_union {sources targets : List (String × Ty)} {name : String} {s t : Ty}
    (hd : (names targets).Nodup) (hs : (name, s) ∈ sources) (ht : (name, t) ∈ targets)
    (h : (plan? mode (.union sources) (.union targets)).isSome = true) :
    (plan? mode s t).isSome = true := by
  by_cases eq : Ty.union sources = .union targets
  · cases eq
    rw [eq_of_mem hd hs ht]
    exact plan?_self
  · rw [plan?, Rule.between?.eq_def, if_neg (by simp), if_neg (by simp), if_neg eq] at h
    obtain ⟨plans, h⟩ := Option.isSome_iff_exists.1 (by simpa using h)
    obtain ⟨c, -, t', ht', hp⟩ := (planNamed?_spec h).mem_left hs
    rw [eq_of_mem hd ht (mem_of_lookup ht'), hp]
    rfl

/-- A type that truth values and objects without attributes are safely converted to is `dynamic`. -/
theorem eq_dynamic_of_plan? {t : Ty} (hb : (plan? .safe .bool t).isSome = true)
    (ho : (plan? .safe (.object [] []) t).isSome = true) : t = .dynamic := by
  cases t with
  | dynamic => rfl
  | _ =>
    exfalso
    rw [plan?, Rule.between?.eq_def] at hb ho
    simp [PrimitiveRule.between?, Rule.ofCapsules?] at hb ho

/-- A type without dynamic parts is the target of all ways to plug a type only if there is nothing to
plug. -/
theorem closed_of_plugged {t e : Ty} (ht : t.Fills e) (hw : e.WellFormed)
    (hd : t.hasDynamic = false) (hb : (plan? .safe (e.plug .bool) t).isSome = true)
    (ho : (plan? .safe (e.plug (.object [] [])) t).isSome = true) : e.hasDynamic = false := by
  have plugged {u : Ty} {name : String} {a : Ty} {entries : List (String × Ty)}
      (ha : (name, a) ∈ entries) : (name, a.plug u) ∈ Ty.plugEntries entries u := by
    rw [Ty.plugEntries_eq_mapValues]
    exact mem_mapValues.2 ⟨a, ha, rfl⟩
  have names_plugged {u : Ty} {entries : List (String × Ty)} :
      names (Ty.plugEntries entries u) = names entries := by
    rw [Ty.plugEntries_eq_mapValues, names_mapValues]
  induction ht with
  | dynamic t =>
    rw [Ty.plug] at hb ho
    rw [eq_dynamic_of_plan? hb ho] at hd
    cases hd
  | number | string | bool | capsule => rfl
  | list _ ih =>
    rw [Ty.plug, plan?_list_isSome] at hb ho
    exact ih (Ty.everywhere_list.1 hw).2 hd hb ho
  | set _ ih =>
    rw [Ty.plug, plan?_set_isSome] at hb ho
    exact ih (Ty.everywhere_set.1 hw).2 hd hb ho
  | map _ ih =>
    rw [Ty.plug, plan?_map_isSome] at hb ho
    exact ih (Ty.everywhere_map.1 hw).2 hd hb ho
  | @object as bs os ps hn _ _ ih =>
    have nodup := hw.names_object.nodup
    rw [Ty.hasDynamic, Ty.anyHasDynamicEntry_eq_false] at hd ⊢
    intro b hm
    obtain ⟨name, hm⟩ := exists_of_mem_values hm
    obtain ⟨a, ha⟩ := exists_of_mem_names (hn ▸ mem_names hm)
    rw [Ty.plug] at hb ho
    have found {u : Ty} := lookup_of_mem (names_plugged (u := u) ▸ nodup) (plugged hm)
    exact ih name a b ha hm (hw.ofAttribute hm) (hd a (mem_values ha))
      (isSome_of_plan?_object (hn ▸ nodup) found ha hb)
      (isSome_of_plan?_object (hn ▸ nodup) found ha ho)
  | @union as bs hn _ ih =>
    have nodup := hw.names_union.nodup
    rw [Ty.hasDynamic, Ty.anyHasDynamicEntry_eq_false] at hd ⊢
    intro b hm
    obtain ⟨name, hm⟩ := exists_of_mem_values hm
    obtain ⟨a, ha⟩ := exists_of_mem_names (hn ▸ mem_names hm)
    rw [Ty.plug] at hb ho
    exact ih name a b ha hm (hw.ofVariant hm) (hd a (mem_values ha))
      (isSome_of_plan?_union (hn ▸ nodup) (plugged hm) ha hb)
      (isSome_of_plan?_union (hn ▸ nodup) (plugged hm) ha ho)
  | @tuple as bs hl _ ih =>
    rw [Ty.hasDynamic, Ty.anyHasDynamic_eq_false] at hd ⊢
    intro b hm
    obtain ⟨i, hi⟩ := List.mem_iff_getElem?.1 hm
    have ha := List.getElem?_eq_getElem ((List.getElem?_eq_some_iff.1 hi).1.trans_eq hl.symm)
    rw [Ty.plug, Ty.plugAll_eq_map] at hb ho
    have item {u : Ty} : (bs.map fun t => t.plug u)[i]? = some (b.plug u) := by
      rw [List.getElem?_map, hi, Option.map_some]
    exact ih i _ b ha hi (hw.ofItem hm) (hd _ (List.mem_of_getElem? ha))
      (isSome_of_plan?_tuple item ha hb) (isSome_of_plan?_tuple item ha ho)

end Conversion

end ValueAlgebra
