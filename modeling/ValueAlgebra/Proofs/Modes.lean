import ValueAlgebra.Proofs.OpenElements
import ValueAlgebra.Proofs.Targets

/-!
# Allowing more conversions

Whatever converts safely converts where lenient conversions are allowed, too, and so do types that
unify. The plans differ: the element type of a collection that is made of a structure is what the
types of its parts unify to, and lenient conversions may unify them to another type. Both results
are by one induction on weights, since conversions unify parts and unifications convert.

Main statement:

* `Mode.lenient_extends_safe`: lenient conversions and unifications exist wherever safe ones do.
-/

namespace ValueAlgebra

open Entries

variable [Host] {mode : Mode}

/-! ## Structures that become collections -/

namespace Conversion

theorem planAll?_isSome_iff {t : Ty} {sources : List Ty} :
    (planAll? mode t sources).isSome = true ↔
      ∀ s ∈ sources, (plan? mode s t).isSome = true := by
  induction sources with
  | nil => simp [planAll?]
  | cons s sources ih =>
    rw [List.forall_mem_cons, ← ih, planAll?]
    cases plan? mode s t with
    | none => simp
    | some c => cases planAll? mode t sources <;> simp

theorem planEntries?_isSome_iff {t : Ty} {sources : List (String × Ty)} :
    (planEntries? mode t sources).isSome = true ↔
      ∀ s ∈ values sources, (plan? mode s t).isSome = true := by
  induction sources with
  | nil => simp [planEntries?]
  | cons entry sources ih =>
    obtain ⟨name, s⟩ := entry
    rw [values_cons, List.forall_mem_cons, ← ih, planEntries?]
    cases plan? mode s t with
    | none => simp
    | some c => cases planEntries? mode t sources <;> simp

/-- A tuple of some types can become a collection with elements of a wanted type: all types convert
to it, or unify where it is open. They unify in `dynamic` only if there is nothing else. -/
def Gatherable (mode : Mode) (sources : List Ty) (wanted : Ty) : Prop :=
  if wanted = .dynamic ∧ sources ≠ [] then
    ∃ e, Unification.target? mode sources = some e ∧ (e = .dynamic → ∀ s ∈ sources, s = .dynamic)
  else ∀ s ∈ sources, (plan? mode s wanted).isSome = true

theorem target?_of_mem {types : List Ty} {s e : Ty} (h : Unification.target? mode types = some e)
    (hs : s ∈ types) : (plan? mode s e).isSome = true := by
  obtain ⟨u, hu, rfl⟩ := Option.map_eq_some_iff.1 h
  exact Unification.plan?_target_isSome hu hs

theorem gathering?_isSome_iff (kind : CollectionKind) {sources : List Ty} {wanted : Ty} :
    (Rule.gathering? mode kind sources wanted).isSome = true ↔
      Gatherable mode sources wanted := by
  have planned (e : Ty) : ((planAll? mode e sources).bind fun plans =>
      some (Rule.gather kind mode plans e)).isSome = true ↔
        ∀ s ∈ sources, (plan? mode s e).isSome = true := by
    rw [← planAll?_isSome_iff]
    cases planAll? mode e sources <;> simp
  have dynamic (t : Ty) : t.isDynamic = true ↔ t = .dynamic := by
    cases t <;> simp [Ty.isDynamic]
  rw [Rule.gathering?, Gatherable]
  simp only [Option.bind_eq_bind, Option.pure_def, Bool.and_eq_true, Bool.not_eq_true',
    List.isEmpty_eq_false_iff, dynamic]
  split
  · cases hu : Unification.plan? mode sources with
    | none => simp [Unification.target?, hu]
    | some u =>
      have all : ∀ s ∈ sources, (plan? mode s u.target).isSome = true := fun s hs =>
        Unification.plan?_target_isSome hu hs
      simp only [Unification.target?, hu, Option.map_some, Option.some.injEq, exists_eq_left',
        List.all_eq_false, dynamic]
      split
      · rename_i hd
        obtain ⟨ht, s, hs, hn⟩ := hd
        simp only [Option.bind_none, Option.isSome_none, Bool.false_eq_true, false_iff]
        exact fun h => hn (h ht s hs)
      · rename_i hd
        rw [Option.bind_some, planned]
        refine iff_of_true all fun ht s hs => ?_
        by_contra hn
        exact hd ⟨ht, s, hs, hn⟩
  · exact planned wanted

theorem plan?_tuple_isSome_iff {kind : CollectionKind} (hk : kind ≠ .map) {sources : List Ty}
    {wanted : Ty} :
    (plan? mode (.tuple sources) (kind.type wanted)).isSome = true ↔
      Gatherable mode sources wanted := by
  rw [← gathering?_isSome_iff kind]
  cases kind with
  | map => exact absurd rfl hk
  | list | set =>
    rw [CollectionKind.type, plan?, Rule.between?.eq_def, if_neg (by simp), if_neg (by simp),
      if_neg (by simp), Option.isSome_map]

theorem plan?_object_map_isSome_iff {sources : List (String × Ty)} {os : List String}
    {wanted : Ty} :
    (plan? mode (.object sources os) (.map wanted)).isSome = true ↔
      sources = [] ∨ if wanted = .dynamic then
        (Unification.target? mode (values sources)).isSome = true
      else ∀ s ∈ values sources, (plan? mode s wanted).isSome = true := by
  have planned (e : Ty) : ((planEntries? mode e sources).bind fun plans =>
      some (Rule.entries mode plans)).isSome = true ↔
        ∀ s ∈ values sources, (plan? mode s e).isSome = true := by
    rw [← planEntries?_isSome_iff]
    cases planEntries? mode e sources <;> simp
  rw [plan?, Rule.between?.eq_def, if_neg (by simp), if_neg (by simp), if_neg (by simp),
    Option.isSome_map]
  simp only
  rw [Rule.ofEntries?]
  by_cases hs : sources = []
  · simp [hs]
  rw [if_neg (mt List.isEmpty_iff.1 hs), or_iff_right hs]
  simp only [Option.bind_eq_bind, Option.pure_def]
  by_cases hw : wanted = .dynamic
  · rw [if_pos hw, if_pos (by rw [hw]; rfl), ← Unification.target?]
    cases ht : Unification.target? mode (values sources) with
    | none => simp
    | some e => simpa [planned] using fun s hs => target?_of_mem ht hs
  · rw [if_neg hw, if_neg (by cases wanted <;> simp_all [Ty.isDynamic])]
    exact planned wanted

/-! ## One step -/

/-- Whatever a type safely converts to, it converts to leniently. -/
def Widens (s : Ty) : Prop :=
  ∀ t, (plan? .safe s t).isSome = true → (plan? .lenient s t).isSome = true

end Conversion

/-- If some types unify safely, they unify leniently. -/
def Unification.Widens (types : List Ty) : Prop :=
  (target? .safe types).isSome = true → (target? .lenient types).isSome = true

namespace Conversion

/-- The element type that is wanted for a tuple can be obtained leniently. -/
theorem Gatherable.widens {sources : List Ty} {wanted : Ty} (parts : ∀ s ∈ sources, Widens s)
    (unify : Unification.Widens sources) (h : Gatherable .safe sources wanted) :
    Gatherable .lenient sources wanted := by
  unfold Gatherable at h ⊢
  split at h
  · rename_i open_
    rw [if_pos open_]
    obtain ⟨e, he, only⟩ := h
    obtain ⟨e', he'⟩ := Option.isSome_iff_exists.1 (unify (by rw [he]; rfl))
    refine ⟨e', he', fun hd => only ?_⟩
    exact (Unification.eq_dynamic_iff he).2 ((Unification.eq_dynamic_iff he').1 hd)
  · rename_i closed
    rw [if_neg closed]
    exact fun s hs => parts s hs wanted (h s hs)

theorem served_widens {sources : List (String × Ty)} {optional : List String} {name : String}
    {t : Ty} (parts : ∀ s ∈ values sources, Widens s)
    (h : Served .safe sources optional name t) : Served .lenient sources optional name t := by
  unfold Served at h ⊢
  split at h
  · rename_i s hs
    exact parts s (mem_values (mem_of_lookup hs)) t h
  · exact h

theorem plan?_items_isSome {source s wanted : Ty} {kind : CollectionKind} (hk : kind ≠ .map)
    (hs : source = .list s ∨ source = .set s) (h : (plan? .lenient s wanted).isSome = true) :
    (plan? .lenient source (kind.type wanted)).isSome = true := by
  cases kind with
  | map => exact absurd rfl hk
  | list =>
    rcases hs with rfl | rfl
    · exact plan?_list_isSome.trans h
    · rw [CollectionKind.type, plan?, Rule.between?.eq_def, if_neg (by simp), if_neg (by simp),
        if_neg (by simp)]
      simpa using h
  | set =>
    rcases hs with rfl | rfl
    · rw [CollectionKind.type, plan?, Rule.between?.eq_def, if_neg (by simp), if_neg (by simp),
        if_neg (by simp)]
      simpa using h
    · exact plan?_set_isSome.trans h

/-- A type converts leniently to whatever it safely converts to if the types inside it do, and if
these unify leniently where they unify safely. -/
theorem widens_of_parts {s : Ty} (parts : ∀ a ∈ s.components, Widens a)
    (unify : Unification.Widens s.components) : Widens s := by
  intro t h
  obtain ⟨c, hc⟩ := Option.isSome_iff_exists.1 h
  obtain ⟨rule, -, planned⟩ := planned_of_plan? hc
  have some_ {a t : Ty} {c : Conversion} (ha : a ∈ s.components)
      (h : plan? .safe a t = some c) : (plan? .lenient a t).isSome = true :=
    parts a ha t (by rw [h]; rfl)
  cases planned with
  | toDynamic => rw [plan?_dynamic]; rfl
  | same => exact plan?_self
  | later hm | pick hm | select hm | ofCapsules hm => cases hm
  | @object sources targets _ os optional =>
    by_cases eq : Ty.object sources os = .object targets optional
    · rw [eq]
      exact plan?_self
    · rw [plan?_object_isSome_iff eq] at h ⊢
      exact fun name t ht => served_widens parts (h name t ht)
  | tuple hl hp =>
    refine plan?_tuple_isSome hl fun i a b ha hb => ?_
    exact parts a (List.mem_of_getElem? ha) b (isSome_of_plan?_tuple ha hb h)
  | items hk hs hp =>
    refine plan?_items_isSome hk hs (some_ ?_ hp)
    rcases hs with rfl | rfl <;> exact List.mem_singleton_self _
  | mapItems hp => exact plan?_map_isSome.trans (some_ (List.mem_singleton_self _) hp)
  | gather hk =>
    rw [plan?_tuple_isSome_iff hk] at h ⊢
    exact h.widens parts unify
  | emptyMap => exact plan?_object_map_isSome_iff.2 (.inl rfl)
  | entries hs =>
    rw [plan?_object_map_isSome_iff, or_iff_right hs] at h ⊢
    split at h
    · rename_i hw
      rw [if_pos hw]
      exact unify h
    · rename_i hw
      rw [if_neg hw]
      exact fun a ha => parts a ha _ (h a ha)
  | union hp =>
    refine plan?_union_isSome fun name a ha => ?_
    obtain ⟨c, -, t, ht, hc⟩ := hp.mem_left ha
    exact ⟨t, ht, some_ (mem_values ha) hc⟩
  | @primitive s t rule hp =>
    cases s <;> cases t <;> cases hp <;> rw [plan?, Rule.between?.eq_def] <;> rfl

end Conversion

namespace Unification

/-- Types convert to the collection of a type that all of their parts convert to. -/
theorem plan?_gathering_isSome {kind : CollectionKind} {parts : Ty.Parts} {t e : Ty}
    (ht : Ty.Gathering kind parts t) (he : e ≠ .dynamic)
    (h : ∀ s ∈ parts.of t, (Conversion.plan? mode s e).isSome = true) :
    (Conversion.plan? mode t (kind.type e)).isSome = true := by
  cases ht with
  | collection kind a =>
    have ha : (Conversion.plan? mode a e).isSome = true :=
      h a (by cases kind <;> simp [Ty.elementPart, CollectionKind.type])
    cases kind with
    | list => exact Conversion.plan?_list_isSome.trans ha
    | set => exact Conversion.plan?_set_isSome.trans ha
    | map => exact Conversion.plan?_map_isSome.trans ha
  | map a => exact Conversion.plan?_map_isSome.trans (h a (List.mem_singleton_self a))
  | object as os =>
    refine Conversion.plan?_object_map_isSome_iff.2 (.inr ?_)
    rw [if_neg he]
    exact h
  | tuple ts =>
    refine (@Conversion.plan?_tuple_isSome_iff _ mode .list (by simp) ts e).2 ?_
    rw [Conversion.Gatherable, if_neg fun open_ => he open_.1]
    exact h

/-- A collection of what the parts of some types have in common can be obtained leniently. Where the
parts leave the element type open, they do so in both modes. -/
theorem gathered?_widens {kind : CollectionKind} {parts : Ty.Parts} {types : List Ty}
    (all : ∀ t ∈ types, Ty.Gathering kind parts t) (convert : ∀ t ∈ types, Conversion.Widens t)
    (unify : Widens (parts.all types)) (h : (gathered? .safe kind parts types).isSome = true) :
    (gathered? .lenient kind parts types).isSome = true := by
  obtain ⟨t, h⟩ := Option.isSome_iff_exists.1 h
  obtain ⟨e, he, h⟩ := Option.bind_eq_some_iff.1 h
  obtain ⟨rfl, reached⟩ := reach?_eq_some_iff.1 h
  obtain ⟨e', he'⟩ := Option.isSome_iff_exists.1 (unify (by rw [he]; rfl))
  rw [gathered?, he', Option.bind_some, reach?_isSome_iff]
  intro t ht
  -- the parts may unify leniently to another type, but not to `dynamic` unless they did before
  by_cases hd : e' = .dynamic
  · rw [hd, ← (eq_dynamic_iff he).2 ((eq_dynamic_iff he').1 hd)]
    exact convert t ht _ (reached t ht)
  · exact plan?_gathering_isSome (all t ht) hd fun s hs =>
      Conversion.target?_of_mem he' (List.mem_flatMap.2 ⟨t, ht, hs⟩)

theorem oneOf?_widens {types : List Ty} (convert : ∀ t ∈ types, Conversion.Widens t)
    (h : (oneOf? .safe types).isSome = true) : (oneOf? .lenient types).isSome = true := by
  obtain ⟨t, ht, reached⟩ := oneOf?_isSome_iff.1 h
  exact oneOf?_isSome_iff.2 ⟨t, ht, fun s hs => convert s hs t (reached s hs)⟩

omit [Host] in
theorem mapM_isSome_iff {α β : Type} {f : α → Option β} {xs : List α} :
    (xs.mapM f).isSome = true ↔ ∀ x ∈ xs, (f x).isSome = true := by
  induction xs with
  | nil => simp
  | cons x xs ih =>
    rw [List.forall_mem_cons, ← ih, List.mapM_cons]
    cases f x with
    | none => simp
    | some y => cases xs.mapM f <;> simp

/-- Types that unify safely unify leniently if each of them converts leniently to whatever it safely
converts to, and if parts of them unify leniently where they unify safely. -/
theorem widens_of_parts {types : List Ty} (convert : ∀ t ∈ types, Conversion.Widens t)
    (unify : ∀ parts : Ty.Parts, types ≠ [] → Widens (parts.all types)) : Widens types := by
  intro h
  rw [target?_eq] at h ⊢
  have about := Way.describes types
  by_cases hne : types = []
  · rw [Way.of, if_pos hne]
    rfl
  have unify parts := unify parts hne
  cases hw : Way.of types with rw [hw] at about h
  | fixed t => rfl
  | gathered kind parts => exact gathered?_widens about convert (unify parts) h
  | mapOrOneOf =>
    have either (mode : Mode) : (Way.mapOrOneOf.target? mode types).isSome = true ↔
        (gathered? mode .map Ty.entryParts types).isSome = true ∨
          (oneOf? mode types).isSome = true := by
      rw [Way.target?]
      cases gathered? mode .map Ty.entryParts types <;> simp
    rw [either] at h ⊢
    exact h.imp (gathered?_widens about convert (unify _)) (oneOf?_widens convert)
  | attributes names =>
    rw [Way.target?, Option.isSome_map, mapM_isSome_iff] at h ⊢
    intro name hn
    have h := h name hn
    rw [Option.isSome_map] at h ⊢
    exact unify _ h
  | items length =>
    rw [Way.target?, Option.isSome_map, mapM_isSome_iff] at h ⊢
    exact fun i hi => unify _ (h i hi)
  | oneOf => exact oneOf?_widens convert h
  | nowhere => cases h

end Unification

/-! ## All types -/

omit [Host] in
theorem Ty.weightAll_components_lt (t : Ty) : weightAll t.components < t.weight := by
  cases t <;> simp [components, weightAll, weight, weightAll_values]

namespace Conversion

theorem widens_of_unify {n : Nat}
    (unify : ∀ types, Ty.weightAll types < n → Unification.Widens types) (s : Ty)
    (hs : s.weight ≤ n) : Widens s := by
  induction s using Ty.induction with
  | step s ih =>
    refine widens_of_parts (fun a ha => ih a ha ?_) (unify _ ?_)
    · have := Ty.weight_lt_of_mem_components ha
      omega
    · have := Ty.weightAll_components_lt s
      omega

end Conversion

theorem Unification.widens (types : List Ty) : Widens types := by
  refine widens_of_parts (fun t ht => ?_) fun parts hne => ?_
  -- a conversion of one of the types unifies only types inside of it, which weigh less
  · refine Conversion.widens_of_unify (n := Ty.weightAll types) (fun ts hts => widens ts) t ?_
    exact Ty.weight_le_of_mem ht
  · have := Ty.weightAll_parts_lt parts hne
    exact widens _
termination_by Ty.weightAll types

/-- Lenient conversions and unifications exist wherever safe ones do. -/
theorem Mode.lenient_extends_safe :
    (∀ s t, (Conversion.plan? .safe s t).isSome = true →
      (Conversion.plan? .lenient s t).isSome = true) ∧
    ∀ types, (Unification.plan? .safe types).isSome = true →
      (Unification.plan? .lenient types).isSome = true := by
  constructor
  · intro s
    exact Conversion.widens_of_unify (fun types _ => Unification.widens types) s le_rfl
  · intro types h
    have := Unification.widens types
    rw [Unification.Widens, Unification.target?, Unification.target?, Option.isSome_map,
      Option.isSome_map] at this
    exact this h

omit [Host] in
/-- Numbers and strings become a list of strings, sets of numbers and lists of strings lists of
strings. -/
theorem Mode.lenient_extends_safe_strings :
    letI := Host.plain
    (Conversion.plan? .safe (.tuple [.number, .string]) (.list .dynamic)).isSome = true ∧
      (Conversion.plan? .lenient (.tuple [.number, .string]) (.list .dynamic)).isSome = true ∧
      (Unification.plan? .safe [.set .number, .list .string]).isSome = true ∧
      (Unification.plan? .lenient [.set .number, .list .string]).isSome = true := by
  let := Host.plain
  have converts :
      (Conversion.plan? .safe (.tuple [.number, .string]) (.list .dynamic)).isSome = true := by
    cbv
  have unify : (Unification.plan? .safe [.set .number, .list .string]).isSome = true := by
    cbv
  exact ⟨converts, lenient_extends_safe.1 _ _ converts, unify, lenient_extends_safe.2 _ unify⟩

end ValueAlgebra
