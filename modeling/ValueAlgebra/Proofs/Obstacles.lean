import ValueAlgebra.Conversion.Mismatch
import ValueAlgebra.Proofs.Modes
import ValueAlgebra.Proofs.RunParts

/-!
# Mismatches name obstacles

A mismatch looks for what keeps a type from converting, with a recursion of its own that has to find
what the planning of conversions stumbles over. It names parts from the outside in. `Mismatch.Step`
is one such name, `Mismatch.End` what the last of the named parts are said to be, and
`Mismatch.Pinpoints` follows the names as far as they go, through parts none of which converts.

Main statement:

* `Ty.message_pinpoints`: where no value of a type converts, following the mismatch comes to parts
  that do not convert, and to what is in their way.
-/

namespace ValueAlgebra

open Entries

variable [Host]

/-! ## Following a mismatch -/

/-- There is no conversion of the first type to the second one, not even one that values fail. -/
def Ty.Blocked (got wanted : Ty) : Prop :=
  Conversion.plan? .lenient got wanted = none

/-- Whether it is the parts of two types that have to convert. -/
def Ty.hangsOnParts : Ty → Ty → Bool
  | .object _ _, .object _ _ | .union _, .union _ | .map _, .map _ => true
  | .list _, .list _ | .list _, .set _ | .set _, .list _ | .set _, .set _ => true
  | .object _ _, .map wanted | .tuple _, .list wanted | .tuple _, .set wanted => !wanted.isDynamic
  | .object attributes _, .union _ => !attributes.isEmpty
  | _, _ => false

namespace Mismatch

/-- A mismatch of two types names a part of both, and has a mismatch of these. -/
inductive Step : Mismatch → Ty → Ty → Mismatch → Ty → Ty → Prop
  | attribute {as bs : List (String × Ty)} {os ps : List String} {name : String} {a b : Ty}
      {inner : Mismatch} (ha : as.lookup name = some a) (hb : bs.lookup name = some b) :
      Step (.attribute name inner) (.object as os) (.object bs ps) inner a b
  | choice {as bs : List (String × Ty)} {os : List String} {name : String} {a b : Ty}
      {inner : Mismatch} (ha : as.lookup name = some a) (hb : bs.lookup name = some b) :
      Step (.attribute name inner) (.object as os) (.union bs) inner a b
  | variant {as bs : List (String × Ty)} {name : String} {a b : Ty} {inner : Mismatch}
      (ha : as.lookup name = some a) (hb : bs.lookup name = some b) :
      Step (.variant name inner) (.union as) (.union bs) inner a b
  | entry {as : List (String × Ty)} {os : List String} {name : String} {a b : Ty}
      {inner : Mismatch} (ha : as.lookup name = some a) :
      Step (.entry name inner) (.object as os) (.map b) inner a b
  | item {ts : List Ty} {i : Nat} {kind : CollectionKind} {a b : Ty} {inner : Mismatch}
      (hk : kind ≠ .map) (ha : ts[i]? = some a) :
      Step (.item i inner) (.tuple ts) (kind.type b) inner a b
  | element {kind kind' : CollectionKind} {a b : Ty} {inner : Mismatch}
      (hk : kind = .map ↔ kind' = .map) :
      Step (.elementType kind' inner) (kind.type a) (kind'.type b) inner a b

/-- A mismatch of two types names no parts, and says of the types what is the case. -/
inductive End : Mismatch → Ty → Ty → Prop
  /-- The second type is wanted, and it is not parts of the two that have to convert. -/
  | required {got wanted : Ty} (whole : got.hangsOnParts wanted = false) :
      End (.required wanted) got wanted
  | differingItems {ts : List Ty} {kind : CollectionKind} (hk : kind ≠ .map) :
      End (.differingElements kind) (.tuple ts) (kind.type .dynamic)
  | differingEntries {as : List (String × Ty)} {os : List String} :
      End (.differingElements .map) (.object as os) (.map .dynamic)
  /-- The names are those of the required attributes that the first type lacks. -/
  | missingAttributes {as bs : List (String × Ty)} {os ps names : List String} (some : names ≠ [])
      (listed : names.Sublist (Entries.names bs))
      (exact : ∀ name, name ∈ names ↔
        name ∈ Entries.names bs ∧ name ∉ ps ∧ name ∉ Entries.names as) :
      End (.missingAttributes names) (.object as os) (.object bs ps)
  | variantRefused {as bs : List (String × Ty)} {name : String} (ha : name ∈ names as)
      (hb : name ∉ names bs) : End (.variantRefused name) (.union as) (.union bs)
  | notAVariant {as bs : List (String × Ty)} {os : List String} {name : String}
      (ha : name ∈ names as) (hb : name ∉ names bs) :
      End (.notAVariant name) (.object as os) (.union bs)

/-- Following the names of a mismatch of two types comes to an end. The two types do not convert,
nor do any parts on the way. -/
inductive Pinpoints : Mismatch → Ty → Ty → Prop
  | here {m : Mismatch} {got wanted : Ty} (blocked : got.Blocked wanted)
      (there : m.End got wanted) : Pinpoints m got wanted
  | inside {m inner : Mismatch} {got wanted a b : Ty} (blocked : got.Blocked wanted)
      (step : m.Step got wanted inner a b) (rest : Pinpoints inner a b) : Pinpoints m got wanted

end Mismatch

/-! ## The part to report -/

namespace Obstruction

theorem between_eq_blocked_iff {got wanted : Ty} :
    between got wanted = .blocked ↔ got.Blocked wanted := by
  unfold between Ty.Blocked
  by_cases eq : got = wanted
  · obtain ⟨c, hc⟩ := Option.isSome_iff_exists.1 (@Conversion.plan?_self _ .lenient wanted)
    rw [if_pos eq, eq, hc]
    simp
  · rw [if_neg eq]
    split
    · rename_i none
      exact iff_of_true rfl (Option.isNone_iff_eq_none.1 none)
    · rename_i some
      exact iff_of_false (by split <;> simp) (mt Option.isNone_iff_eq_none.2 some)

/-- A part that does not convert is reported before one that some values convert from. -/
theorem worst_eq_blocked {pairs : List (Ty × Ty)} {got wanted : Ty} (h : (got, wanted) ∈ pairs)
    (blocked : got.Blocked wanted) : worst pairs = .blocked := by
  rw [worst, if_pos]
  exact List.any_eq_true.2 ⟨_, h, beq_iff_eq.2 (between_eq_blocked_iff.2 blocked)⟩

end Obstruction

namespace Ty

theorem mismatchAt?_of_mem {o : Obstruction} {got : List (String × Ty)} {wanted : WantedParts}
    {name : String} {a b : Ty} (ha : (name, a) ∈ got) (hb : wanted name = some b)
    (hab : Obstruction.between a b = o) :
    ∃ name a b, mismatchAt? o got wanted = some (name, a.mismatch b) ∧ (name, a) ∈ got ∧
      wanted name = some b ∧ Obstruction.between a b = o := by
  induction got with
  | nil => cases ha
  | cons entry rest ih =>
    obtain ⟨first, t⟩ := entry
    have later (h : (name, a) ∈ rest) : ∃ name a b,
        mismatchAt? o rest wanted = some (name, a.mismatch b) ∧ (name, a) ∈ (first, t) :: rest ∧
          wanted name = some b ∧ Obstruction.between a b = o := by
      obtain ⟨name, a, b, found, mem, hb, hab⟩ := ih h
      exact ⟨name, a, b, found, List.mem_cons_of_mem _ mem, hb, hab⟩
    rw [mismatchAt?]
    cases hw : wanted first with
    | none =>
      rcases List.mem_cons.1 ha with eq | ha
      · cases eq
        rw [hw] at hb
        cases hb
      · exact later ha
    | some u =>
      dsimp only
      split
      · rename_i reported
        exact ⟨first, t, u, rfl, List.mem_cons_self, hw, reported⟩
      · rename_i other
        rcases List.mem_cons.1 ha with eq | ha
        · cases eq
          rw [hw] at hb
          cases hb
          exact absurd hab other
        · exact later ha

theorem mismatchFrom?_of_mem {o : Obstruction} {wanted a : Ty} {got : List Ty} (ha : a ∈ got)
    (hab : Obstruction.between a wanted = o) (start : Nat) :
    ∃ i a, mismatchFrom? o wanted start got = some (start + i, a.mismatch wanted) ∧
      got[i]? = some a ∧ Obstruction.between a wanted = o := by
  induction got generalizing start with
  | nil => cases ha
  | cons t rest ih =>
    rw [mismatchFrom?]
    split
    · rename_i reported
      exact ⟨0, t, rfl, rfl, reported⟩
    · rename_i other
      rcases List.mem_cons.1 ha with rfl | ha
      · exact absurd hab other
      · obtain ⟨i, a, found, mem, hab⟩ := ih ha (start + 1)
        exact ⟨i + 1, a, by rw [found, Nat.add_right_comm, Nat.add_assoc], mem, hab⟩

/-- One of some named parts does not convert to what is wanted of it. -/
def BlockedPart (got : List (String × Ty)) (wanted : WantedParts) : Prop :=
  ∃ name a b, (name, a) ∈ got ∧ wanted name = some b ∧ a.Blocked b

/-- Of named parts one that does not convert is reported, if there is one. -/
theorem mismatchAt?_blocked {got : List (String × Ty)} {wanted : WantedParts}
    (h : BlockedPart got wanted) :
    ∃ name a b, mismatchAt? (.worstNamed got wanted) got wanted = some (name, a.mismatch b) ∧
      (name, a) ∈ got ∧ wanted name = some b ∧ a.Blocked b := by
  obtain ⟨name, a, b, ha, hb, blocked⟩ := h
  have worst : Obstruction.worstNamed got wanted = .blocked :=
    Obstruction.worst_eq_blocked (List.mem_filterMap.2 ⟨(name, a), ha, by rw [hb]; rfl⟩) blocked
  obtain ⟨name, a, b, found, ha, hb, hab⟩ :=
    mismatchAt?_of_mem ha hb (Obstruction.between_eq_blocked_iff.2 blocked)
  exact ⟨name, a, b, worst ▸ found, ha, hb, Obstruction.between_eq_blocked_iff.1 hab⟩

/-- Of the elements of a tuple one that does not convert is reported, if there is one. -/
theorem mismatchFrom?_blocked {got : List Ty} {wanted : Ty} (h : ∃ a ∈ got, a.Blocked wanted) :
    ∃ i a, mismatchFrom? (.worstItem got wanted) wanted 0 got = some (i, a.mismatch wanted) ∧
      got[i]? = some a ∧ a.Blocked wanted := by
  obtain ⟨a, ha, blocked⟩ := h
  have worst : Obstruction.worstItem got wanted = .blocked :=
    Obstruction.worst_eq_blocked (List.mem_map.2 ⟨a, ha, rfl⟩) blocked
  obtain ⟨i, a, found, hi, hab⟩ :=
    mismatchFrom?_of_mem ha (Obstruction.between_eq_blocked_iff.2 blocked) 0
  rw [Nat.zero_add] at found
  exact ⟨i, a, worst ▸ found, hi, Obstruction.between_eq_blocked_iff.1 hab⟩

/-! ## Parts that keep types from converting -/

theorem not_blocked_iff {s t : Ty} :
    ¬ s.Blocked t ↔ (Conversion.plan? .lenient s t).isSome = true :=
  Option.ne_none_iff_isSome

variable {as bs : List (String × Ty)} {os ps : List String} {ts : List Ty} {a b : Ty}

omit [Host] in
theorem mem_lackedAttributes {name : String} : name ∈ lackedAttributes as bs ps ↔
    name ∈ names bs ∧ name ∉ ps ∧ name ∉ names as := by
  simp only [lackedAttributes, List.mem_filter, Bool.and_eq_true, Bool.not_eq_true',
    ← Bool.not_eq_true, contains_iff, List.contains_iff_mem]
  tauto

omit [Host] in
theorem exists_wanted (h : firstUnwanted? as bs = none) {name : String}
    (ha : (name, a) ∈ as) : ∃ b, bs.lookup name = some b := by
  have wanted := List.find?_eq_none.1 h name (mem_names ha)
  rw [Bool.not_eq_true', Bool.not_eq_false, contains_iff] at wanted
  exact exists_lookup.2 wanted

omit [Host] in
theorem unwanted_of_first {name : String} (h : firstUnwanted? as bs = some name) :
    name ∈ names as ∧ name ∉ names bs := by
  have unwanted := List.find?_some h
  rw [Bool.not_eq_true', ← Bool.not_eq_true, contains_iff] at unwanted
  exact ⟨List.mem_of_find?_eq_some h, unwanted⟩

/-- An object that lacks no attribute has one that does not convert. -/
theorem Blocked.attribute (h : (Ty.object as os).Blocked (.object bs ps)) (nodup : (names bs).Nodup)
    (whole : lackedAttributes as bs ps = []) : BlockedPart as (.named bs) := by
  by_contra none
  have all {name : String} {a b : Ty} (ha : (name, a) ∈ as) (hb : bs.lookup name = some b) :
      (Conversion.plan? .lenient a b).isSome = true :=
    not_blocked_iff.1 fun blocked => none ⟨name, a, b, ha, hb, blocked⟩
  refine not_blocked_iff.2 ?_ h
  by_cases eq : Ty.object as os = .object bs ps
  · rw [eq]
    exact Conversion.plan?_self
  refine (Conversion.plan?_object_isSome_iff eq).2 fun name b hb => ?_
  rw [Conversion.Served]
  split
  · rename_i a ha
    exact all (mem_of_lookup ha) (lookup_of_mem nodup hb)
  · rename_i missing
    by_contra required
    rw [List.contains_iff_mem] at required
    have lacked : name ∈ lackedAttributes as bs ps :=
      mem_lackedAttributes.2 ⟨mem_names hb, required, lookup_eq_none.1 missing⟩
    rw [whole] at lacked
    cases lacked

/-- A union whose variants are all wanted has one that does not convert. -/
theorem Blocked.variant (h : (Ty.union as).Blocked (.union bs))
    (all : firstUnwanted? as bs = none) : BlockedPart as (.named bs) := by
  by_contra none
  refine not_blocked_iff.2 (Conversion.plan?_union_isSome fun name a ha => ?_) h
  obtain ⟨b, hb⟩ := exists_wanted all ha
  exact ⟨b, hb, not_blocked_iff.1 fun blocked => none ⟨name, a, b, ha, hb, blocked⟩⟩

/-- An object whose attributes all name variants has one that does not convert. -/
theorem Blocked.choice (h : (Ty.object as os).Blocked (.union bs)) (nonempty : as ≠ [])
    (all : firstUnwanted? as bs = none) : BlockedPart as (.named bs) := by
  by_contra none
  have plans : (Conversion.planNamed? .lenient bs as).isSome = true := by
    refine Conversion.planNamed?_isSome fun name a ha => ?_
    obtain ⟨b, hb⟩ := exists_wanted all ha
    exact ⟨b, hb, not_blocked_iff.1 fun blocked => none ⟨name, a, b, ha, hb, blocked⟩⟩
  refine not_blocked_iff.2 ?_ h
  rw [Conversion.plan?, Rule.between?.eq_def, if_neg (by simp), if_neg (by simp),
    if_neg (by simp)]
  simpa [nonempty] using plans

/-- An object has an attribute that does not convert to the elements of a map. -/
theorem Blocked.entry (h : (Ty.object as os).Blocked (.map b)) (closed : b ≠ .dynamic) :
    BlockedPart as (.same b) := by
  by_contra none
  refine not_blocked_iff.2 (Conversion.plan?_object_map_isSome_iff.2 (.inr ?_)) h
  rw [if_neg closed]
  intro a ha
  obtain ⟨name, ha⟩ := exists_of_mem_values ha
  exact not_blocked_iff.1 fun blocked => none ⟨name, a, b, ha, rfl, blocked⟩

/-- A tuple has an element that does not convert to those of a list or set. -/
theorem Blocked.item {kind : CollectionKind} (hk : kind ≠ .map)
    (h : (Ty.tuple ts).Blocked (kind.type b)) (closed : b ≠ .dynamic) :
    ∃ a ∈ ts, a.Blocked b := by
  by_contra all
  push Not at all
  refine not_blocked_iff.2 ((Conversion.plan?_tuple_isSome_iff hk).2 ?_) h
  rw [Conversion.Gatherable, if_neg fun open_ => closed open_.1]
  exact fun a ha => not_blocked_iff.1 (all a ha)

/-- The elements of a collection do not convert where it could be turned into the other one. -/
theorem Blocked.element {kind kind' : CollectionKind} (hk : kind = .map ↔ kind' = .map)
    (h : (kind.type a).Blocked (kind'.type b)) : a.Blocked b := by
  by_contra convert
  rw [not_blocked_iff] at convert
  refine not_blocked_iff.2 ?_ h
  by_cases map : kind = .map
  · rw [map, hk.1 map]
    exact Conversion.plan?_map_isSome.trans convert
  · refine Conversion.plan?_items_isSome (mt hk.2 map) ?_ convert
    cases kind with
    | map => exact absurd rfl map
    | list => exact .inl rfl
    | set => exact .inr rfl

/-! ## Mismatches of types and of their parts -/

-- With this the equations of the recursion are made once, and not for each of the cases below.
attribute [local simp] mismatch

/-- The mismatches of the parts of two types lead to what is in the way. -/
def PartsPinpointed (got wanted : Ty) : Prop :=
  ∀ a ∈ got.components, ∀ b ∈ wanted.components, a.Blocked b → (a.mismatch b).Pinpoints a b

theorem pinpoints_attribute (hg : (Ty.object as os).Ordered) (hw : (Ty.object bs ps).Ordered)
    (parts : PartsPinpointed (.object as os) (.object bs ps))
    (h : (Ty.object as os).Blocked (.object bs ps)) :
    ((Ty.object as os).mismatch (.object bs ps)).Pinpoints (.object as os) (.object bs ps) := by
  rw [mismatch]
  split
  · rename_i lacking
    exact .here h (.missingAttributes lacking List.filter_sublist fun _ => mem_lackedAttributes)
  · rename_i whole
    obtain ⟨name, a, b, found, ha, hb, blocked⟩ := mismatchAt?_blocked
      (h.attribute (Names.nodup_of_sorted hw.here) (not_not.1 whole))
    rw [found]
    exact .inside h (.attribute (lookup_of_mem (Names.nodup_of_sorted hg.here) ha) hb)
      (parts a (mem_values ha) b (mem_values (mem_of_lookup hb)) blocked)

theorem pinpoints_variant (hg : (Ty.union as).Ordered)
    (parts : PartsPinpointed (.union as) (.union bs)) (h : (Ty.union as).Blocked (.union bs)) :
    ((Ty.union as).mismatch (.union bs)).Pinpoints (.union as) (.union bs) := by
  rw [mismatch]
  split
  · rename_i name unwanted
    obtain ⟨ha, hb⟩ := unwanted_of_first unwanted
    exact .here h (.variantRefused ha hb)
  · rename_i all
    obtain ⟨name, a, b, found, ha, hb, blocked⟩ := mismatchAt?_blocked (h.variant all)
    rw [found]
    exact .inside h (.variant (lookup_of_mem (Names.nodup_of_sorted hg.here) ha) hb)
      (parts a (mem_values ha) b (mem_values (mem_of_lookup hb)) blocked)

theorem pinpoints_choice (hg : (Ty.object as os).Ordered)
    (parts : PartsPinpointed (.object as os) (.union bs))
    (h : (Ty.object as os).Blocked (.union bs)) :
    ((Ty.object as os).mismatch (.union bs)).Pinpoints (.object as os) (.union bs) := by
  rw [mismatch]
  split
  · rename_i name unwanted
    obtain ⟨ha, hb⟩ := unwanted_of_first unwanted
    exact .here h (.notAVariant ha hb)
  · rename_i all
    by_cases empty : as = []
    · subst empty
      exact .here h (.required rfl)
    obtain ⟨name, a, b, found, ha, hb, blocked⟩ := mismatchAt?_blocked (h.choice empty all)
    rw [found]
    exact .inside h (.choice (lookup_of_mem (Names.nodup_of_sorted hg.here) ha) hb)
      (parts a (mem_values ha) b (mem_values (mem_of_lookup hb)) blocked)

theorem pinpoints_entry (hg : (Ty.object as os).Ordered)
    (parts : PartsPinpointed (.object as os) (.map b)) (h : (Ty.object as os).Blocked (.map b)) :
    ((Ty.object as os).mismatch (.map b)).Pinpoints (.object as os) (.map b) := by
  by_cases closed : b = .dynamic
  · rw [closed] at h ⊢
    exact .here h .differingEntries
  obtain ⟨name, a, b, found, ha, hb, blocked⟩ := mismatchAt?_blocked (h.entry closed)
  cases hb
  have eq : (Ty.object as os).mismatch (.map b) = .entry name (a.mismatch b) := by
    rw [mismatch, found]
    exact closed
  rw [eq]
  exact .inside h (.entry (lookup_of_mem (Names.nodup_of_sorted hg.here) ha))
    (parts a (mem_values ha) b (List.mem_singleton_self b) blocked)

theorem pinpoints_item {kind : CollectionKind} (hk : kind ≠ .map)
    (parts : PartsPinpointed (.tuple ts) (kind.type b)) (h : (Ty.tuple ts).Blocked (kind.type b)) :
    ((Ty.tuple ts).mismatch (kind.type b)).Pinpoints (.tuple ts) (kind.type b) := by
  by_cases closed : b = .dynamic
  · have eq : (Ty.tuple ts).mismatch (kind.type .dynamic) = .differingElements kind := by
      cases kind with
      | list | set => rw [CollectionKind.type, mismatch]
      | map => exact absurd rfl hk
    rw [closed] at h ⊢
    rw [eq]
    exact .here h (.differingItems hk)
  · obtain ⟨i, a, found, hi, blocked⟩ := mismatchFrom?_blocked (h.item hk closed)
    have eq : (Ty.tuple ts).mismatch (kind.type b) = .item i (a.mismatch b) := by
      cases kind with
      | list | set =>
        rw [CollectionKind.type, mismatch, found]
        exact closed
      | map => exact absurd rfl hk
    have hb : b ∈ (kind.type b).components := by cases kind <;> exact List.mem_singleton_self b
    rw [eq]
    exact .inside h (.item hk hi) (parts a (List.mem_of_getElem? hi) b hb blocked)

theorem pinpoints_element {kind kind' : CollectionKind} (hk : kind = .map ↔ kind' = .map)
    (parts : PartsPinpointed (kind.type a) (kind'.type b))
    (h : (kind.type a).Blocked (kind'.type b)) :
    ((kind.type a).mismatch (kind'.type b)).Pinpoints (kind.type a) (kind'.type b) := by
  have blocked : a.Blocked b := h.element hk
  have different : a ≠ b := by
    rintro rfl
    exact not_blocked_iff.2 Conversion.plan?_self blocked
  have eq : (kind.type a).mismatch (kind'.type b) = .elementType kind' (a.mismatch b) := by
    cases kind <;> cases kind' <;> simp_all [CollectionKind.type]
  have element (kind : CollectionKind) (t : Ty) : t ∈ (kind.type t).components := by
    cases kind <;> exact List.mem_singleton_self t
  rw [eq]
  exact .inside h (.element hk) (parts a (element kind a) b (element kind' b) blocked)

/-- The mismatch of types that do not convert leads to what is in the way. -/
theorem pinpoints_mismatch {got wanted : Ty} (hg : got.Ordered) (hw : wanted.Ordered)
    (h : got.Blocked wanted) : (got.mismatch wanted).Pinpoints got wanted := by
  refine induction (motive := fun got => ∀ wanted : Ty, got.Ordered → wanted.Ordered →
    got.Blocked wanted → (got.mismatch wanted).Pinpoints got wanted) ?_ got wanted hg hw h
  intro got ih wanted hg hw h
  have parts : PartsPinpointed got wanted := fun a ha b hb blocked =>
    ih a ha b (hg.inside ha) (hw.inside hb) blocked
  cases got with
  | object as os =>
    cases wanted with
    | object => exact pinpoints_attribute hg hw parts h
    | map => exact pinpoints_entry hg parts h
    | union => exact pinpoints_choice hg parts h
    | _ => exact .here h (.required rfl)
  | tuple ts =>
    cases wanted with
    | list => exact @pinpoints_item _ _ _ .list (by simp) parts h
    | set => exact @pinpoints_item _ _ _ .set (by simp) parts h
    | _ => exact .here h (.required rfl)
  | list =>
    cases wanted with
    | list => exact @pinpoints_element _ _ _ .list .list (by simp) parts h
    | set => exact @pinpoints_element _ _ _ .list .set (by simp) parts h
    | _ => exact .here h (.required rfl)
  | set =>
    cases wanted with
    | list => exact @pinpoints_element _ _ _ .set .list (by simp) parts h
    | set => exact @pinpoints_element _ _ _ .set .set (by simp) parts h
    | _ => exact .here h (.required rfl)
  | map =>
    cases wanted with
    | map => exact @pinpoints_element _ _ _ .map .map Iff.rfl parts h
    | _ => exact .here h (.required rfl)
  | union =>
    cases wanted with
    | union => exact pinpoints_variant hg parts h
    | _ => exact .here h (.required rfl)
  | number | string | bool | dynamic | capsule => cases wanted <;> exact .here h (.required rfl)

/-- Where no value of a type converts to another one, the message for the two is that of a mismatch
whose names lead to parts that do not convert, and to what is in their way. -/
theorem message_pinpoints {got wanted : Ty} (hg : got.Ordered) (hw : wanted.Ordered)
    (h : got.Blocked wanted) :
    (Complaint.mismatch got wanted).message = (got.mismatch wanted).message ∧
      (got.mismatch wanted).Pinpoints got wanted :=
  ⟨rfl, pinpoints_mismatch hg hw h⟩

omit [Host] in
/-- The part that does not convert is named, although there is one before it that some values
convert from. -/
theorem message_pinpoints_inner :
    letI := Host.plain
    let got : Ty := .object [("a", .string), ("b", .object [("c", .list .bool)] [])] []
    let wanted : Ty := .object [("a", .number), ("b", .object [("c", .set .number)] [])] []
    got.Ordered ∧ wanted.Ordered ∧ got.Blocked wanted ∧
      ((Complaint.mismatch got wanted).message = (got.mismatch wanted).message ∧
        (got.mismatch wanted).Pinpoints got wanted) ∧
      got.mismatch wanted =
        .attribute "b" (.attribute "c" (.elementType .set (.required .number))) := by
  let := Host.plain
  intro got wanted
  have hg : got.Ordered := by decide
  have hw : wanted.Ordered := by decide
  have blocked : got.Blocked wanted := by
    unfold Blocked
    cbv
  exact ⟨hg, hw, blocked, message_pinpoints hg hw blocked, by cbv⟩

end Ty

end ValueAlgebra
