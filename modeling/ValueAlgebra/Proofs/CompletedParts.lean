import ValueAlgebra.Proofs.CompletedSizes
import ValueAlgebra.Proofs.Indexing
import ValueAlgebra.Proofs.Twins

/-!
# Parts and completions

What is read from a value that is not known in full goes by its type, by what it holds and by the
key. Whatever it is, it stays right for the completions of the value and of the key. A part that is
there is completed part by part, for a completed content has related parts at the same places
(`Option.Rel`). A part that is not there yet is unknown, and it is of the type that the part of a
completion has, since types without dynamic parts stay. In the same way an answer about an unknown
container or key is either left open or holds of all values of the type.

Main statements:

* `Value.attributeBare_ok`, `Value.indexBare_ok`, `Value.hasIndexBare_ok`: what answers there are.
* `Value.rel_attribute?`, `Value.rel_at?`: related contents have related parts.
* `Value.accessors_completed`: attributes, elements, whether there are any and how many.
-/

namespace ValueAlgebra

open Entries

/-- The attribute of a name, where there is one. A union has nulls for the variants that are not
chosen. -/
def Content.attribute? (name : String) : Content → Option Value
  | .object attributes => attributes.lookup name
  | .union variants variant inner =>
    (variants.lookup name).map fun part =>
      if variant = name then inner else .null part.withoutOptional
  | _ => none

namespace Ty

/-- The type of the attribute of a name. -/
def attribute? (name : String) : Ty → Option Ty
  | .object attributes _ => attributes.lookup name
  | .union variants => variants.lookup name
  | _ => none

/-- What the type of a container says about the type of the element at a key. -/
def at? : Ty → Content → Option Ty
  | .list e, _ | .map e, _ => some e
  | .tuple ts, .number n => n.toWord?.bind fun i => ts[i]?
  | .tuple _, .unknown _ _ => some .dynamic
  | _, _ => none

theorem mem_components_of_attribute? {name : String} {t s : Ty} (h : t.attribute? name = some s) :
    s ∈ t.components := by
  cases t with
  | object | union => exact mem_values (mem_of_lookup h)
  | _ => cases h

end Ty

namespace Value

section

variable {u v w x key a : Value} {t s : Ty} {name : String}

/-! ## What is found -/

/-- An attribute is one that is there, or unknown. -/
theorem attributeBare_ok (typed : v.ty ≠ .dynamic) (h : v.attributeBare name = .ok a) :
    v.content.attribute? name = some a ∨ v.isKnown = false ∧
      ∃ s, v.ty.attribute? name = some s ∧ a = unknown s.withoutOptional := by
  obtain ⟨m, c⟩ := v
  cases c with
  | unknown t r =>
    refine .inr ⟨rfl, ?_⟩
    rw [ty] at typed ⊢
    cases t with
    | object as _ | union as =>
      cases found : as.lookup name <;> simp [attributeBare, ty, content, found] at h
      exact ⟨_, found, h.symm⟩
    | dynamic => exact absurd rfl typed
    | _ => cases h
  | null t =>
    rw [ty] at typed
    cases t with
    | object as _ | union as =>
      cases found : as.lookup name <;> simp [attributeBare, ty, content, found] at h
    | dynamic => exact absurd rfl typed
    | _ => cases h
  | object entries =>
    left
    cases found : entries.lookup name <;>
      simp [attributeBare, ty, content, lookup_entryTypes, found] at h
    exact h ▸ found
  | union variants variant inner =>
    left
    cases found : variants.lookup name <;> simp [attributeBare, ty, content, found] at h
    simp only [content, Content.attribute?, found, Option.map_some, h]
  | _ => cases h

/-- An attribute that is there is of the type that it has by the type of the value. -/
theorem ty_of_attribute? (made : v.WellMade) (closed : v.ty.hasDynamic = false)
    (free : v.ty.OptionalFree) (h : v.content.attribute? name = some a) :
    v.ty.attribute? name = some a.ty := by
  have here := made.here
  obtain ⟨m, c⟩ := v
  cases c with
  | object entries =>
    rw [ty, Ty.attribute?, lookup_entryTypes, show entries.lookup name = some a from h]
    rfl
  | union variants variant inner =>
    rw [ty] at closed free ⊢
    obtain ⟨part, found, rfl⟩ := Option.map_eq_some_iff.1 h
    have member : part ∈ (Ty.union variants).components := mem_values (mem_of_lookup found)
    have required : part.withoutOptional = part :=
      Ty.OptionalFree.withoutOptional_eq (free.inside member)
    rw [Ty.attribute?, found]
    split
    · subst name
      obtain ⟨wanted, same, fits⟩ := here
      cases found.symm.trans same
      rw [Ty.hasDynamic, Ty.anyHasDynamicEntry_eq_false] at closed
      rw [Fits, closed part member, if_neg Bool.false_ne_true, beq_iff_eq, required] at fits
      rw [fits]
    · rw [null, bare, ty, required]
  | _ => cases h

/-- An attribute that is there is a part, or a null for a variant. -/
theorem mem_parts_of_attribute? {c : Content} (h : c.attribute? name = some a) :
    a ∈ c.parts ∨ ∃ t, a = null t := by
  cases c with
  | object entries => exact .inl (mem_values (mem_of_lookup h))
  | union variants variant inner =>
    obtain ⟨part, -, rfl⟩ := Option.map_eq_some_iff.1 h
    split
    · exact .inl List.mem_cons_self
    · exact .inr ⟨_, rfl⟩
  | _ => cases h

theorem at?_of_itemAt {c : Content} {n : Number} (h : itemAt t c n = .ok a) :
    c.at? (.number n) = some a := by
  unfold itemAt at h
  dsimp only at h
  split at h
  · split at h <;> cases h
    assumption
  · split at h <;> cases h
    assumption
  · cases h

/-- What is neither null nor of the content that its type says is unknown. -/
theorem unknown_of_type (notNull : ¬ v.isNull = true)
    (h : v.ty = .number ∧ (∀ n, v.content = .number n → False) ∨
      v.ty = .string ∧ ∀ s, v.content = .string s → False) :
    ∃ t r, v.content = .unknown t r := by
  obtain ⟨m, c⟩ := v
  cases c with
  | unknown t r => exact ⟨t, r, rfl⟩
  | null => exact absurd rfl notNull
  | number n => rcases h with ⟨-, none⟩ | ⟨type, -⟩ <;> first | exact (none n rfl).elim | cases type
  | string s => rcases h with ⟨type, -⟩ | ⟨-, none⟩ <;> first | exact (none s rfl).elim | cases type
  | _ => rcases h with ⟨type, -⟩ | ⟨type, -⟩ <;> cases type

/-- An element is one that is there, or unknown. -/
theorem indexBare_ok (typed : v.ty ≠ .dynamic) (typed' : key.ty ≠ .dynamic)
    (h : v.indexBare key = .ok a) :
    v.content.at? key.content = some a ∨ (v.isKnown = false ∨ key.isKnown = false) ∧
      ∃ s, v.ty.at? key.content = some s ∧ a = unknown s := by
  unfold indexBare at h
  rw [if_neg (not_or.2 ⟨typed, typed'⟩)] at h
  split at h
  · cases h
  rename_i notNull
  split at h
  · rename_i e ht
    split at h
    · rename_i n hn
      split at h
      · rw [hn]
        exact .inl (at?_of_itemAt h)
      · rename_i unknown
        cases h
        exact .inr ⟨.inl (by simpa using unknown), e, by rw [ht, Ty.at?], rfl⟩
    · rename_i other
      split at h <;> cases h
      rename_i type
      have unknown := unknown_of_type notNull (.inl ⟨type, other⟩)
      exact .inr ⟨.inr (isKnown_iff.2 unknown), e, by rw [ht, Ty.at?], rfl⟩
  · rename_i ts ht
    split at h
    · rename_i n hn
      split at h
      · cases h
      rename_i i hi
      split at h
      · cases h
      rename_i t found
      split at h
      · rw [hn]
        exact .inl (at?_of_itemAt h)
      · rename_i unknown
        cases h
        exact .inr ⟨.inl (by simpa using unknown), t, by
          rw [ht, hn, Ty.at?, hi, Option.bind_some, found], rfl⟩
    · rename_i other
      split at h <;> cases h
      rename_i type
      have unknown := unknown_of_type notNull (.inl ⟨type, other⟩)
      obtain ⟨t, r, hc⟩ := unknown
      exact .inr ⟨.inr (isKnown_iff.2 ⟨t, r, hc⟩), .dynamic, by rw [ht, hc, Ty.at?], rfl⟩
  · rename_i e ht
    split at h
    · rename_i name hn
      split at h
      · rename_i unknown
        cases h
        exact .inr ⟨.inl (isKnown_iff.2 ⟨_, _, unknown⟩), e, by rw [ht, Ty.at?], rfl⟩
      · rename_i entries map
        split at h <;> cases h
        rename_i found
        rw [hn, map]
        exact .inl found
      · cases h
    · rename_i other
      split at h <;> cases h
      rename_i type
      have unknown := unknown_of_type notNull (.inr ⟨type, other⟩)
      exact .inr ⟨.inr (isKnown_iff.2 unknown), e, by rw [ht, Ty.at?], rfl⟩
  · cases h

/-- An element that is there is of the type that it has by the type of the container. -/
theorem ty_of_at? {k : Content} (made : v.WellMade) (h : v.content.at? k = some a) :
    v.ty.at? k = some a.ty := by
  have here := made.here
  have member := mem_parts_of_at? h
  obtain ⟨m, c⟩ := v
  cases c with
  | list => rw [ty, Ty.at?, here a member]
  | map => rw [ty, Ty.at?, here.2 a member]
  | tuple items =>
    cases k with
    | number n =>
      obtain ⟨i, hn, hi⟩ := Option.bind_eq_some_iff.1 h
      rw [ty, Ty.at?, hn, Option.bind_some, types_eq_map, List.getElem?_map, hi]
      rfl
    | _ => cases h
  | _ => cases h

end

/-! ## Completed parts -/

section

variable {R : Value → Value → Prop} {c d : Content}

theorem rel_lookup {as bs : List (String × Value)} (h : Paired (fun _ => R) as bs) (name : String) :
    Option.Rel R (as.lookup name) (bs.lookup name) := by
  induction h with
  | nil => exact .none
  | @cons x y as bs hx _ ih =>
    obtain ⟨n, x⟩ := x
    obtain ⟨m, y⟩ := y
    obtain ⟨rfl, hR⟩ := hx
    rw [lookup_cons, lookup_cons]
    split
    · exact .some hR
    · exact ih

theorem rel_getElem? {xs ys : List Value} (h : List.Forall₂ R xs ys) (i : Nat) :
    Option.Rel R xs[i]? ys[i]? := by
  induction h generalizing i with
  | nil => exact .none
  | cons hR _ ih =>
    cases i with
    | zero => exact .some hR
    | succ i => exact ih i

/-- Related contents have related elements, at the same keys. -/
theorem rel_at? (h : c.Matched R d) (k : Content) : Option.Rel R (c.at? k) (d.at? k) := by
  cases h with
  | list related | tuple related =>
    cases k with
    | number n =>
      rw [Content.at?, Content.at?]
      cases n.toWord? with
      | none => exact .none
      | some i => exact rel_getElem? related i
    | _ => exact .none
  | map hn related =>
    cases k with
    | string name => exact rel_lookup (paired_of_values hn related) name
    | _ => exact .none
  | _ => exact .none

/-- Related contents have related attributes. -/
theorem rel_attribute? (h : c.Matched R d) (null : ∀ t, R (null t) (null t)) (name : String) :
    Option.Rel R (c.attribute? name) (d.attribute? name) := by
  cases h with
  | object hn related => exact rel_lookup (paired_of_values hn related) name
  | @union variants variant x y related =>
    rw [Content.attribute?, Content.attribute?]
    cases variants.lookup name with
    | none => exact .none
    | some part =>
      refine .some ?_
      split
      · exact related
      · exact null _
  | _ => exact .none

end

section

variable [Host] {heap : Heap} {u w k k' a b : Value} {name : String}

/-- A key that is there stays. -/
theorem Completes.content_eq (h : Completes heap Ty.Instantiates k k') (known : k.isKnown = true)
    (leaf : k.content.parts = []) : k'.content = k.content :=
  (completes_leaf_iff known leaf).1 h

omit [Host] in
theorem present_of_mem_parts {v x : Value} (h : x ∈ v.content.parts) : v.Present := by
  obtain ⟨m, c⟩ := v
  cases c <;> first | exact ⟨rfl, rfl⟩ | cases h

theorem Completed.rel_attribute? {c d : Content} (h : Completed heap c d) (name : String) :
    Option.Rel (Completes heap Ty.Instantiates) (c.attribute? name) (d.attribute? name) := by
  cases h with
  | matched same => exact Value.rel_attribute? same (fun t => .plain rfl rfl rfl) name
  | set => exact .none

theorem Completed.rel_at? {c d : Content} (h : Completed heap c d) (k : Content) :
    Option.Rel (Completes heap Ty.Instantiates) (c.at? k) (d.at? k) := by
  cases h with
  | matched same => exact Value.rel_at? same k
  | set => exact .none

/-- The attribute of a completion completes the attribute. -/
theorem attributeBare_completed (hu : u.Formed) (made : w.WellMade)
    (closed : u.ty.hasDynamic = false) (free : u.ty.OptionalFree)
    (h : Completes heap Ty.Instantiates u w) (ha : u.attributeBare name = .ok a)
    (hb : w.attributeBare name = .ok b) : Completes heap Ty.Instantiates a b := by
  have type := h.ty_eq hu.1 closed
  have typed : u.ty ≠ .dynamic := Ty.ne_dynamic closed
  have known := isWhollyKnown_iff.1 h.isWhollyKnown
  have there : w.content.attribute? name = some b := by
    refine (attributeBare_ok (type ▸ typed) hb).resolve_right fun unknown => ?_
    rw [known.1] at unknown
    cases unknown.1
  rcases attributeBare_ok typed ha with found | ⟨-, s, hs, rfl⟩
  · have present : u.Present := by
      obtain ⟨m, c⟩ := u
      cases c <;> first | exact ⟨rfl, rfl⟩ | cases found
    have related := (hu.completed closed present h).rel_attribute? name
    rw [found, there] at related
    cases related with
    | some completes => exact completes
  · have typed := ty_of_attribute? made (type ▸ closed) (type ▸ free) there
    rw [type, hs, Option.some.injEq] at typed
    have required : s.OptionalFree := free.inside (Ty.mem_components_of_attribute? hs)
    rw [required.withoutOptional_eq]
    refine Admissible.completes ⟨?_, ?_, Ty.instantiates_of_eq typed.symm⟩
    · rcases mem_parts_of_attribute? there with part | ⟨t, rfl⟩
      · exact known.2 b part
      · rfl
    · rcases mem_parts_of_attribute? there with part | ⟨t, rfl⟩
      · exact (h.sound hu.2).inside part
      · exact sound_leaf rfl trivial

/-- The keys of two lookups say the same about the type of the element, as far as they are known. -/
theorem instantiates_at? {t s s' : Ty} (h : Completes heap Ty.Instantiates k k')
    (hs : t.at? k.content = some s) (hs' : t.at? k'.content = some s') : s'.Instantiates s := by
  cases t with
  | list | map =>
    cases hs
    cases hs'
    exact Ty.instantiates_refl _
  | tuple ts =>
    obtain ⟨m, c⟩ := k
    cases c with
    | number n =>
      rw [h.content_eq rfl rfl, hs] at hs'
      cases hs'
      exact Ty.instantiates_refl _
    | unknown =>
      cases hs
      exact .dynamic _
    | _ => cases hs
  | _ => cases hs

/-- The element of a completion at a completion of the key completes the element. -/
theorem indexBare_completed (hu : u.Formed) (made : w.WellMade)
    (closed : u.ty.hasDynamic = false) (hk : k.Formed) (closed' : k.ty.hasDynamic = false)
    (h : Completes heap Ty.Instantiates u w) (h' : Completes heap Ty.Instantiates k k')
    (ha : u.indexBare k = .ok a) (hb : w.indexBare k' = .ok b) :
    Completes heap Ty.Instantiates a b := by
  have type := h.ty_eq hu.1 closed
  have type' := h'.ty_eq hk.1 closed'
  have typed : u.ty ≠ .dynamic := Ty.ne_dynamic closed
  have typed' : k.ty ≠ .dynamic := Ty.ne_dynamic closed'
  have known := isWhollyKnown_iff.1 h.isWhollyKnown
  have known' := isWhollyKnown_iff.1 h'.isWhollyKnown
  have there : w.content.at? k'.content = some b := by
    refine (indexBare_ok (type ▸ typed) (type' ▸ typed') hb).resolve_right ?_
    rintro ⟨unknown | unknown, -⟩
    · cases known.1.symm.trans unknown
    · cases known'.1.symm.trans unknown
  rcases indexBare_ok typed typed' ha with found | ⟨-, s, hs, rfl⟩
  · have present := present_of_mem_parts (mem_parts_of_at? found)
    have related := (hu.completed closed present h).rel_at? k.content
    have key : k'.content = k.content := by
      obtain ⟨m, c⟩ := u
      obtain ⟨n, d⟩ := k
      apply h'.content_eq <;> cases c <;> cases d <;> first | rfl | cases found
    rw [key] at there
    rw [found, there] at related
    cases related with
    | some completes => exact completes
  · have part := mem_parts_of_at? there
    refine Admissible.completes ⟨known.2 b part, (h.sound hu.2).inside part, ?_⟩
    exact instantiates_at? h' hs (type ▸ ty_of_at? made there)

omit [Host] in
theorem hasIndexBare_congr {v v' key key' : Value} (hv : v'.content = v.content)
    (hk : key'.content = key.content) : v'.hasIndexBare key' = v.hasIndexBare key := by
  simp only [hasIndexBare, ty_of_content hv, ty_of_content hk, hv, hk]

omit [Host] in
/-- What has elements is of a type that has keys. -/
theorem exists_key?_of_hasIndexBare (typed : u.ty ≠ .dynamic) (typed' : k.ty ≠ .dynamic)
    (h : u.hasIndexBare k = .ok a) : ∃ t, u.ty.key? = some t := by
  unfold hasIndexBare at h
  rw [if_neg (not_or.2 ⟨typed, typed'⟩)] at h
  split at h
  · exact ⟨.number, by rename_i ht; rw [ht, Ty.key?]⟩
  · exact ⟨.number, by rename_i ht; rw [ht, Ty.key?]⟩
  · exact ⟨.string, by rename_i ht; rw [ht, Ty.key?]⟩
  · cases h

omit [Host] in
/-- What is decided about an unknown is so for all values of its type. -/
theorem hasIndexBare_of_unknown {t s : Ty} {r : Refinement} (hu : u.content = .unknown t r)
    (hw : w.ty = t) (ht : t.key? = some s) (hk : k.ty = s) (h : u.hasIndexBare k = .ok a) :
    a = undecided ∨ w.hasIndexBare k = .ok a := by
  obtain ⟨m, c⟩ := u
  obtain ⟨n, d⟩ := k
  cases hu
  cases t with
  | list e | tuple ts =>
    cases ht
    cases d with
    | number n =>
      cases hn : n.toWord? <;> simp [hasIndexBare, ty, content, hw, hn] at h ⊢ <;>
        simp [← h]
    | null | unknown =>
      cases hk
      simp [hasIndexBare, ty, content, hw] at h ⊢
      simp [h]
    | _ => cases hk
  | map e =>
    cases ht
    cases d with
    | string | null | unknown =>
      cases hk
      simp [hasIndexBare, ty, content] at h
      exact .inl h.symm
    | _ => cases hk
  | _ => cases ht

omit [Host] in
/-- The answer is left open only where something is unknown. -/
theorem hasIndexBare_ok (typed : u.ty ≠ .dynamic) (typed' : k.ty ≠ .dynamic)
    (h : u.hasIndexBare k = .ok a) :
    a = undecided ∧ (u.isKnown = false ∨ k.isKnown = false) ∨ ∃ r, a = bool r := by
  have unknown {v : Value} {t : Ty} {r : Refinement} (hc : v.content = .unknown t r) :
      v.isKnown = false := isKnown_iff.2 ⟨t, r, hc⟩
  unfold hasIndexBare at h
  rw [if_neg (not_or.2 ⟨typed, typed'⟩)] at h
  split at h
  -- each branch answers with a bool, or has just seen something unknown
  all_goals repeat' split at h
  all_goals cases h
  all_goals first
    | exact .inr ⟨_, rfl⟩
    | exact .inl ⟨rfl, .inl (unknown ‹_›)⟩
    | exact .inl ⟨rfl, .inr (unknown ‹_›)⟩

theorem completes_undecided (r : Bool) : Completes heap Ty.Instantiates undecided (bool r) := by
  refine .unknown rfl rfl (sound_leaf rfl trivial) ?_ ?_
  · rw [bool, bare, ty]
    exact .bool
  · simp [bool, bare, content, Refinement.Meets, Refinement.notNull]

omit [Host] in
/-- Numbers and strings have no parts. -/
theorem parts_of_key {t s : Ty} (ht : t.key? = some s) (hk : k.ty = s) : k.content.parts = [] := by
  obtain ⟨m, c⟩ := k
  cases c with
  | list | set | map | object | tuple | union => cases t <;> cases ht <;> cases hk
  | _ => rfl

/-- Whether a completion has an element at a completion of the key completes the answer. -/
theorem hasIndexBare_completed (hu : u.Formed) (closed : u.ty.hasDynamic = false) (hk : k.Formed)
    (closed' : k.ty.hasDynamic = false) (h : Completes heap Ty.Instantiates u w)
    (h' : Completes heap Ty.Instantiates k k') (ha : u.hasIndexBare k = .ok a)
    (hb : w.hasIndexBare k' = .ok b) : Completes heap Ty.Instantiates a b := by
  have type := h.ty_eq hu.1 closed
  have type' := h'.ty_eq hk.1 closed'
  have typed : u.ty ≠ .dynamic := Ty.ne_dynamic closed
  have typed' : k.ty ≠ .dynamic := Ty.ne_dynamic closed'
  have known := (isWhollyKnown_iff.1 h.isWhollyKnown).1
  have known' := (isWhollyKnown_iff.1 h'.isWhollyKnown).1
  obtain ⟨r, rfl⟩ : ∃ r, b = bool r := by
    refine (hasIndexBare_ok (type ▸ typed) (type' ▸ typed') hb).resolve_left ?_
    rintro ⟨-, unknown | unknown⟩
    · cases known.symm.trans unknown
    · cases known'.symm.trans unknown
  obtain ⟨t, ht⟩ := exists_key?_of_hasIndexBare typed typed' ha
  suffices same : a = undecided ∨ a = bool r by
    rcases same with rfl | rfl
    · exact completes_undecided r
    · exact .plain rfl rfl rfl
  by_cases same : k.ty = t
  swap
  · rw [hasIndexBare_of_key_type ht typed' same] at ha
    rw [hasIndexBare_of_key_type (type ▸ ht) (type' ▸ typed') (type' ▸ same)] at hb
    exact .inr (Except.ok.inj (ha.symm.trans hb))
  cases settled : k.isKnown with
  | false =>
    obtain ⟨s, r, hc⟩ := isKnown_iff.1 settled
    obtain rfl : s = t := (ty_of_content (w := bare (.unknown s r)) hc).symm.trans same
    rw [(answers_of_unknown_key ht hc).1] at ha
    exact .inl (Except.ok.inj ha).symm
  | true =>
    have key : k'.content = k.content := h'.content_eq settled (parts_of_key ht same)
    rw [hasIndexBare_congr (v := w) rfl key] at hb
    rcases cases_present u with ⟨s, r, hc⟩ | ⟨s, hc⟩ | present
    · have typed : u.ty = s := ty_of_content (w := bare (.unknown s r)) hc
      refine (hasIndexBare_of_unknown hc (type.trans typed) (typed ▸ ht) same ha).imp_right ?_
      exact fun decided => Except.ok.inj (decided.symm.trans hb)
    · rw [hasIndexBare_congr ((h.null hc).trans hc.symm) rfl] at hb
      exact .inr (Except.ok.inj (ha.symm.trans hb))
    · have related := (hu.completed closed present h).rel_at? k.content
      rw [hasIndexBare_of_present present ht same settled] at ha
      rw [hasIndexBare_of_present (h.present present) (type ▸ ht) same settled] at hb
      generalize u.content.at? k.content = found at related ha
      generalize w.content.at? k.content = found' at related hb
      rw [← Except.ok.inj ha, ← Except.ok.inj hb]
      cases related <;> exact .inr rfl

/-! ## Completions of answers -/

/-- Marks do not count, neither those of a value nor those of its completion. -/
theorem Completes.of_contents {fits : Ty → Ty → Prop} {v' w' : Value}
    (h : Completes heap fits v w) (hv : v'.content = v.content) (hw : w'.content = w.content) :
    Completes heap fits v' w' := by
  have h := h.of_content hv
  have known : w'.isWhollyKnown = w.isWhollyKnown := isWhollyKnown_of_content hw
  cases h with
  | unknown hc whole sound type meets =>
    exact .unknown hc (known.trans whole) (sound.of_content hw) (ty_of_content hw ▸ type)
      (hw ▸ meets)
  | plain known parts same => exact .plain known parts (hw.trans same)
  | list hc hl parts made same => exact .list hc hl parts made (hw.trans same)
  | set hc hl parts made same => exact .set hc hl parts made (hw.trans same)
  | map hc hn parts made same => exact .map hc hn parts made (hw.trans same)
  | object hc hn parts same => exact .object hc hn parts (hw.trans same)
  | tuple hc hl parts same => exact .tuple hc hl parts (hw.trans same)
  | union hc part made same => exact .union hc part made (hw.trans same)

/-- Where both are values, the second one completes the first one. -/
def Fulfills (heap : Heap) (fits : Ty → Ty → Prop) (x y : Except Fault Value) : Prop :=
  ∀ a b, x = .ok a → y = .ok b → Completes heap fits a b

/-- What changes marks alone does not count. -/
theorem Fulfills.map {fits : Ty → Ty → Prop} {x y : Except Fault Value} {f g : Value → Value}
    (h : Fulfills heap fits x y) (hf : ∀ v, (f v).content = v.content)
    (hg : ∀ v, (g v).content = v.content) : Fulfills heap fits (x.map f) (y.map g) := by
  intro _ _ ha hb
  obtain ⟨a, rfl, rfl⟩ := ValueAlgebra.map_eq_ok ha
  obtain ⟨b, rfl, rfl⟩ := ValueAlgebra.map_eq_ok hb
  exact (h a b rfl rfl).of_contents (hf a) (hg b)

theorem Formed.of_content {v : Value} (h : v.Formed) (hc : w.content = v.content) : w.Formed := by
  have regular : w.Regular := by
    rw [Regular, ty_of_content hc, hc]
    exact h.1.here
  exact ⟨.intro regular fun x hx => h.1.inside (hc ▸ hx), h.2.of_content hc⟩

/-- What is read from a value whose type is settled holds of its completions too: attributes,
elements, whether there are any and how many. -/
theorem accessors_completed (hu : u.Formed) (made : u.WellMade) (hk : k.Formed)
    (closed : u.ty.hasDynamic = false) (closed' : k.ty.hasDynamic = false)
    (free : u.ty.OptionalFree) (made' : w.WellMade) (h : Completes heap Ty.Instantiates u w)
    (h' : Completes heap Ty.Instantiates k k') :
    (∀ name, Fulfills heap Ty.Instantiates (u.attr name) (w.attr name)) ∧
      Fulfills heap Ty.Instantiates (u.index k) (w.index k') ∧
      Fulfills heap Ty.Instantiates (u.hasIndex k) (w.hasIndex k') ∧
      Fulfills heap Ty.Instantiates u.length w.length ∧
      ∀ n, w.size = .ok n → Refinement.Meets.MeetsLength u.range.refinement n := by
  have formed : u.unmark.Formed := hu.of_content rfl
  have formedKey : k.unmark.Formed := hk.of_content rfl
  have bare : Completes heap Ty.Instantiates u.unmark w.unmark := h.of_contents rfl rfl
  have bareKey : Completes heap Ty.Instantiates k.unmark k'.unmark := h'.of_contents rfl rfl
  rw [← ty_unmark] at closed closed' free
  refine ⟨fun name => ?_, ?_, ?_, ?_, fun n hn => ?_⟩
  · exact Fulfills.map (fun a b => attributeBare_completed formed made'.unmark closed free bare)
      (fun _ => rfl) fun _ => rfl
  · exact Fulfills.map
      (fun a b => indexBare_completed formed made'.unmark closed formedKey closed' bare bareKey)
      (fun _ => rfl) fun _ => rfl
  · exact Fulfills.map
      (fun a b => hasIndexBare_completed formed closed formedKey closed' bare bareKey)
      (fun _ => rfl) fun _ => rfl
  · exact Fulfills.map (fun a b => lengthBare_completed formed made.unmark closed bare)
      (fun _ => rfl) fun _ => rfl
  · rw [ty_unmark] at closed
    exact meetsLength_of_size hu made closed h (reading_eq_ok hn)

end

/-! ### A list of two numbers, and nulls that conform to everything -/

theorem wellMade_pair {v : Value} (typed : v.ty = .number) (made : v.WellMade) :
    (pair v).WellMade := by
  refine .intro (List.forall_mem_cons.2 ⟨rfl, List.forall_mem_singleton.2 typed⟩) ?_
  exact List.forall_mem_cons.2 ⟨wellMade_number _, List.forall_mem_singleton.2 made⟩

/-- An unknown place of a list is completed by any element there, here by 7 for the second. -/
theorem accessors_completed_pair :
    letI := Host.plain
    let unknownNumber := unknown .number
    (pair unknownNumber).Formed ∧ (pair unknownNumber).WellMade ∧ unknownNumber.Formed ∧
      (pair unknownNumber).ty.hasDynamic = false ∧ unknownNumber.ty.hasDynamic = false ∧
      (pair unknownNumber).ty.OptionalFree ∧ (pair (number (.ofInt 7))).WellMade ∧
      Completes .empty Ty.Instantiates (pair unknownNumber) (pair (number (.ofInt 7))) ∧
      Completes .empty Ty.Instantiates unknownNumber (number (.ofInt 1)) ∧
      (pair unknownNumber).index unknownNumber = .ok unknownNumber ∧
      (pair (number (.ofInt 7))).index (number (.ofInt 1)) = .ok (number (.ofInt 7)) ∧
      Completes .empty Ty.Instantiates unknownNumber (number (.ofInt 7)) := by
  let := Host.plain
  have typed : (unknown .number).ty = .number := ty_unknown _
  have within : (unknown .number).Within .all :=
    .unknown ((Ty.everywhere_leaf rfl).2 (Scope.closed_upTo _).structural.number)
      Refinement.coherent_unconstrained (Nat.zero_le _)
  have sound : (unknown .number).Sound .empty := sound_leaf rfl trivial
  have admissible (n : Number) : Completes .empty Ty.Instantiates (unknown .number) (number n) :=
    Admissible.completes ⟨rfl, sound_leaf rfl trivial, .number⟩
  have pairTy : (pair (unknown .number)).ty = .list .number := by simp only [pair, bare, ty]
  have formed := formed_pair typed within sound
  have made := wellMade_pair typed (wellMade_unknown _)
  have formedKey : (unknown .number).Formed := formed_of_within within sound
  have closed : (pair (unknown .number)).ty.hasDynamic = false := by rw [pairTy]; rfl
  have closedKey : (unknown .number).ty.hasDynamic = false := by rw [typed]; rfl
  have free : (pair (unknown .number)).ty.OptionalFree := by
    rw [pairTy]
    exact Ty.everywhere_list.2 ⟨rfl, (Ty.everywhere_leaf rfl).2 rfl⟩
  have made' : (pair (number (.ofInt 7))).WellMade :=
    wellMade_pair (by simp only [number, bare, ty]) (wellMade_number _)
  have completes := completes_pair (by simp only [number, bare, ty]) (admissible (.ofInt 7))
  have place : (pair (unknown .number)).index (unknown .number) = .ok (unknown .number) := by cbv
  have seven : (pair (number (.ofInt 7))).index (number (.ofInt 1)) = .ok (number (.ofInt 7)) := by
    cbv
  exact ⟨formed, made, formedKey, closed, closedKey, free, made', completes, admissible _, place,
    seven, (accessors_completed formed made formedKey closed closedKey free made' completes
      (admissible _)).2.1 _ _ place seven⟩

/-- A null of dynamic type conforms to a list of strings. That the list has no element at a negative
number is known, and of the null it is not. -/
theorem accessors_conforming :
    ¬ ∀ (_ : Host) (heap : Heap) (u w k k' : Value), u.Formed → u.WellMade → k.Formed →
      u.ty.hasDynamic = false → k.ty.hasDynamic = false → u.ty.OptionalFree →
      k.ty.OptionalFree → w.WellMade →
      Completes heap (fun s t => s.conforms t = true) u w →
      Completes heap (fun s t => s.conforms t = true) k k' →
      (∀ name, Fulfills heap (fun s t => s.conforms t = true) (u.attr name) (w.attr name)) ∧
        Fulfills heap (fun s t => s.conforms t = true) (u.index k) (w.index k') ∧
        Fulfills heap (fun s t => s.conforms t = true) (u.hasIndex k) (w.hasIndex k') ∧
        Fulfills heap (fun s t => s.conforms t = true) u.length w.length ∧
        ∀ n, w.size = .ok n → Refinement.Meets.MeetsLength u.range.refinement n := by
  intro claim
  let := Host.plain
  have structural := (Scope.closed_upTo Refining.lengthLimit).structural
  have strings : (Ty.list .string).Everywhere Scope.all.types :=
    Ty.everywhere_list.2 ⟨structural.list _, (Ty.everywhere_leaf rfl).2 structural.string⟩
  have required : (unknown (.list .string)).ty.OptionalFree := by
    rw [ty_unknown]
    exact Ty.everywhere_list.2 ⟨rfl, (Ty.everywhere_leaf rfl).2 rfl⟩
  have completes : Completes .empty (fun s t => s.conforms t = true) (unknown (.list .string))
      (null .dynamic) := by
    refine .unknown rfl rfl (sound_leaf rfl trivial) ?_ ?_
    · simp only [null, bare, ty, Ty.conforms]
    · simp [null, bare, content, Refinement.Meets, Refinement.unconstrained]
  have number : (number (.ofInt (-1))).ty = .number := by simp only [number, bare, ty]
  have open_ := (claim _ .empty (unknown (.list .string)) (null .dynamic) (.number (.ofInt (-1)))
    (.number (.ofInt (-1)))
    (formed_of_within (.unknown strings Refinement.coherent_unconstrained (Nat.zero_le _))
      (sound_leaf rfl trivial))
    (wellMade_unknown _) (formed_of_within (.number trivial) (sound_leaf rfl trivial))
    (by rw [ty_unknown]; rfl) (by rw [number]; rfl) required
    (by rw [number]; exact (Ty.everywhere_leaf rfl).2 rfl) (wellMade_null _) completes
    (.plain rfl rfl rfl)).2.2.1 (bool false) undecided (by cbv) (by cbv)
  cases open_.isWhollyKnown

end Value

end ValueAlgebra
