import ValueAlgebra.Proofs.MarkRoundTrip

/-!
# Asking for an element before looking it up

`Value.hasIndex` answers whether a list, tuple or map has an element at a key, and `Value.index`
looks the element up. An answer is meant to announce what the lookup does: yes, that it finds an
element, no, that it fails, and undecided, that it finds something unknown (`Announces`). Both go by
the type of the container, by what it holds and by the key, but not in the same order. So there are
three pairs of a container and a key where they do not go together (`Misleads`): a null tuple is
said to have the elements that its type has, an unknown list is said to have no element at a number
that is no place while the lookup does not look at the number, and of an unknown map a null key is
left undecided while the lookup refuses it.

The proofs go by the key first: one of another type, an unknown one, null, and at last one that is
there, for which it counts whether the container is null, unknown or there as well. What is at such
a key of a container that is there is `Content.at?`.

Main statements:

* `Value.announces_iff`: what is announced happens unless something misleads.
* `Value.elements_of_present`: the keys of elements are those that elements are at.
* `Value.hasIndex_announces_index`: both, for the operations on values.
-/

namespace ValueAlgebra

open Entries Text

/-- The element of a list, tuple or map at a key. -/
def Content.at? : Content → Content → Option Value
  | .list _ items, .number n | .tuple items, .number n => n.toWord?.bind fun i => items[i]?
  | .map _ entries, .string name => entries.lookup name
  | _, _ => none

/-- The type of the keys of the values of a type. -/
def Ty.key? : Ty → Option Ty
  | .list _ | .tuple _ => some .number
  | .map _ => some .string
  | _ => none

namespace Value

variable {v key w x : Value} {t u : Ty} {n : Number} {r : Refinement}

/-- The answer for a key, and what becomes of the lookup, go together. -/
inductive Announces : Except Fault Value → Except Fault Value → Prop
  | found {answer w : Value} (yes : answer.content = .bool true) : Announces (.ok answer) (.ok w)
  | missing {answer : Value} {fault : Fault} (no : answer.content = .bool false) :
    Announces (.ok answer) (.error fault)
  | undecided {answer w : Value} (open_ : answer.isKnown = false) (unknown : w.isKnown = false) :
    Announces (.ok answer) (.ok w)

/-- A container and a key for which the answer and the lookup do not go together. -/
inductive Misleads : Content → Content → Prop
  /-- The tuple has no elements, but its type has one at the number. -/
  | nullTuple {types : List Ty} {n : Number} {i : Nat} (hn : n.toWord? = some i)
    (hi : i < types.length) : Misleads (.null (.tuple types)) (.number n)
  /-- The number is negative, too large or not whole. -/
  | unknownList {e : Ty} {r : Refinement} {n : Number} (hn : n.toWord? = none) :
    Misleads (.unknown (.list e) r) (.number n)
  | unknownMap {e : Ty} {r : Refinement} : Misleads (.unknown (.map e) r) (.null .string)

/-- A place is asked for by comparing it with the length. -/
theorem bool_lt_length {α : Type} (xs : List α) (i : Nat) :
    bool (decide (i < xs.length)) = bool (xs[i]?).isSome := by
  congr 1
  by_cases h : i < xs.length <;> simp [h]

/-! ## Keys -/

theorem hasIndexBare_of_key_type (ht : v.ty.key? = some t) (hk : key.ty ≠ .dynamic)
    (other : key.ty ≠ t) : v.hasIndexBare key = .ok (bool false) := by
  unfold hasIndexBare
  cases hv : v.ty <;> rw [hv] at ht <;> cases ht <;> simp [hk, other]

/-- Keys of another type are missing, and refused. -/
theorem announces_of_key_type (ht : v.ty.key? = some t) (hk : key.ty ≠ .dynamic)
    (other : key.ty ≠ t) : Announces (v.hasIndexBare key) (v.indexBare key) := by
  obtain ⟨fault, failed⟩ : ∃ fault, v.indexBare key = .error fault := by
    obtain ⟨m, c⟩ := key
    unfold indexBare
    cases hv : v.ty <;> rw [hv] at ht <;> cases ht <;>
      cases c <;> simp_all [isNull, ty, content]
  rw [hasIndexBare_of_key_type ht hk other, failed]
  exact .missing rfl

/-- Whether an unknown key is there is undecided, and what is there is unknown. -/
theorem answers_of_unknown_key (ht : v.ty.key? = some t) (hk : key.content = .unknown t r) :
    v.hasIndexBare key = .ok undecided ∧ ∃ u, v.indexBare key = .ok (unknown u) := by
  obtain ⟨m, c⟩ := v
  obtain ⟨k, d⟩ := key
  cases hk
  cases c with
  | null u | unknown u =>
    cases u <;> cases ht <;> exact ⟨by simp [hasIndexBare, ty, content], _, rfl⟩
  | list | tuple | map =>
    cases ht
    exact ⟨by simp [hasIndexBare, ty, content], _, rfl⟩
  | _ => cases ht

/-- There is nothing at a null key. -/
theorem announces_of_null_key (ht : v.ty.key? = some t) (hk : key.content = .null t)
    (hm : ¬ Misleads v.content key.content) :
    Announces (v.hasIndexBare key) (v.indexBare key) := by
  have told : Announces (.ok (bool false)) (.error .nullKey) := .missing rfl
  obtain ⟨m, c⟩ := v
  obtain ⟨k, d⟩ := key
  cases hk
  cases c with
  | null u =>
    cases u <;> cases ht <;> simpa [hasIndexBare, indexBare, ty, content, isNull] using told
  | unknown u =>
    cases u with
    | map => exact (hm (by cases ht; exact .unknownMap)).elim
    | _ => cases ht <;> simpa [hasIndexBare, indexBare, ty, content, isNull] using told
  | list | tuple | map =>
    cases ht
    simpa [hasIndexBare, indexBare, ty, content, isNull] using told
  | _ => cases ht

/-- Nothing is found in a null by a known key, but null tuples are taken to have elements. -/
theorem announces_of_null (hv : v.content = .null u) (ht : u.key? = some t) (hk : key.ty = t)
    (present : key.Present) (hm : ¬ Misleads v.content key.content) :
    Announces (v.hasIndexBare key) (v.indexBare key) := by
  obtain ⟨m, c⟩ := v
  obtain ⟨k, d⟩ := key
  cases hv
  cases d with
  | null => cases present.2
  | unknown => cases present.1
  | number n =>
    cases u with
    | list =>
      cases hn : n.toWord? <;>
        simpa [hasIndexBare, indexBare, ty, content, isNull, isKnown, itemAt, hn] using .missing rfl
    | tuple types =>
      cases hn : n.toWord? with
      | none => simpa [hasIndexBare, indexBare, ty, content, isNull, isKnown, hn] using .missing rfl
      | some i =>
        have past : ¬ i < types.length := fun within => hm (.nullTuple hn within)
        simpa [hasIndexBare, indexBare, ty, content, isNull, isKnown, hn, past] using .missing rfl
    | _ => cases ht <;> cases hk
  | string s =>
    cases u with
    | map => simpa [hasIndexBare, indexBare, ty, content, isNull] using .missing rfl
    | _ => cases ht <;> cases hk
  | _ => cases u <;> cases ht <;> cases hk

/-- What is at a known key of an unknown container is unknown. Only a tuple has it for certain. -/
theorem announces_of_unknown (hv : v.content = .unknown u r) (ht : u.key? = some t)
    (hk : key.ty = t) (present : key.Present) (hm : ¬ Misleads v.content key.content) :
    Announces (v.hasIndexBare key) (v.indexBare key) := by
  have told (u : Ty) : Announces (.ok undecided) (.ok (unknown u)) := .undecided rfl rfl
  obtain ⟨m, c⟩ := v
  obtain ⟨k, d⟩ := key
  cases hv
  cases d with
  | null => cases present.2
  | unknown => cases present.1
  | number n =>
    cases u with
    | list e =>
      cases hn : n.toWord? with
      | none => exact (hm (.unknownList hn)).elim
      | some i => simpa [hasIndexBare, indexBare, ty, content, isNull, isKnown, hn] using told e
    | tuple types =>
      cases hn : n.toWord? with
      | none => simpa [hasIndexBare, indexBare, ty, content, isNull, isKnown, hn] using .missing rfl
      | some i =>
        by_cases hi : i < types.length
        · simpa [hasIndexBare, indexBare, ty, content, isNull, isKnown, hn, hi] using .found rfl
        · simpa [hasIndexBare, indexBare, ty, content, isNull, isKnown, hn, hi] using .missing rfl
    | _ => cases ht <;> cases hk
  | string s =>
    cases u with
    | map e => simpa [hasIndexBare, indexBare, ty, content, isNull] using told e
    | _ => cases ht <;> cases hk
  | _ => cases u <;> cases ht <;> cases hk

/-- A container that is there is asked for what is at a known key. -/
theorem hasIndexBare_of_present (hv : v.Present) (ht : v.ty.key? = some t) (hk : key.ty = t)
    (known : key.isKnown = true) :
    v.hasIndexBare key = .ok (bool (v.content.at? key.content).isSome) := by
  obtain ⟨m, c⟩ := v
  obtain ⟨k, d⟩ := key
  cases c with
  | null => cases hv.2
  | unknown => cases hv.1
  | list | tuple =>
    cases ht
    cases d with
    | unknown => cases known
    | null =>
      cases hk
      simp [hasIndexBare, ty, content, Content.at?]
    | number n =>
      cases hn : n.toWord? <;>
        simp [hasIndexBare, ty, content, Content.at?, bool_lt_length, types_eq_map, hn]
    | _ => cases hk
  | map =>
    cases ht
    cases d with
    | unknown => cases known
    | null =>
      cases hk
      simp [hasIndexBare, ty, content, Content.at?]
    | string => simp [hasIndexBare, ty, content, Content.at?, Entries.contains]
    | _ => cases hk
  | _ => cases ht

/-- What is at a key is announced and found. -/
theorem answers_of_at? {x : Value} (h : v.content.at? key.content = some x) :
    v.hasIndexBare key = .ok (bool true) ∧ v.indexBare key = .ok x := by
  obtain ⟨m, c⟩ := v
  obtain ⟨k, d⟩ := key
  cases c with
  | list | tuple =>
    cases d with
    | number n =>
      obtain ⟨i, hn, hi⟩ := Option.bind_eq_some_iff.1 h
      simp [hasIndexBare, indexBare, content, ty, isNull, isKnown, itemAt, bool_lt_length,
        types_eq_map, hn, hi]
    | _ => cases h
  | map e entries =>
    cases d with
    | string s =>
      have found : entries.lookup s = some x := h
      simp [hasIndexBare, indexBare, content, ty, isNull, Entries.contains, found]
    | _ => cases h
  | _ => cases h

/-- Where nothing is at a known key, the lookup fails. -/
theorem indexBare_of_at?_eq_none (hv : v.Present) (ht : v.ty.key? = some t) (hk : key.ty = t)
    (known : key.isKnown = true) (h : v.content.at? key.content = none) :
    ∃ fault, v.indexBare key = .error fault := by
  obtain ⟨m, c⟩ := v
  obtain ⟨k, d⟩ := key
  cases c with
  | null => cases hv.2
  | unknown => cases hv.1
  | list | tuple =>
    cases ht
    cases d with
    | unknown => cases known
    | null =>
      cases hk
      exact ⟨.nullKey, by simp [indexBare, ty, isNull]⟩
    | number n =>
      cases hn : n.toWord? with
      | none => simp [indexBare, content, ty, isNull, isKnown, itemAt, hn]
      | some i =>
        simp only [content, Content.at?, hn, Option.bind_some] at h
        simp [indexBare, content, ty, isNull, isKnown, itemAt, types_eq_map, hn, h]
    | _ => cases hk
  | map e entries =>
    cases ht
    cases d with
    | unknown => cases known
    | null =>
      cases hk
      exact ⟨.nullKey, by simp [indexBare, ty, isNull]⟩
    | string s =>
      have absent : entries.lookup s = none := h
      exact ⟨.noEntry s, by simp [indexBare, content, ty, isNull, absent]⟩
    | _ => cases hk
  | _ => cases ht

theorem announces_of_present (hv : v.Present) (ht : v.ty.key? = some t) (hk : key.ty = t)
    (known : key.isKnown = true) : Announces (v.hasIndexBare key) (v.indexBare key) := by
  rw [hasIndexBare_of_present hv ht hk known]
  cases found : v.content.at? key.content with
  | none =>
    obtain ⟨fault, failed⟩ := indexBare_of_at?_eq_none hv ht hk known found
    rw [failed]
    exact .missing rfl
  | some x =>
    rw [(answers_of_at? found).2]
    exact .found rfl

/-- Where the answer misleads, it is not what happens. -/
theorem not_announces_of_misleads (hm : Misleads v.content key.content) :
    ¬ Announces (v.hasIndexBare key) (v.indexBare key) := by
  obtain ⟨m, c⟩ := v
  obtain ⟨k, d⟩ := key
  simp only [content] at hm
  intro told
  cases hm with
  | @nullTuple types n i hn hi =>
    have asked : hasIndexBare ⟨m, .null (.tuple types)⟩ ⟨k, .number n⟩ = .ok (bool true) := by
      simp [hasIndexBare, ty, content, hn, hi]
    have failed : indexBare ⟨m, .null (.tuple types)⟩ ⟨k, .number n⟩ =
        .error (.indexOfNull (.tuple types)) := by
      simp [indexBare, ty, content, isNull, isKnown, itemAt, hn, hi]
    rw [asked, failed] at told
    cases told with
    | missing no => cases no
  | @unknownList e r n hn =>
    have asked : hasIndexBare ⟨m, .unknown (.list e) r⟩ ⟨k, .number n⟩ = .ok (bool false) := by
      simp [hasIndexBare, ty, content, hn]
    rw [asked] at told
    change Announces _ (.ok (unknown e)) at told
    cases told with
    | found yes => cases yes
    | undecided open_ => cases open_
  | unknownMap =>
    change Announces (.ok undecided) (.error .nullKey) at told
    cases told with
    | missing no => cases no

/-- Answers and elements go together unless something misleads. -/
theorem announces_bare_iff (ht : v.ty.key? = some t) (hk : key.ty ≠ .dynamic) :
    Announces (v.hasIndexBare key) (v.indexBare key) ↔ ¬ Misleads v.content key.content := by
  refine ⟨fun told hm => not_announces_of_misleads hm told, fun hm => ?_⟩
  by_cases typed : key.ty = t
  swap
  · exact announces_of_key_type ht hk typed
  rcases cases_present key with ⟨u, r, hc⟩ | ⟨u, hc⟩ | present
  · obtain rfl : u = t := (ty_of_content (w := bare (.unknown u r)) hc).symm.trans typed
    obtain ⟨asked, w, got⟩ := answers_of_unknown_key ht hc
    rw [asked, got]
    exact .undecided rfl rfl
  · obtain rfl : u = t := (ty_of_content (w := bare (.null u)) hc).symm.trans typed
    exact announces_of_null_key ht hc hm
  · rcases cases_present v with ⟨u, r, hc⟩ | ⟨u, hc⟩ | hv
    · rw [ty_of_content (w := bare (.unknown u r)) hc] at ht
      exact announces_of_unknown hc ht typed present hm
    · rw [ty_of_content (w := bare (.null u)) hc] at ht
      exact announces_of_null hc ht typed present hm
    · exact announces_of_present hv ht typed present.1

/-- What changes marks alone changes nothing about it. -/
theorem announces_map_iff {a b : Except Fault Value} {f : Value → Value}
    (hf : ∀ x, (f x).content = x.content) : Announces (a.map f) (b.map f) ↔ Announces a b := by
  have known (x : Value) : (f x).isKnown = x.isKnown := isKnown_of_content (hf x)
  constructor <;> intro told
  · cases a <;> cases b <;> cases told
    case found yes => exact .found (hf _ ▸ yes)
    case missing no => exact .missing (hf _ ▸ no)
    case undecided open_ unknown => exact .undecided (known _ ▸ open_) (known _ ▸ unknown)
  · cases told with
    | found yes => exact .found ((hf _).trans yes)
    | missing no => exact .missing ((hf _).trans no)
    | undecided open_ unknown =>
      exact .undecided ((known _).trans open_) ((known _).trans unknown)

/-! ## Elements -/

theorem mem_parts_of_at? {c k : Content} (h : c.at? k = some x) : x ∈ c.parts := by
  cases c with
  | list e items | tuple items =>
    cases k with
    | number n =>
      obtain ⟨i, -, hi⟩ := Option.bind_eq_some_iff.1 h
      exact List.mem_of_getElem? hi
    | _ => cases h
  | map e entries =>
    cases k with
    | string name => exact mem_values (mem_of_lookup h)
    | _ => cases h
  | _ => cases h

theorem mem_numbered_iff {items : List Value} {x : Value} {start : Nat} :
    (key, x) ∈ numbered start items ↔ ∃ i, items[i]? = some x ∧ key = ofNat (start + i) := by
  induction items generalizing start with
  | nil => simp [numbered]
  | cons w ws ih =>
    rw [numbered, List.mem_cons, ih]
    constructor
    · rintro (h | ⟨i, hi, rfl⟩)
      · cases h
        exact ⟨0, rfl, rfl⟩
      · exact ⟨i + 1, hi, by rw [Nat.add_assoc, Nat.add_comm 1]⟩
    · rintro ⟨i, hi, rfl⟩
      cases i with
      | zero =>
        cases hi
        exact .inl rfl
      | succ i => exact .inr ⟨i, hi, by rw [Nat.add_assoc, Nat.add_comm 1]⟩

theorem mem_keyed_iff {entries : List (String × Value)} {x : Value} :
    (key, x) ∈ keyed entries ↔ ∃ name, (name, x) ∈ entries ∧ key = string name := by
  simp [keyed, eq_comm, and_comm]

/-- Only a number that is a word is found at its place. -/
theorem eq_ofInt_of_toWord? {i : Nat} (h : n.toWord? = some i) : n = .ofInt i := by
  obtain ⟨z, hz, rfl⟩ := Option.map_eq_some_iff.1 h
  obtain ⟨whole, range⟩ := Option.filter_eq_some_iff.1 hz
  simp only [Bool.and_eq_true, decide_eq_true_eq] at range
  cases n with
  | finite q =>
    simp only [Number.toInt?] at whole
    split at whole
    · rename_i den
      cases whole
      rw [Number.ofInt, Int.toNat_of_nonneg range.1, Rat.coe_int_num_of_den_eq_one den]
    · cases whole
  | _ => cases whole

/-- The elements of a container that is there, with the keys that they are at. -/
theorem elements_of_present (hv : v.Present) (ht : v.ty.key? = some t) (made : v.WellMade)
    (found : v.Addressable) :
    ∃ es, v.unmark.elements = .ok es ∧
      ∀ key x : Value, (key.unmark, x) ∈ es ↔ v.content.at? key.content = some x := by
  have here := made.here
  have places := found.here
  obtain ⟨m, c⟩ := v
  cases c with
  | null => cases hv.2
  | unknown => cases hv.1
  | list e items | tuple items =>
    refine ⟨_, rfl, fun key x => ?_⟩
    have short : items.length ≤ Refining.lengthLimit := places.2
    obtain ⟨k, d⟩ := key
    rw [mem_numbered_iff]
    constructor
    · rintro ⟨i, hi, eq⟩
      cases eq
      rw [Nat.zero_add]
      have within := (List.getElem?_eq_some_iff.1 hi).1
      simp only [content, Content.at?]
      rw [toWord?_ofInt (by omega)]
      exact hi
    · intro h
      cases d with
      | number n =>
        obtain ⟨i, hn, hi⟩ := Option.bind_eq_some_iff.1 h
        refine ⟨i, hi, ?_⟩
        rw [Nat.zero_add, eq_ofInt_of_toWord? hn]
        rfl
      | _ => cases h
  | map e entries =>
    refine ⟨_, rfl, fun key x => ?_⟩
    rw [mem_keyed_iff]
    obtain ⟨k, d⟩ := key
    have stays {name : String} (h : name ∈ names entries) : string name = bare (.string name) := by
      obtain ⟨s, rfl⟩ := here.1.canonical name h
      rw [string, places.1 s h]
    constructor
    · rintro ⟨name, hx, eq⟩
      rw [stays (mem_names hx)] at eq
      cases eq
      exact lookup_of_mem (Names.nodup_of_sorted here.1.sorted) hx
    · intro h
      cases d with
      | string s =>
        have hx := mem_of_lookup h
        exact ⟨s, hx, (stays (mem_names hx)).symm⟩
      | _ => cases h
  | _ => cases ht

theorem announces_unmark_iff : Announces (v.hasIndex key) (v.index key) ↔
    Announces (v.unmark.hasIndexBare key.unmark) (v.unmark.indexBare key.unmark) :=
  announces_map_iff (f := fun answer => (answer.withMarks v.marks).withMarks key.marks) fun _ => rfl

/-- Answers of values and lookups in them go together unless something misleads. -/
theorem announces_iff (ht : v.ty.key? = some t) (hk : key.ty ≠ .dynamic) :
    Announces (v.hasIndex key) (v.index key) ↔ ¬ Misleads v.content key.content :=
  announces_unmark_iff.trans
    (announces_bare_iff ((ty_unmark v).symm ▸ ht) ((ty_unmark key).symm ▸ hk))

/-- Only what is at a key is announced. -/
theorem exists_at? {answer : Value} (hv : v.Present) (ht : v.ty.key? = some t)
    (h : v.hasIndexBare key = .ok answer) (yes : answer.content = .bool true) :
    ∃ x, v.content.at? key.content = some x := by
  by_cases closed : key.ty = .dynamic
  · rw [hasIndexBare, if_pos (.inr closed)] at h
    cases h
    cases yes
  by_cases typed : key.ty = t
  swap
  · rw [hasIndexBare_of_key_type ht closed typed] at h
    cases h
    cases yes
  cases known : key.isKnown with
  | true =>
    rw [hasIndexBare_of_present hv ht typed known] at h
    cases h
    exact Option.isSome_iff_exists.1 (Content.bool.inj yes)
  | false =>
    obtain ⟨u, r, hc⟩ := isKnown_iff.1 known
    obtain rfl : u = t := (ty_of_content (w := bare (.unknown u r)) hc).symm.trans typed
    rw [(answers_of_unknown_key ht hc).1] at h
    cases h
    cases yes

theorem hasIndex_iff_at? (hv : v.Present) (ht : v.ty.key? = some t) :
    (∃ answer, v.hasIndex key = .ok answer ∧ answer.content = .bool true) ↔
      ∃ x, v.content.at? key.content = some x := by
  have present : v.unmark.Present := ⟨(isKnown_unmark v).trans hv.1, (isNull_unmark v).trans hv.2⟩
  rw [hasIndex]
  constructor
  · rintro ⟨answer, asked, yes⟩
    obtain ⟨raw, got, rfl⟩ := ValueAlgebra.map_eq_ok asked
    have typed : v.unmark.ty.key? = some t := (ty_unmark v).symm ▸ ht
    have there := exists_at? present typed got yes
    exact there
  · rintro ⟨x, hx⟩
    have hx : v.unmark.content.at? key.unmark.content = some x := hx
    rw [(answers_of_at? hx).1]
    exact ⟨_, rfl, rfl⟩

/-- The marks of the container and those of the key go to the element. -/
theorem index_of_at? {x : Value} (h : v.content.at? key.content = some x) :
    v.index key = .ok ((x.withMarks v.marks).withMarks key.marks) := by
  have h : v.unmark.content.at? key.unmark.content = some x := h
  rw [index, (answers_of_at? h).2]
  rfl

/-- The answer for a key that is not of dynamic type announces what the lookup does, unless the
container and the key are one of the pairs that mislead. The keys of the elements of a container
that is there are those with the answer yes, and the lookup finds these elements at them. -/
theorem hasIndex_announces_index (ht : v.ty.key? = some t) :
    (∀ key : Value, key.ty ≠ .dynamic →
      (Announces (v.hasIndex key) (v.index key) ↔ ¬ Misleads v.content key.content)) ∧
    (v.Present → v.WellMade → v.Addressable → ∃ es, v.unmark.elements = .ok es ∧
      ∀ key : Value,
        ((∃ answer, v.hasIndex key = .ok answer ∧ answer.content = .bool true) ↔
          ∃ x, (key.unmark, x) ∈ es) ∧
        ∀ x, (key.unmark, x) ∈ es →
          v.index key = .ok ((x.withMarks v.marks).withMarks key.marks)) := by
  refine ⟨fun key hk => announces_iff ht hk, fun hv made found => ?_⟩
  obtain ⟨es, he, mem⟩ := elements_of_present hv ht made found
  refine ⟨es, he, fun key => ⟨?_, fun x hx => index_of_at? ((mem key x).1 hx)⟩⟩
  simp only [hasIndex_iff_at? hv ht, mem]

/-- A null tuple is asked for an element that its type has, an unknown list for one before the first
one, and an unknown map for one at null. -/
theorem hasIndex_misleads :
    (¬ Announces ((null (.tuple [.string])).hasIndex (ofNat 0))
      ((null (.tuple [.string])).index (ofNat 0))) ∧
    (¬ Announces ((unknown (.list .string)).hasIndex (number (.ofInt (-1))))
      ((unknown (.list .string)).index (number (.ofInt (-1))))) ∧
    ¬ Announces ((unknown (.map .number)).hasIndex (null .string))
      ((unknown (.map .number)).index (null .string)) := by
  have misled {v key : Value} (h : Misleads v.unmark.content key.unmark.content) :
      ¬ Announces (v.hasIndex key) (v.index key) := fun told =>
    not_announces_of_misleads h (announces_unmark_iff.1 told)
  have first : (Number.ofInt 0).toWord? = some 0 := by decide +kernel
  have before : (Number.ofInt (-1)).toWord? = none := by decide +kernel
  exact ⟨misled (.nullTuple first Nat.one_pos), misled (.unknownList before), misled .unknownMap⟩

/-- A list with a mark. -/
theorem hasIndex_announces_index_list :
    let v : Value := ⟨.ofList ["outer"], .list .string [string "x"]⟩
    v.ty.key? = some .number ∧ v.Present ∧ v.WellMade ∧ v.Addressable ∧
      Announces (v.hasIndex (ofNat 0)) (v.index (ofNat 0)) ∧
      v.index (ofNat 0) = .ok ⟨.ofList ["outer"], (string "x").content⟩ := by
  intro v
  have part : ∀ w ∈ v.content.parts, w = string "x" := fun w hw => List.mem_singleton.1 hw
  have made : v.WellMade :=
    .intro (fun w hw => part w hw ▸ rfl) fun w hw => part w hw ▸ wellMade_string _
  have found : v.Addressable :=
    .intro ⟨nofun, by decide⟩ fun w hw => part w hw ▸ .intro ⟨nofun, by decide⟩ nofun
  have present : v.Present := ⟨rfl, rfl⟩
  obtain ⟨told, elements⟩ := hasIndex_announces_index (v := v) (t := .number) rfl
  obtain ⟨es, he, asked⟩ := elements present made found
  refine ⟨rfl, present, made, found, (told (ofNat 0) nofun).2 nofun, ?_⟩
  cases he
  exact (asked (ofNat 0)).2 (string "x") List.mem_cons_self

end Value

end ValueAlgebra
