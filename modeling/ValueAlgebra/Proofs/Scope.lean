import ValueAlgebra.Proofs.OpenParts
import ValueAlgebra.Value.Build
import ValueAlgebra.Value.Height

/-!
# Values within a scope

The constructors of values keep some promises: the elements of a list have the type that the list
says, names are in canonical form, what a variant holds fits the variant. `Value.Within S` states
these promises together with what a scope `S` asks of all types, texts and least lengths in a value.
It holds of what the constructors make of parts within the scope.

A scope is deep if it looks into the variants of unions too. The type of a union does not hang on
what it holds, so facts about types get by with scopes that are not deep.

Main statements:

* `Scope.closed_upTo`: an example of a scope that has all that conversions make.
* `Value.Within.ty`: the type of a value within a scope is within the scope.
* `Value.Within.mono`, `Value.Within.unmarkDeep`: scopes that ask for less, and values without marks.
-/

namespace ValueAlgebra

open Entries Text

/-! ## Scopes -/

/-- What is asked of the parts of a value. -/
structure Scope where
  /-- What is asked of each type in a value, apart from the types inside of it. -/
  types : Ty → Prop
  /-- What is asked of strings, and of numbers in the form of strings. -/
  texts : String → Prop
  /-- What is asked of the least length of an unknown collection. -/
  lengths : Nat → Prop
  /-- Variants of unions are looked into. -/
  deep : Prop

/-- The parts that conversions make new are within a scope. -/
structure Scope.Closed (S : Scope) : Prop where
  structural : Ty.Structural S.types
  headed : ∀ t, S.types t → t.Headed
  dynamic : S.types .dynamic
  flag : ∀ b : Bool, S.texts (normalize (if b then "true" else "false"))
  parsed : ∀ s n, S.texts s → Number.parse s = .ok n → S.texts (normalize n.render)
  shorter : ∀ {m n}, S.lengths n → m ≤ n → S.lengths m
  empty : S.lengths 0
  tuple : ∀ ts, S.types (.tuple ts) → S.lengths ts.length
  object : ∀ as os, S.types (.object as os) → S.lengths as.length

/-- The values of a scope whose types have a further property. -/
def Scope.restrict (S : Scope) (p : Ty → Prop) : Scope :=
  { S with types := fun t => S.types t ∧ p t }

theorem Scope.Closed.restrict {S : Scope} (hS : S.Closed) {p : Ty → Prop} (hp : Ty.Structural p)
    (hd : p .dynamic) : (S.restrict p).Closed where
  structural := hS.structural.and hp
  headed t h := hS.headed t h.1
  dynamic := ⟨hS.dynamic, hd⟩
  flag := hS.flag
  parsed := hS.parsed
  shorter := hS.shorter
  empty := hS.empty
  tuple ts h := hS.tuple ts h.1
  object as os h := hS.object as os h.1

/-- The number of attributes or elements that a type asks for. -/
def Ty.partCount : Ty → Nat
  | .object attributes _ => attributes.length
  | .tuple elements => elements.length
  | _ => 0

theorem Ty.structural_partCount (n : Nat) : Structural fun t => t.partCount ≤ n where
  number := Nat.zero_le _
  string := Nat.zero_le _
  bool := Nat.zero_le _
  list _ := Nat.zero_le _
  set _ := Nat.zero_le _
  map _ := Nat.zero_le _
  object {as bs _} h hn := by
    rw [partCount, ← length_names, hn, length_names]
    exact h
  tuple {ts us} h hl := by
    rw [partCount, hl]
    exact h
  union _ _ _ := Nat.zero_le _

/-- The scope of the values without longer structures and longer least lengths of unknown
collections. -/
def Scope.upTo (n : Nat) : Scope where
  types t := t.Headed ∧ t.partCount ≤ n
  texts _ := True
  lengths m := m ≤ n
  deep := True

theorem Scope.closed_upTo (n : Nat) : (Scope.upTo n).Closed where
  structural := Ty.structural_headed.and (Ty.structural_partCount n)
  headed _ h := h.1
  dynamic := ⟨⟨Names.proper_nil, by simp⟩, Nat.zero_le n⟩
  flag _ := trivial
  parsed _ _ _ _ := trivial
  shorter h hmn := Nat.le_trans hmn h
  empty := Nat.zero_le n
  tuple _ h := h.2
  object _ _ h := h.2

/-- The scope of all values that can be built. -/
abbrev Scope.all : Scope :=
  .upTo Refining.lengthLimit

/-- The scope of the values whose elements, if all of them are known one day, fit in a list. -/
abbrev Scope.ample : Scope :=
  .upTo Refining.listCapacity

/-- What is known about an unknown value does not fix it to null, and leaves a length. -/
def Refinement.Coherent (r : Refinement) : Prop :=
  r.nullness ≠ .null ∧ r.minLength ≤ r.maxLength.getD Refining.lengthLimit

theorem Refinement.coherent_unconstrained : Refinement.unconstrained.Coherent :=
  ⟨(by intro h; cases h), Nat.zero_le _⟩

namespace Value

/-- What a variant of a type may hold. This is the check of `Value.union`. -/
def Fits (v : Value) (wanted : Ty) : Prop :=
  (if wanted.hasDynamic then v.ty.conforms wanted else v.ty == wanted.withoutOptional) = true

/-- The promises of the constructors of values, and what a scope asks of the parts of a value. -/
inductive Within (S : Scope) : Value → Prop where
  | null {m : MarkSet} {t : Ty} (ht : t.Everywhere S.types) : Within S ⟨m, .null t⟩
  | unknown {m : MarkSet} {t : Ty} {r : Refinement} (ht : t.Everywhere S.types)
      (hr : r.Coherent) (hl : S.lengths r.minLength) : Within S ⟨m, .unknown t r⟩
  | number {m : MarkSet} {n : Number} (h : S.texts (normalize n.render)) : Within S ⟨m, .number n⟩
  | string {m : MarkSet} {s : String} (h : S.texts s) : Within S ⟨m, .string s⟩
  | bool {m : MarkSet} {b : Bool} : Within S ⟨m, .bool b⟩
  | list {m : MarkSet} {e : Ty} {items : List Value} (he : e.Everywhere S.types)
      (ht : ∀ v ∈ items, v.ty = e) (hv : ∀ v ∈ items, Within S v) : Within S ⟨m, .list e items⟩
  | set {m : MarkSet} {e : Ty} {items : List Value} (he : e.Everywhere S.types)
      (ht : ∀ v ∈ items, v.ty = e) (hv : ∀ v ∈ items, Within S v) : Within S ⟨m, .set e items⟩
  | map {m : MarkSet} {e : Ty} {entries : List (String × Value)} (he : e.Everywhere S.types)
      (hn : Names.Proper (names entries)) (ht : ∀ v ∈ values entries, v.ty = e)
      (hv : ∀ v ∈ values entries, Within S v) : Within S ⟨m, .map e entries⟩
  | object {m : MarkSet} {attributes : List (String × Value)}
      (ht : S.types (.object (entryTypes attributes) []))
      (hv : ∀ v ∈ values attributes, Within S v) : Within S ⟨m, .object attributes⟩
  | tuple {m : MarkSet} {items : List Value} (ht : S.types (.tuple (types items)))
      (hv : ∀ v ∈ items, Within S v) : Within S ⟨m, .tuple items⟩
  | union {m : MarkSet} {variants : List (String × Ty)} {name : String} {wanted : Ty}
      {inner : Value} (ht : (Ty.union variants).Everywhere S.types)
      (hw : variants.lookup name = some wanted) (hf : inner.Fits wanted)
      (ha : S.deep → inner.ty.Fills wanted) (hi : S.deep → Within S inner) :
      Within S ⟨m, .union variants name inner⟩
  | capsule {m : MarkSet} {c : CapsuleType} {p : Payload} (h : S.types (.capsule c)) :
      Within S ⟨m, .capsule c p⟩

variable {S : Scope} {v : Value}

/-! ## Types, marks and heights of parts -/

theorem names_entryTypes (entries : List (String × Value)) :
    names (entryTypes entries) = names entries := by
  rw [entryTypes_eq_mapValues, names_mapValues]

theorem mem_types {vs : List Value} {t : Ty} : t ∈ types vs ↔ ∃ v ∈ vs, v.ty = t := by
  rw [types_eq_map, List.mem_map]

theorem length_types (vs : List Value) : (types vs).length = vs.length := by
  rw [types_eq_map, List.length_map]

theorem lookup_entryTypes (name : String) (entries : List (String × Value)) :
    (entryTypes entries).lookup name = (entries.lookup name).map ty := by
  rw [entryTypes_eq_mapValues, lookup_mapValues]

theorem mem_entryTypes {name : String} {t : Ty} {entries : List (String × Value)} :
    (name, t) ∈ entryTypes entries ↔ ∃ v, (name, v) ∈ entries ∧ v.ty = t := by
  rw [entryTypes_eq_mapValues, mem_mapValues]

theorem height_le_heightAll {vs : List Value} (h : v ∈ vs) : v.height ≤ heightAll vs := by
  induction vs with
  | nil => cases h
  | cons w vs ih =>
    rw [heightAll]
    rcases List.mem_cons.1 h with rfl | h
    · exact Nat.le_max_left ..
    · exact Nat.le_trans (ih h) (Nat.le_max_right ..)

theorem height_le_heightEntries {entries : List (String × Value)} (h : v ∈ values entries) :
    v.height ≤ heightEntries entries := by
  induction entries with
  | nil => cases h
  | cons entry entries ih =>
    obtain ⟨name, w⟩ := entry
    rw [heightEntries]
    rcases List.mem_cons.1 h with rfl | h
    · exact Nat.le_max_left ..
    · exact Nat.le_trans (ih h) (Nat.le_max_right ..)

theorem heightAll_pos (vs : List Value) : 0 < heightAll vs := by
  cases vs with
  | nil => exact Nat.one_pos
  | cons v vs => exact Nat.lt_of_lt_of_le v.height_pos (Nat.le_max_left ..)

theorem heightEntries_pos (entries : List (String × Value)) : 0 < heightEntries entries := by
  cases entries with
  | nil => exact Nat.one_pos
  | cons entry entries => exact Nat.lt_of_lt_of_le entry.2.height_pos (Nat.le_max_left ..)

theorem heightAll_le {vs : List Value} {n : Nat} (hn : 0 < n) (h : ∀ v ∈ vs, v.height ≤ n) :
    heightAll vs ≤ n := by
  induction vs with
  | nil => exact hn
  | cons w vs ih =>
    rw [heightAll]
    exact Nat.max_le.2 ⟨h w List.mem_cons_self, ih fun v hv => h v (List.mem_cons_of_mem _ hv)⟩

theorem heightEntries_le {entries : List (String × Value)} {n : Nat} (hn : 0 < n)
    (h : ∀ v ∈ values entries, v.height ≤ n) : heightEntries entries ≤ n := by
  induction entries with
  | nil => exact hn
  | cons entry entries ih =>
    rw [heightEntries]
    exact Nat.max_le.2 ⟨h entry.2 List.mem_cons_self, ih fun v hv => h v (List.mem_cons_of_mem _ hv)⟩

/-- Parts are less high than the value. -/
theorem height_lt_object {m : MarkSet} {entries : List (String × Value)}
    (h : v ∈ values entries) : v.height < (⟨m, .object entries⟩ : Value).height := by
  rw [height]
  exact Nat.lt_succ_of_le (height_le_heightEntries h)

theorem height_lt_map {m : MarkSet} {e : Ty} {entries : List (String × Value)}
    (h : v ∈ values entries) : v.height < (⟨m, .map e entries⟩ : Value).height := by
  rw [height]
  exact Nat.lt_succ_of_le (height_le_heightEntries h)

theorem height_lt_tuple {m : MarkSet} {items : List Value} (h : v ∈ items) :
    v.height < (⟨m, .tuple items⟩ : Value).height := by
  rw [height]
  exact Nat.lt_succ_of_le (height_le_heightAll h)

theorem height_lt_union {m : MarkSet} {variants : List (String × Ty)} {name : String} :
    v.height < (⟨m, .union variants name v⟩ : Value).height := by
  rw [height]
  exact Nat.lt_succ_self _

/-- Marks do not count for type and height. -/
theorem ty_of_content {v w : Value} (h : v.content = w.content) : v.ty = w.ty := by
  obtain ⟨m, c⟩ := v
  obtain ⟨n, d⟩ := w
  cases h
  cases c <;> simp only [ty]

theorem height_of_content {v w : Value} (h : v.content = w.content) : v.height = w.height := by
  obtain ⟨m, c⟩ := v
  obtain ⟨n, d⟩ := w
  cases h
  cases c <;> simp only [height]

theorem isKnown_of_content {v w : Value} (h : v.content = w.content) :
    v.isKnown = w.isKnown := by
  obtain ⟨m, c⟩ := v
  obtain ⟨n, d⟩ := w
  cases h
  cases c <;> rfl

theorem isNull_of_content {v w : Value} (h : v.content = w.content) : v.isNull = w.isNull := by
  obtain ⟨m, c⟩ := v
  obtain ⟨n, d⟩ := w
  cases h
  cases c <;> rfl

@[simp] theorem ty_withMarks (v : Value) (marks : MarkSet) : (v.withMarks marks).ty = v.ty :=
  ty_of_content rfl

@[simp] theorem ty_unmark (v : Value) : v.unmark.ty = v.ty :=
  ty_of_content rfl

@[simp] theorem height_withMarks (v : Value) (marks : MarkSet) :
    (v.withMarks marks).height = v.height :=
  height_of_content rfl

@[simp] theorem height_unmark (v : Value) : v.unmark.height = v.height :=
  height_of_content rfl

theorem Within.of_content {w : Value} (h : v.Within S) (hc : w.content = v.content) :
    w.Within S := by
  obtain ⟨n, d⟩ := w
  cases hc
  cases h with
  | null ht => exact .null ht
  | unknown ht hr hl => exact .unknown ht hr hl
  | number h => exact .number h
  | string h => exact .string h
  | bool => exact .bool
  | list he ht hv => exact .list he ht hv
  | set he ht hv => exact .set he ht hv
  | map he hn ht hv => exact .map he hn ht hv
  | object ht hv => exact .object ht hv
  | tuple ht hv => exact .tuple ht hv
  | union ht hw hf ha hi => exact .union ht hw hf ha hi
  | capsule h => exact .capsule h

theorem Within.withMarks (h : v.Within S) (marks : MarkSet) : (v.withMarks marks).Within S :=
  h.of_content rfl

theorem Within.unmark (h : v.Within S) : v.unmark.Within S :=
  h.of_content rfl

/-- The type of a value within a scope is within the scope. -/
theorem Within.ty (hS : S.Closed) (h : v.Within S) : v.ty.Everywhere S.types := by
  induction h with
  | null ht | unknown ht | union ht => exact ht
  | number => exact (Ty.everywhere_leaf rfl).2 hS.structural.number
  | string => exact (Ty.everywhere_leaf rfl).2 hS.structural.string
  | bool => exact (Ty.everywhere_leaf rfl).2 hS.structural.bool
  | list he => exact Ty.everywhere_list.2 ⟨hS.structural.list _, he⟩
  | set he => exact Ty.everywhere_set.2 ⟨hS.structural.set _, he⟩
  | map he => exact Ty.everywhere_map.2 ⟨hS.structural.map _, he⟩
  | @object m attributes ht hv ih =>
    refine Ty.everywhere_object.2 ⟨ht, fun a ha => ?_⟩
    obtain ⟨name, ha⟩ := exists_of_mem_values ha
    obtain ⟨w, hw, rfl⟩ := mem_entryTypes.1 ha
    exact ih w (mem_values hw)
  | tuple ht hv ih =>
    refine Ty.everywhere_tuple.2 ⟨ht, fun a ha => ?_⟩
    obtain ⟨w, hw, rfl⟩ := mem_types.1 ha
    exact ih w hw
  | capsule h => exact (Ty.everywhere_leaf rfl).2 h

theorem Within.wellFormed_ty (hS : S.Closed) (h : v.Within S) : v.ty.WellFormed :=
  (h.ty hS).mono hS.headed

/-- A scope that asks for less. -/
theorem Within.mono {T : Scope} (h : v.Within S) (types : ∀ t, S.types t → T.types t)
    (texts : ∀ s, S.texts s → T.texts s) (lengths : ∀ n, S.lengths n → T.lengths n)
    (deep : T.deep → S.deep) : v.Within T := by
  induction h with
  | null ht => exact .null (ht.mono types)
  | unknown ht hr hl => exact .unknown (ht.mono types) hr (lengths _ hl)
  | number h => exact .number (texts _ h)
  | string h => exact .string (texts _ h)
  | bool => exact .bool
  | list he ht _ ih => exact .list (he.mono types) ht ih
  | set he ht _ ih => exact .set (he.mono types) ht ih
  | map he hn ht _ ih => exact .map (he.mono types) hn ht ih
  | object ht _ ih => exact .object (types _ ht) ih
  | tuple ht _ ih => exact .tuple (types _ ht) ih
  | union ht hw hf ha _ ih =>
    exact .union (ht.mono types) hw hf (fun hd => ha (deep hd)) fun hd => ih (deep hd)
  | capsule h => exact .capsule (types _ h)

/-! ## Nulls and unknowns -/

theorem within_null {t : Ty} (ht : t.Everywhere S.types) : (Value.null t).Within S :=
  .null ht

theorem within_unknown (hS : S.Closed) {t : Ty} (ht : t.Everywhere S.types) :
    (Value.unknown t).Within S :=
  .unknown ht Refinement.coherent_unconstrained hS.empty

/-! ## Values without marks at any depth -/

theorem unmarkDeepAll_eq_map (vs : List Value) : unmarkDeepAll vs = vs.map unmarkDeep := by
  induction vs with
  | nil => rfl
  | cons v vs ih => rw [unmarkDeepAll, ih, List.map_cons]

theorem unmarkDeepEntries_eq_mapValues (entries : List (String × Value)) :
    unmarkDeepEntries entries = mapValues unmarkDeep entries := by
  induction entries with
  | nil => rfl
  | cons entry entries ih =>
    obtain ⟨name, v⟩ := entry
    rw [unmarkDeepEntries, ih]
    rfl

mutual

theorem ty_unmarkDeep : ∀ v : Value, v.unmarkDeep.ty = v.ty
  | ⟨_, .null _⟩ | ⟨_, .unknown _ _⟩ | ⟨_, .number _⟩ | ⟨_, .string _⟩ | ⟨_, .bool _⟩
  | ⟨_, .list _ _⟩ | ⟨_, .set _ _⟩ | ⟨_, .map _ _⟩ | ⟨_, .union _ _ _⟩
  | ⟨_, .capsule _ _⟩ => by simp only [unmarkDeep, bare, ty]
  | ⟨_, .object entries⟩ => by
    simp only [unmarkDeep, bare, ty, entryTypes_unmarkDeep entries]
  | ⟨_, .tuple items⟩ => by simp only [unmarkDeep, bare, ty, types_unmarkDeep items]

theorem types_unmarkDeep : ∀ vs : List Value, types (unmarkDeepAll vs) = types vs
  | [] => rfl
  | v :: vs => by rw [unmarkDeepAll, types, types, ty_unmarkDeep v, types_unmarkDeep vs]

theorem entryTypes_unmarkDeep : ∀ entries : List (String × Value),
    entryTypes (unmarkDeepEntries entries) = entryTypes entries
  | [] => rfl
  | (name, v) :: entries => by
    rw [unmarkDeepEntries, entryTypes, entryTypes, ty_unmarkDeep v,
      entryTypes_unmarkDeep entries]

end

mutual

theorem height_unmarkDeep : ∀ v : Value, v.unmarkDeep.height = v.height
  | ⟨_, .null _⟩ | ⟨_, .unknown _ _⟩ | ⟨_, .number _⟩ | ⟨_, .string _⟩ | ⟨_, .bool _⟩
  | ⟨_, .set _ _⟩ | ⟨_, .capsule _ _⟩ => by simp only [unmarkDeep, bare, height]
  | ⟨_, .list _ items⟩ | ⟨_, .tuple items⟩ => by
    simp only [unmarkDeep, bare, height, heightAll_unmarkDeep items]
  | ⟨_, .map _ entries⟩ | ⟨_, .object entries⟩ => by
    simp only [unmarkDeep, bare, height, heightEntries_unmarkDeep entries]
  | ⟨_, .union _ _ inner⟩ => by simp only [unmarkDeep, bare, height, height_unmarkDeep inner]

theorem heightAll_unmarkDeep : ∀ vs : List Value, heightAll (unmarkDeepAll vs) = heightAll vs
  | [] => rfl
  | v :: vs => by
    rw [unmarkDeepAll, heightAll, heightAll, height_unmarkDeep v, heightAll_unmarkDeep vs]

theorem heightEntries_unmarkDeep : ∀ entries : List (String × Value),
    heightEntries (unmarkDeepEntries entries) = heightEntries entries
  | [] => rfl
  | (name, v) :: entries => by
    rw [unmarkDeepEntries, heightEntries, heightEntries, height_unmarkDeep v,
      heightEntries_unmarkDeep entries]

end

theorem Within.unmarkDeep (h : v.Within S) : v.unmarkDeep.Within S := by
  have tys {vs : List Value} {e : Ty} (ht : ∀ v ∈ vs, v.ty = e) :
      ∀ v ∈ vs.map Value.unmarkDeep, v.ty = e := by
    rw [List.forall_mem_map]
    exact fun v hv => (ty_unmarkDeep v).trans (ht v hv)
  induction h with
  | null ht => exact .null ht
  | unknown ht hr hl => exact .unknown ht hr hl
  | number h => exact .number h
  | string h => exact .string h
  | bool => exact .bool
  | list he ht _ ih =>
    rw [Value.unmarkDeep, unmarkDeepAll_eq_map]
    exact .list he (tys ht) (List.forall_mem_map.2 ih)
  | set he ht hv => exact .set he ht hv
  | @map m e entries he hn ht _ ih =>
    rw [Value.unmarkDeep, unmarkDeepEntries_eq_mapValues]
    refine .map he (by rwa [names_mapValues]) ?_ ?_
    · rw [values_mapValues]
      exact tys ht
    · rw [values_mapValues]
      exact List.forall_mem_map.2 ih
  | @object m entries ht _ ih =>
    rw [Value.unmarkDeep]
    refine .object (by rwa [entryTypes_unmarkDeep]) ?_
    rw [unmarkDeepEntries_eq_mapValues, values_mapValues]
    exact List.forall_mem_map.2 ih
  | @tuple m items ht _ ih =>
    rw [Value.unmarkDeep]
    refine .tuple (by rwa [types_unmarkDeep]) ?_
    rw [unmarkDeepAll_eq_map]
    exact List.forall_mem_map.2 ih
  | union ht hw hf ha _ ih =>
    rw [Value.unmarkDeep]
    refine .union ht hw ?_ (fun hd => ?_) ih
    · rw [Fits, ty_unmarkDeep]
      exact hf
    · rw [ty_unmarkDeep]
      exact ha hd
  | capsule h => exact .capsule h

end Value

end ValueAlgebra
