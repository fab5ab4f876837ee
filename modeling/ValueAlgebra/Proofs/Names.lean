import Mathlib
import ValueAlgebra.Ty.Build

/-!
# Facts about named entries

Types and values keep their named parts as lists of entries. The names of a list that was made by
`Ty.namedParts` are sorted and in canonical form (`Names.Proper`). Such a list is left alone by
`Ty.namedParts`, and it is determined by what its names are looked up to.

Main statements:

* `Entries.lookup_ofList`: a sorted list has, for each name, the last entry of that name.
* `Entries.namedParts_of_proper`: a list with proper names is its own sorted form.
* `Entries.Paired.lookup`: lists that are paired name by name are so under lookups.
-/

namespace ValueAlgebra

open Text

/-! ## Lists that are related element by element -/

section

variable {α β : Type} {R : α → β → Prop} {xs : List α} {ys : List β}

theorem exists_left_of_forall₂ {y : β} (h : List.Forall₂ R xs ys) (hy : y ∈ ys) :
    ∃ x ∈ xs, R x y := by
  induction h with
  | nil => cases hy
  | @cons x z xs ys hx _ ih =>
    rcases List.mem_cons.1 hy with rfl | hy
    · exact ⟨x, List.mem_cons_self, hx⟩
    · obtain ⟨x', hx', hR⟩ := ih hy
      exact ⟨x', List.mem_cons_of_mem _ hx', hR⟩

theorem exists_right_of_forall₂ {x : α} (h : List.Forall₂ R xs ys) (hx : x ∈ xs) :
    ∃ y ∈ ys, R x y := by
  obtain ⟨y, hy, hR⟩ := exists_left_of_forall₂ h.flip hx
  exact ⟨y, hy, hR⟩

theorem getElem?_of_forall₂ {i : Nat} {x : α} {y : β} (h : List.Forall₂ R xs ys)
    (hx : xs[i]? = some x) (hy : ys[i]? = some y) : R x y := by
  induction h generalizing i with
  | nil => cases hx
  | cons hR _ ih =>
    cases i with
    | zero =>
      cases hx
      cases hy
      exact hR
    | succ i => exact ih hx hy

theorem ne_nil_of_length_eq (hl : xs.length = ys.length) (h : ys ≠ []) : xs ≠ [] :=
  List.ne_nil_of_length_pos (hl ▸ List.length_pos_of_ne_nil h)

theorem getElem?_of_zip {γ : Type} {S : α × β → γ → Prop} {zs : List γ} {i : Nat} {z : γ}
    (h : List.Forall₂ S (xs.zip ys) zs) (hz : zs[i]? = some z) :
    ∃ x y, xs[i]? = some x ∧ ys[i]? = some y ∧ S (x, y) z := by
  have hi : i < zs.length := (List.getElem?_eq_some_iff.1 hz).1
  rw [← h.length_eq, List.length_zip] at hi
  have hx := List.getElem?_eq_getElem (Nat.lt_of_lt_of_le hi (Nat.min_le_left ..))
  have hy := List.getElem?_eq_getElem (Nat.lt_of_lt_of_le hi (Nat.min_le_right ..))
  exact ⟨_, _, hx, hy, getElem?_of_forall₂ h (List.getElem?_zip_eq_some.2 ⟨hx, hy⟩) hz⟩

end

/-! ## Names -/

/-- Names in the order and form in which they are kept. -/
def Names.Proper (names : List String) : Prop :=
  names.Pairwise (· < ·) ∧ ∀ name ∈ names, normalize name = name

theorem Names.nodup_of_sorted {names : List String} (h : names.Pairwise (· < ·)) : names.Nodup :=
  h.imp fun lt eq => by
    rw [eq] at lt
    exact String.lt_irrefl _ lt

theorem Names.Proper.nodup {names : List String} (h : Names.Proper names) : names.Nodup :=
  nodup_of_sorted h.1

theorem Names.Proper.of_sublist {names others : List String} (h : Names.Proper names)
    (hs : others.Sublist names) : Names.Proper others :=
  ⟨h.1.sublist hs, fun name hn => h.2 name (hs.subset hn)⟩

theorem Names.proper_nil : Names.Proper [] :=
  ⟨.nil, by simp⟩

theorem Names.mem_ofList {name : String} {names : List String} :
    name ∈ ofList names ↔ name ∈ names := by
  have step (done rest : List String) :
      name ∈ rest.foldl (fun sorted name => insert name sorted) done ↔
        name ∈ done ∨ name ∈ rest := by
    induction rest generalizing done with
    | nil => simp
    | cons other rest ih => rw [List.foldl_cons, ih, mem_insert, List.mem_cons]; tauto
  rw [ofList, step]
  simp

theorem Names.sorted_ofList (names : List String) : (ofList names).Pairwise (· < ·) := by
  have step (done rest : List String) (h : done.Pairwise (· < ·)) :
      (rest.foldl (fun sorted name => insert name sorted) done).Pairwise (· < ·) := by
    induction rest generalizing done with
    | nil => exact h
    | cons other rest ih => exact ih _ (sorted_insert h)
  exact step [] names .nil

theorem Names.ofList_of_sorted {names : List String} (h : names.Pairwise (· < ·)) :
    ofList names = names :=
  (sorted_ofList names).eq_of_mem_iff h fun _ => mem_ofList

namespace Entries

variable {α β γ : Type}

/-! ## Lookups -/

@[simp] theorem names_nil : names ([] : List (String × α)) = [] := rfl

@[simp] theorem names_cons (name : String) (a : α) (entries : List (String × α)) :
    names ((name, a) :: entries) = name :: names entries := rfl

@[simp] theorem values_nil : values ([] : List (String × α)) = [] := rfl

@[simp] theorem values_cons (name : String) (a : α) (entries : List (String × α)) :
    values ((name, a) :: entries) = a :: values entries := rfl

theorem names_append (as bs : List (String × α)) : names (as ++ bs) = names as ++ names bs :=
  List.map_append ..

theorem values_append (as bs : List (String × α)) : values (as ++ bs) = values as ++ values bs :=
  List.map_append ..

theorem length_names (entries : List (String × α)) : (names entries).length = entries.length :=
  List.length_map ..

theorem lookup_cons (name key : String) (a : α) (entries : List (String × α)) :
    ((key, a) :: entries).lookup name = if name = key then some a else entries.lookup name := by
  rw [List.lookup_cons]
  by_cases eq : name = key
  · simp [eq]
  · rw [beq_eq_false_iff_ne.2 eq, if_neg eq]

theorem mem_names {name : String} {a : α} {entries : List (String × α)}
    (h : (name, a) ∈ entries) : name ∈ names entries :=
  List.mem_map.2 ⟨_, h, rfl⟩

theorem mem_values {name : String} {a : α} {entries : List (String × α)}
    (h : (name, a) ∈ entries) : a ∈ values entries :=
  List.mem_map.2 ⟨_, h, rfl⟩

theorem exists_of_mem_names {name : String} {entries : List (String × α)}
    (h : name ∈ names entries) : ∃ a, (name, a) ∈ entries := by
  obtain ⟨⟨_, a⟩, ha, rfl⟩ := List.mem_map.1 h
  exact ⟨a, ha⟩

theorem exists_of_mem_values {a : α} {entries : List (String × α)} (h : a ∈ values entries) :
    ∃ name, (name, a) ∈ entries := by
  obtain ⟨⟨name, _⟩, ha, rfl⟩ := List.mem_map.1 h
  exact ⟨name, ha⟩

theorem mem_of_lookup {name : String} {a : α} {entries : List (String × α)}
    (h : entries.lookup name = some a) : (name, a) ∈ entries := by
  induction entries with
  | nil => cases h
  | cons entry rest ih =>
    obtain ⟨other, b⟩ := entry
    rw [lookup_cons] at h
    split at h
    · rename_i eq
      cases h
      rw [eq]
      exact List.mem_cons_self
    · exact List.mem_cons_of_mem _ (ih h)

theorem exists_lookup {name : String} {entries : List (String × α)} :
    (∃ a, entries.lookup name = some a) ↔ name ∈ names entries := by
  induction entries with
  | nil => simp
  | cons entry rest ih =>
    obtain ⟨key, b⟩ := entry
    rw [lookup_cons, names_cons, List.mem_cons, ← ih]
    by_cases eq : name = key <;> simp [eq]

theorem lookup_eq_none {name : String} {entries : List (String × α)} :
    entries.lookup name = none ↔ name ∉ names entries := by
  rw [← exists_lookup, ← Option.isSome_iff_exists, Option.not_isSome_iff_eq_none]

theorem lookup_of_mem {name : String} {a : α} {entries : List (String × α)}
    (hd : (names entries).Nodup) (h : (name, a) ∈ entries) : entries.lookup name = some a := by
  induction entries with
  | nil => cases h
  | cons entry rest ih =>
    obtain ⟨other, b⟩ := entry
    rw [names_cons, List.nodup_cons] at hd
    rcases List.mem_cons.1 h with h | h
    · cases h
      exact List.lookup_cons_self
    · have ne : name ≠ other := fun eq => hd.1 (eq ▸ mem_names h)
      rw [lookup_cons, if_neg ne]
      exact ih hd.2 h

theorem eq_of_mem {name : String} {a b : α} {entries : List (String × α)}
    (hd : (names entries).Nodup) (ha : (name, a) ∈ entries) (hb : (name, b) ∈ entries) : a = b := by
  have := lookup_of_mem hd ha
  rw [lookup_of_mem hd hb] at this
  exact (Option.some.inj this).symm

theorem contains_iff {name : String} {entries : List (String × α)} :
    contains name entries = true ↔ name ∈ names entries := by
  rw [contains, Option.isSome_iff_exists, exists_lookup]

/-! ## Applying a function to what entries hold -/

@[simp] theorem names_mapValues (f : α → β) (entries : List (String × α)) :
    names (mapValues f entries) = names entries := by
  simp [names, mapValues]

@[simp] theorem values_mapValues (f : α → β) (entries : List (String × α)) :
    values (mapValues f entries) = (values entries).map f := by
  simp [values, mapValues]

theorem lookup_mapValues (f : α → β) (name : String) (entries : List (String × α)) :
    (mapValues f entries).lookup name = (entries.lookup name).map f := by
  induction entries with
  | nil => rfl
  | cons entry rest ih =>
    obtain ⟨other, a⟩ := entry
    simp only [mapValues, List.map_cons, lookup_cons] at ih ⊢
    split
    · rfl
    · exact ih

theorem mem_mapValues {f : α → β} {name : String} {b : β} {entries : List (String × α)} :
    (name, b) ∈ mapValues f entries ↔ ∃ a, (name, a) ∈ entries ∧ f a = b := by
  simp [mapValues]

theorem mapValues_congr {f : α → γ} {g : β → γ} {as : List (String × α)} {bs : List (String × β)}
    (hn : names as = names bs)
    (h : ∀ name a b, (name, a) ∈ as → (name, b) ∈ bs → f a = g b) :
    mapValues f as = mapValues g bs := by
  induction as generalizing bs with
  | nil =>
    cases bs with
    | nil => rfl
    | cons => cases hn
  | cons entry as ih =>
    obtain ⟨name, a⟩ := entry
    cases bs with
    | nil => cases hn
    | cons entry bs =>
      obtain ⟨other, b⟩ := entry
      simp only [names_cons, List.cons.injEq] at hn
      obtain ⟨rfl, hn⟩ := hn
      have head := h name a b List.mem_cons_self List.mem_cons_self
      have tail := ih hn fun n x y hx hy =>
        h n x y (List.mem_cons_of_mem _ hx) (List.mem_cons_of_mem _ hy)
      simp only [mapValues, List.map_cons] at tail ⊢
      rw [head, tail]

theorem mapValues_eq_self {f : α → α} {entries : List (String × α)}
    (h : ∀ a ∈ values entries, f a = a) : mapValues f entries = entries := by
  induction entries with
  | nil => rfl
  | cons entry rest ih =>
    obtain ⟨name, a⟩ := entry
    have head := h a List.mem_cons_self
    have tail := ih fun b hb => h b (List.mem_cons_of_mem _ hb)
    simp only [mapValues, List.map_cons] at tail ⊢
    rw [head, tail]

theorem zip_names_values (entries : List (String × α)) :
    (names entries).zip (values entries) = entries := by
  induction entries with
  | nil => rfl
  | cons entry rest ih =>
    obtain ⟨name, a⟩ := entry
    rw [names_cons, values_cons, List.zip_cons_cons, ih]

theorem names_zip {names : List String} {as : List α} (h : names.length = as.length) :
    Entries.names (names.zip as) = names :=
  List.map_fst_zip (Nat.le_of_eq h)

theorem values_zip {names : List String} {as : List α} (h : names.length = as.length) :
    values (names.zip as) = as :=
  List.map_snd_zip (Nat.le_of_eq h.symm)

/-! ## Sorted lists of entries -/

theorem lookup_insert (name other : String) (a : α) (entries : List (String × α)) :
    (insert name a entries).lookup other =
      if other = name then some a else entries.lookup other := by
  induction entries with
  | nil => exact lookup_cons ..
  | cons entry rest ih =>
    obtain ⟨key, b⟩ := entry
    unfold insert
    split
    · exact lookup_cons ..
    · split
      · rename_i eq
        rw [lookup_cons, lookup_cons, eq]
        split <;> rfl
      · rename_i ne
        rw [lookup_cons, lookup_cons, ih]
        by_cases eq : other = key
        · rw [if_pos eq, if_pos eq, if_neg fun h : other = name => ne (h.symm.trans eq)]
        · rw [if_neg eq, if_neg eq]

theorem lookup_ofList (name : String) (entries : List (String × α)) :
    (ofList entries).lookup name = entries.reverse.lookup name := by
  have step (done rest : List (String × α)) :
      (rest.foldl (fun sorted entry => insert entry.1 entry.2 sorted) done).lookup name =
        (rest.reverse.lookup name).or (done.lookup name) := by
    induction rest generalizing done with
    | nil => simp
    | cons entry rest ih =>
      obtain ⟨key, a⟩ := entry
      rw [List.foldl_cons, ih, lookup_insert, List.reverse_cons, List.lookup_append, lookup_cons]
      cases rest.reverse.lookup name with
      | some => rfl
      | none =>
        by_cases eq : name = key <;> simp [eq]
  rw [ofList, step]
  simp

theorem lookup_ofList_of_nodup {name : String} {entries : List (String × α)}
    (hd : (names entries).Nodup) : (ofList entries).lookup name = entries.lookup name := by
  rw [lookup_ofList]
  have hr : (names entries.reverse).Nodup := by
    rw [names, List.map_reverse]
    exact List.nodup_reverse.2 hd
  cases h : entries.lookup name with
  | some a => exact lookup_of_mem hr (List.mem_reverse.2 (mem_of_lookup h))
  | none =>
    rw [lookup_eq_none, names, List.map_reverse, List.mem_reverse]
    exact lookup_eq_none.1 h

theorem mem_names_ofList {name : String} {entries : List (String × α)} :
    name ∈ names (ofList entries) ↔ name ∈ names entries := by
  rw [← exists_lookup, lookup_ofList, exists_lookup, names, List.map_reverse, List.mem_reverse,
    names]

theorem names_insert (name : String) (a : α) (entries : List (String × α)) :
    names (insert name a entries) = Names.insert name (names entries) := by
  induction entries with
  | nil => rfl
  | cons entry rest ih =>
    obtain ⟨key, b⟩ := entry
    unfold insert Names.insert
    simp only [names_cons]
    split
    · rfl
    · split
      · rename_i eq
        rw [names_cons, eq]
      · rw [names_cons, ih]

theorem sorted_ofList (entries : List (String × α)) :
    (names (ofList entries)).Pairwise (· < ·) := by
  have step (done rest : List (String × α)) (h : (names done).Pairwise (· < ·)) :
      (names (rest.foldl (fun sorted entry => insert entry.1 entry.2 sorted) done)).Pairwise
        (· < ·) := by
    induction rest generalizing done with
    | nil => exact h
    | cons entry rest ih =>
      refine ih _ ?_
      rw [names_insert]
      exact Names.sorted_insert h
  exact step [] entries .nil

/-- Sorted lists with the same names have them in the same order. -/
theorem names_eq_of_sorted {as : List (String × α)} {bs : List (String × β)}
    (ha : (names as).Pairwise (· < ·)) (hb : (names bs).Pairwise (· < ·))
    (h : ∀ name, name ∈ names as ↔ name ∈ names bs) : names as = names bs :=
  List.Pairwise.eq_of_mem_iff ha hb h

/-- A list of distinct names is determined by lookups. -/
theorem eq_of_lookup {as bs : List (String × α)} (hn : names as = names bs)
    (hd : (names as).Nodup) (h : ∀ name ∈ names as, as.lookup name = bs.lookup name) : as = bs := by
  rw [← @mapValues_eq_self _ id as fun _ _ => rfl, ← @mapValues_eq_self _ id bs fun _ _ => rfl]
  refine mapValues_congr hn fun name a b ha hb => ?_
  have := h name (mem_names ha)
  rw [lookup_of_mem hd ha, lookup_of_mem (hn ▸ hd) hb] at this
  exact Option.some.inj this

theorem ofList_of_sorted {entries : List (String × α)} (h : (names entries).Pairwise (· < ·)) :
    ofList entries = entries := by
  have hd := Names.nodup_of_sorted h
  exact eq_of_lookup (names_eq_of_sorted (sorted_ofList entries) h fun _ => mem_names_ofList)
    (Names.nodup_of_sorted (sorted_ofList entries)) fun _ _ => lookup_ofList_of_nodup hd

theorem mem_ofList {name : String} {a : α} {entries : List (String × α)}
    (h : (name, a) ∈ ofList entries) : (name, a) ∈ entries := by
  have := lookup_of_mem (Names.nodup_of_sorted (sorted_ofList entries)) h
  rw [lookup_ofList] at this
  exact List.mem_reverse.1 (mem_of_lookup this)

/-! ## Parts by their canonical names -/

theorem namedParts_of_canonical {parts : List (String × α)}
    (h : ∀ name ∈ names parts, normalize name = name) : Ty.namedParts parts = ofList parts := by
  have : parts.map (fun part : String × α => (normalize part.1, part.2)) = parts.map id :=
    List.map_congr_left fun part hp => by
      rw [h part.1 (mem_names hp), id]
  rw [Ty.namedParts, this, List.map_id]

theorem namedParts_of_proper {parts : List (String × α)} (h : Names.Proper (names parts)) :
    Ty.namedParts parts = parts := by
  rw [namedParts_of_canonical h.2, ofList_of_sorted h.1]

/-! ## Entries that are paired name by name -/

/-- Two lists of entries with the same names in the same order, where what the entries of one name
hold is related. -/
def Paired (R : String → α → β → Prop) (as : List (String × α)) (bs : List (String × β)) : Prop :=
  List.Forall₂ (fun x y => x.1 = y.1 ∧ R x.1 x.2 y.2) as bs

namespace Paired

variable {R : String → α → β → Prop} {as : List (String × α)} {bs : List (String × β)}

theorem names_eq (h : Paired R as bs) : names as = names bs := by
  induction h with
  | nil => rfl
  | cons hx _ ih =>
    simp only [names, List.map_cons] at ih ⊢
    rw [hx.1, ih]

theorem lookup {name : String} {a : α} (h : Paired R as bs) (ha : as.lookup name = some a) :
    ∃ b, bs.lookup name = some b ∧ R name a b := by
  induction h with
  | nil => cases ha
  | @cons x y as bs hx _ ih =>
    obtain ⟨n, x⟩ := x
    obtain ⟨m, y⟩ := y
    obtain ⟨rfl, hR⟩ := hx
    simp only [lookup_cons] at ha ⊢
    split at ha
    · rename_i eq
      cases ha
      subst eq
      exact ⟨y, if_pos rfl, hR⟩
    · rename_i ne
      rw [if_neg ne]
      exact ih ha

theorem mem_right {name : String} {b : β} (h : Paired R as bs) (hb : (name, b) ∈ bs) :
    ∃ a, (name, a) ∈ as ∧ R name a b := by
  obtain ⟨⟨other, a⟩, ha, rfl, hR⟩ := exists_left_of_forall₂ h hb
  exact ⟨a, ha, hR⟩

theorem mem_left {name : String} {a : α} (h : Paired R as bs) (ha : (name, a) ∈ as) :
    ∃ b, (name, b) ∈ bs ∧ R name a b := by
  obtain ⟨⟨other, b⟩, hb, rfl, hR⟩ := exists_right_of_forall₂ h ha
  exact ⟨b, hb, hR⟩

theorem values (h : Paired R as bs) {S : α → β → Prop} (hS : ∀ name a b, R name a b → S a b) :
    List.Forall₂ S (values as) (values bs) := by
  induction h with
  | nil => exact .nil
  | cons hx _ ih => exact .cons (hS _ _ _ hx.2) ih

end Paired

end Entries

end ValueAlgebra
