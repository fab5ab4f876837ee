import Mathlib
import ValueAlgebra.Proofs.MadeTypes
import ValueAlgebra.Ty.Json

/-!
# Types and their stored form

`Json.IsType` is the grammar of stored types. `Ty.ofJson` reads exactly the data of this grammar,
and the types it puts together are never refused by the constructors, whatever becomes of names in
canonical form. `Ty.toJson` writes every type that has no capsule type inside of it, and what it
writes is read as the same type again.

Main statements:

* `Ty.sound_ofJson`: what is read is a type of the grammar, and the constructors refuse nothing.
* `Ty.ofJson_accepts`: exactly the grammar is read.
* `Ty.toJson_round_trip`: what is written, and that it is read again.
-/

namespace ValueAlgebra

open Entries Text

/-! ## The grammar -/

/-- A datum that is a type: the name of a type without parts, or an array of a kind and of parts
that are types themselves. The optional names of an object are names of its fields. -/
inductive Json.IsType : Json → Prop where
  | name {name : String} (known : name ∈ ["number", "string", "bool", "dynamic"]) :
      IsType (.string name)
  | collection {kind : String} {element : Json} (known : kind ∈ ["list", "set", "map"])
      (part : IsType element) : IsType (.array [.string kind, element])
  | tuple {items : List Json} (parts : ∀ item ∈ items, IsType item) :
      IsType (.array [.string "tuple", .array items])
  | union {fields : List (String × Json)} (some : fields ≠ [])
      (parts : ∀ item ∈ values fields, IsType item) :
      IsType (.array [.string "union", .object fields])
  | object {fields : List (String × Json)} (parts : ∀ item ∈ values fields, IsType item) :
      IsType (.array [.string "object", .object fields])
  | objectOptional {fields : List (String × Json)} {optional : List String}
      (parts : ∀ item ∈ values fields, IsType item)
      (declared : ∀ name ∈ optional, name ∈ names fields) :
      IsType (.array [.string "object", .object fields, .array (optional.map .string)])

namespace Ty

/-! ## Outcomes of reading -/

section

variable {α β : Type} {p : α → Prop} {q : β → Prop} {x : Except JsonError α}

/-- Reading ends in a result with a property, or the datum is refused for what is wrong with it. It
is not left to the constructors to refuse it. -/
def ReadsAs (p : α → Prop) : Except JsonError α → Prop
  | .ok a => p a
  | .error e => ∀ cause, e ≠ .refused cause

theorem ReadsAs.bind {f : α → Except JsonError β} (hx : ReadsAs p x)
    (hf : ∀ a, p a → ReadsAs q (f a)) : ReadsAs q (x >>= f) := by
  cases x with
  | ok a => exact hf a hx
  | error e => exact hx

theorem ReadsAs.mono {p' : α → Prop} (hx : ReadsAs p x) (h : ∀ a, p a → p' a) : ReadsAs p' x := by
  cases x with
  | ok a => exact h a hx
  | error e => exact hx

end

/-! ## Reading -/

/-- What is read of a datum is a made type, and the datum belongs to the grammar. -/
def Sound (j : Json) : Prop :=
  ReadsAs (fun t => t.Made ∧ j.IsType) (ofJson j)

theorem readsAs_endOfType {p : Ty → Prop} {kind : String} {rest : List Json} {t : Ty}
    (h : rest = [] → p t) : ReadsAs p (endOfType kind rest t) := by
  unfold endOfType
  split
  · rename_i nil
    exact h (List.isEmpty_iff.1 nil)
  · exact nofun

theorem readsAs_ofName (name : String) :
    ReadsAs (fun t => t.Made ∧ (Json.string name).IsType) (ofName name) := by
  unfold ofName
  split
  · exact ⟨.number, .name (by simp)⟩
  · exact ⟨.string, .name (by simp)⟩
  · exact ⟨.bool, .name (by simp)⟩
  · exact ⟨.dynamic, .name (by simp)⟩
  · exact nofun

theorem readsAs_readNames (j : Json) :
    ReadsAs (fun names => j = .array (names.map .string)) (readNames j) := by
  unfold readNames
  split
  · rename_i items
    induction items with
    | nil => rfl
    | cons item items ih =>
      rw [List.mapM_cons]
      refine ReadsAs.bind (p := fun s => item = .string s) ?_ fun s hs => ?_
      · split
        · rfl
        · exact nofun
      · refine ReadsAs.bind ih fun names hn => ?_
        rw [Json.array.injEq] at hn
        exact congrArg Json.array (by rw [hs, hn]; rfl)
  · exact nofun

theorem readsAs_ofObjectParts {attributes : List (String × Ty)} {optional : List String}
    (parts : ∀ s ∈ values attributes, s.Made) :
    ReadsAs (fun t => t.Made ∧ ∀ name ∈ optional, name ∈ names attributes)
      (ofObjectParts attributes optional) := by
  unfold ofObjectParts
  split
  · exact nofun
  · rename_i declared
    rw [find?_undeclared] at declared
    rw [objectOf_eq_ok declared]
    exact ⟨.object parts (objectOf_eq_ok declared), declared⟩

theorem readsAs_ofVariants {variants : List (String × Ty)}
    (parts : ∀ s ∈ values variants, s.Made) :
    ReadsAs (fun t => t.Made ∧ variants ≠ []) (ofVariants variants) := by
  unfold ofVariants
  split
  · exact nofun
  · rename_i some
    rw [List.isEmpty_iff] at some
    rw [unionOf_eq_ok some]
    exact ⟨.union parts (unionOf_eq_ok some), some⟩

theorem readsAs_ofJsonAll {items : List Json} (h : ∀ item ∈ items, Sound item) :
    ReadsAs (fun ts => (∀ t ∈ ts, t.Made) ∧ ∀ item ∈ items, item.IsType) (ofJsonAll items) := by
  induction items with
  | nil => exact ⟨nofun, nofun⟩
  | cons item items ih =>
    rw [List.forall_mem_cons] at h
    rw [ofJsonAll]
    refine h.1.bind fun t ht => (ih h.2).bind fun ts hts => ?_
    exact ⟨List.forall_mem_cons.2 ⟨ht.1, hts.1⟩, List.forall_mem_cons.2 ⟨ht.2, hts.2⟩⟩

theorem readsAs_ofJsonEntries {fields : List (String × Json)}
    (h : ∀ item ∈ values fields, Sound item) :
    ReadsAs (fun ts => names ts = names fields ∧ (∀ t ∈ values ts, t.Made) ∧
      ∀ item ∈ values fields, item.IsType) (ofJsonEntries fields) := by
  induction fields with
  | nil => exact ⟨rfl, nofun, nofun⟩
  | cons field fields ih =>
    obtain ⟨name, item⟩ := field
    rw [values_cons, List.forall_mem_cons] at h
    rw [ofJsonEntries]
    refine h.1.bind fun t ht => (ih h.2).bind fun ts hts => ?_
    exact ⟨congrArg (name :: ·) hts.1, List.forall_mem_cons.2 ⟨ht.1, hts.2.1⟩,
      List.forall_mem_cons.2 ⟨ht.2, hts.2.2⟩⟩

theorem readsAs_collection {kind : String} {e : Json} {rest : List Json} {collection : Ty → Ty}
    (known : kind ∈ ["list", "set", "map"]) (made : ∀ s, s.Made → (collection s).Made)
    (part : Sound e) :
    ReadsAs (fun t => t.Made ∧ (Json.array (.string kind :: e :: rest)).IsType)
      (do endOfType kind rest (collection (← ofJson e))) := by
  refine part.bind fun s hs => readsAs_endOfType ?_
  rintro rfl
  exact ⟨made s hs.1, .collection known hs.2⟩

theorem readsAs_object {fields : List (String × Json)} {rest : List Json}
    (parts : ∀ item ∈ values fields, Sound item) :
    ReadsAs (fun t => t.Made ∧ (Json.array (.string "object" :: .object fields :: rest)).IsType)
      (do
        let attributes ← ofJsonEntries fields
        match rest with
        | [] => ofObjectParts attributes []
        | names :: rest =>
          let t ← ofObjectParts attributes (← readNames names)
          endOfType "object" rest t) := by
  refine (readsAs_ofJsonEntries parts).bind fun attributes h => ?_
  obtain ⟨hn, made, types⟩ := h
  cases rest with
  | nil => exact (readsAs_ofObjectParts made).mono fun t ht => ⟨ht.1, .object types⟩
  | cons optional rest =>
    refine (readsAs_readNames optional).bind fun optional ho => ?_
    subst ho
    refine (readsAs_ofObjectParts made).bind fun t ht => readsAs_endOfType ?_
    rintro rfl
    exact ⟨ht.1, .objectOptional types (hn ▸ ht.2)⟩

theorem sizeOf_lt_of_mem_values {fields : List (String × Json)} {item : Json}
    (h : item ∈ values fields) : sizeOf item < sizeOf fields := by
  obtain ⟨name, h⟩ := exists_of_mem_values h
  have := List.sizeOf_lt_of_mem h
  simp at this
  omega

/-- What is read is a type of the grammar, and the constructors refuse nothing. -/
theorem sound_ofJson (j : Json) : Sound j := by
  induction hn : sizeOf j using Nat.strong_induction_on generalizing j with
  | _ n ih =>
    subst hn
    have part (i : Json) (lt : sizeOf i < sizeOf j) : Sound i := ih _ lt i rfl
    clear ih
    unfold Sound ofJson
    split
    case h_1 name => exact readsAs_ofName name
    case h_3 e rest =>
      exact readsAs_collection (by simp) (fun _ => .list) (part e (by simp; omega))
    case h_4 e rest =>
      exact readsAs_collection (by simp) (fun _ => .set) (part e (by simp; omega))
    case h_5 e rest =>
      exact readsAs_collection (by simp) (fun _ => .map) (part e (by simp; omega))
    case h_6 items rest =>
      refine (readsAs_ofJsonAll fun item hi => part item ?_).bind fun ts hts =>
        readsAs_endOfType ?_
      · have := List.sizeOf_lt_of_mem hi
        simp
        omega
      · rintro rfl
        exact ⟨.tuple hts.1, .tuple hts.2⟩
    case h_8 fields rest =>
      refine readsAs_object fun item hi => part item ?_
      have := sizeOf_lt_of_mem_values hi
      simp
      omega
    case h_10 fields rest =>
      refine (readsAs_ofJsonEntries fun item hi => part item ?_).bind fun variants h => ?_
      · have := sizeOf_lt_of_mem_values hi
        simp
        omega
      · refine (readsAs_ofVariants h.2.1).bind fun t ht => readsAs_endOfType ?_
        rintro rfl
        refine ⟨ht.1, .union (fun none => ht.2 ?_) h.2.2⟩
        subst none
        exact List.map_eq_nil_iff.1 h.1
    case h_12 => split <;> exact nofun
    all_goals exact nofun

theorem exists_ofJsonAll {items : List Json} (h : ∀ item ∈ items, ∃ t, ofJson item = .ok t) :
    ∃ ts, ofJsonAll items = .ok ts := by
  induction items with
  | nil => exact ⟨[], rfl⟩
  | cons item items ih =>
    rw [List.forall_mem_cons] at h
    obtain ⟨t, ht⟩ := h.1
    obtain ⟨ts, hts⟩ := ih h.2
    exact ⟨t :: ts, by rw [ofJsonAll, ht, hts]; rfl⟩

theorem exists_ofJsonEntries {fields : List (String × Json)}
    (h : ∀ item ∈ values fields, ∃ t, ofJson item = .ok t) :
    ∃ ts, ofJsonEntries fields = .ok ts ∧ names ts = names fields := by
  induction fields with
  | nil => exact ⟨[], rfl, rfl⟩
  | cons field fields ih =>
    obtain ⟨name, item⟩ := field
    rw [values_cons, List.forall_mem_cons] at h
    obtain ⟨t, ht⟩ := h.1
    obtain ⟨ts, hts, hn⟩ := ih h.2
    refine ⟨(name, t) :: ts, by rw [ofJsonEntries, ht, hts]; rfl, ?_⟩
    rw [names_cons, names_cons, hn]

theorem readNames_map (names : List String) :
    readNames (.array (names.map .string)) = .ok names := by
  unfold readNames
  induction names with
  | nil => rfl
  | cons name names ih =>
    simp only [List.map_cons, List.mapM_cons] at ih ⊢
    rw [ih]
    rfl

section

variable {fields : List (String × Json)} {parts : List (String × Ty)} {optional : List String}

theorem ofObjectParts_eq (h : ∀ name ∈ optional, name ∈ names parts) :
    ofObjectParts parts optional =
      .ok (.object (namedParts parts) (Names.ofList (optional.map normalize))) := by
  rw [ofObjectParts, find?_undeclared.2 h, objectOf_eq_ok h]
  rfl

theorem ofJson_object (h : ofJsonEntries fields = .ok parts) :
    ofJson (.array [.string "object", .object fields]) = .ok (.object (namedParts parts) []) := by
  rw [ofJson, h]
  change ofObjectParts parts [] = _
  rw [ofObjectParts_eq (by simp)]
  rfl

theorem ofJson_objectOptional (h : ofJsonEntries fields = .ok parts)
    (declared : ∀ name ∈ optional, name ∈ names parts) :
    ofJson (.array [.string "object", .object fields, .array (optional.map .string)]) =
      .ok (.object (namedParts parts) (Names.ofList (optional.map normalize))) := by
  rw [ofJson, h]
  simp only [bind, Except.bind, readNames_map, ofObjectParts_eq declared]
  rfl

theorem ofJson_union (h : ofJsonEntries fields = .ok parts) (some : parts ≠ []) :
    ofJson (.array [.string "union", .object fields]) = .ok (.union (namedParts parts)) := by
  have variants : ofVariants parts = .ok (.union (namedParts parts)) := by
    rw [ofVariants, if_neg (by simpa using some), unionOf_eq_ok some]
    rfl
  rw [ofJson, h]
  simp only [bind, Except.bind, variants]
  rfl

end

/-- All data of the grammar are read. -/
theorem exists_ofJson {j : Json} (h : j.IsType) : ∃ t, ofJson j = .ok t := by
  induction h with
  | @name name known =>
    simp only [List.mem_cons, List.not_mem_nil, or_false] at known
    rcases known with rfl | rfl | rfl | rfl
    · exact ⟨.number, rfl⟩
    · exact ⟨.string, rfl⟩
    · exact ⟨.bool, rfl⟩
    · exact ⟨.dynamic, rfl⟩
  | @collection kind e known _ ih =>
    obtain ⟨t, ht⟩ := ih
    simp only [List.mem_cons, List.not_mem_nil, or_false] at known
    rcases known with rfl | rfl | rfl
    · exact ⟨.list t, by rw [ofJson, ht]; rfl⟩
    · exact ⟨.set t, by rw [ofJson, ht]; rfl⟩
    · exact ⟨.map t, by rw [ofJson, ht]; rfl⟩
  | @tuple items _ ih =>
    obtain ⟨ts, hts⟩ := exists_ofJsonAll ih
    exact ⟨.tuple ts, by rw [ofJson, hts]; rfl⟩
  | @union fields some _ ih =>
    obtain ⟨ts, hts, hn⟩ := exists_ofJsonEntries ih
    have variants : ts ≠ [] := by
      rintro rfl
      exact some (List.map_eq_nil_iff.1 hn.symm)
    exact ⟨_, ofJson_union hts variants⟩
  | @object fields _ ih =>
    obtain ⟨ts, hts, -⟩ := exists_ofJsonEntries ih
    exact ⟨_, ofJson_object hts⟩
  | @objectOptional fields optional _ declared ih =>
    obtain ⟨ts, hts, hn⟩ := exists_ofJsonEntries ih
    exact ⟨_, ofJson_objectOptional hts (hn ▸ declared)⟩

/-- Reading accepts exactly the grammar, what it accepts is a type that the constructors make, and
whatever it refuses is refused before the constructors are asked. -/
theorem ofJson_accepts (j : Json) :
    ((∃ t, ofJson j = .ok t) ↔ j.IsType) ∧ (∀ t, ofJson j = .ok t → t.Made) ∧
    ∀ cause, ofJson j ≠ .error (.refused cause) := by
  have sound := sound_ofJson j
  refine ⟨⟨?_, exists_ofJson⟩, fun t ht => ?_, fun cause refused => ?_⟩
  · rintro ⟨t, ht⟩
    rw [Sound, ht] at sound
    exact sound.2
  · rw [Sound, ht] at sound
    exact sound.1
  · rw [Sound, refused] at sound
    exact sound cause rfl

/-! ## Writing -/

theorem firstCapsuleAll?_eq_none {ts : List Ty} :
    firstCapsuleAll? ts = none ↔ ∀ t ∈ ts, t.firstCapsule? = none := by
  induction ts with
  | nil => simp [firstCapsuleAll?]
  | cons t ts ih => simp [firstCapsuleAll?, ih]

theorem firstCapsuleEntries?_eq_none {ts : List (String × Ty)} :
    firstCapsuleEntries? ts = none ↔ ∀ t ∈ values ts, t.firstCapsule? = none := by
  induction ts with
  | nil => simp [firstCapsuleEntries?]
  | cons t ts ih =>
    obtain ⟨name, t⟩ := t
    simp [firstCapsuleEntries?, ih]

theorem firstCapsule?_eq_none_iff {t : Ty} : t.firstCapsule? = none ↔ t.CapsuleFree := by
  induction t using induction with
  | step t ih =>
    have step : t.firstCapsule? = none ↔
        t.isCapsule = false ∧ ∀ s ∈ t.components, s.firstCapsule? = none := by
      cases t with
      | object | union => simp [firstCapsule?, isCapsule, components, firstCapsuleEntries?_eq_none]
      | tuple => simp [firstCapsule?, isCapsule, components, firstCapsuleAll?_eq_none]
      | _ => simp [firstCapsule?, isCapsule, components]
    rw [step, CapsuleFree, everywhere_iff]
    exact and_congr_right fun _ => forall₂_congr ih

theorem ofJsonAll_outlineAll {ts : List Ty} (h : ∀ t ∈ ts, ofJson t.outline = .ok t) :
    ofJsonAll (outlineAll ts) = .ok ts := by
  induction ts with
  | nil => rfl
  | cons t ts ih =>
    rw [List.forall_mem_cons] at h
    rw [outlineAll, ofJsonAll, h.1, ih h.2]
    rfl

theorem ofJsonEntries_outlineEntries {ts : List (String × Ty)}
    (h : ∀ t ∈ values ts, ofJson t.outline = .ok t) :
    ofJsonEntries (outlineEntries ts) = .ok ts := by
  induction ts with
  | nil => rfl
  | cons entry ts ih =>
    obtain ⟨name, t⟩ := entry
    rw [values_cons, List.forall_mem_cons] at h
    rw [outlineEntries, ofJsonEntries, h.1, ih h.2]
    rfl

/-- A kept type without capsule types is read from its own shape. -/
theorem ofJson_outline {t : Ty} (kept : t.Everywhere Kept) (free : t.CapsuleFree) :
    ofJson t.outline = .ok t := by
  induction t using induction with
  | step t ih =>
    have part (s : Ty) (hs : s ∈ t.components) : ofJson s.outline = .ok s :=
      ih s hs (kept.inside hs) (free.inside hs)
    clear ih
    cases t with
    | number | string | bool | dynamic => rfl
    | capsule => cases free.here
    | list e | set e | map e =>
      rw [outline, jsonPair, ofJson, part e List.mem_cons_self]
      rfl
    | tuple ts =>
      have items : ofJsonAll (outlineAll ts) = .ok ts := ofJsonAll_outlineAll part
      rw [outline, jsonPair, ofJson, items]
      rfl
    | object as os =>
      have fields : ofJsonEntries (outlineEntries as) = .ok as := ofJsonEntries_outlineEntries part
      have names : namedParts as = as := namedParts_of_proper kept.here.headed.1
      rw [outline]
      split
      · rename_i none
        rw [jsonPair, ofJson_object fields, names, List.isEmpty_iff.1 none]
      · have proper : Names.Proper os := kept.here.optional
        have declared : ∀ name ∈ os, name ∈ Entries.names as := kept.here.declared
        have canonical : os.map normalize = os.map id := List.map_congr_left proper.2
        rw [ofJson_objectOptional fields declared, names, canonical, List.map_id,
          Names.ofList_of_sorted proper.1]
    | union vs =>
      have fields : ofJsonEntries (outlineEntries vs) = .ok vs := ofJsonEntries_outlineEntries part
      have some : vs ≠ [] := fun none => kept.here.headed.2 (congrArg Ty.union none)
      rw [outline, jsonPair, ofJson_union fields some, namedParts_of_proper kept.here.headed.1]

theorem toJson_eq_ok_iff {t : Ty} {j : Json} :
    t.toJson = .ok j ↔ t.CapsuleFree ∧ t.outline = j := by
  rw [← firstCapsule?_eq_none_iff, toJson]
  cases t.firstCapsule? <;> simp

/-- A type has a stored form unless a capsule type stands in it. The stored form is read as the type
that it was, with its optional attributes, so no other type has it. -/
theorem toJson_round_trip {t : Ty} (h : t.Made) :
    ((∃ e, t.toJson = .error e) ↔ ¬t.CapsuleFree) ∧
    (t.CapsuleFree → ∃ j, t.toJson = .ok j ∧ ofJson j = .ok t) ∧
    ∀ s : Ty, s.Made → ∀ j, s.toJson = .ok j → t.toJson = .ok j → s = t := by
  have back {s : Ty} {j : Json} (hs : s.Made) (hj : s.toJson = .ok j) : ofJson j = .ok s := by
    obtain ⟨free, rfl⟩ := toJson_eq_ok_iff.1 hj
    exact ofJson_outline hs.everywhere free
  refine ⟨⟨?_, fun capsule => ?_⟩, fun free => ?_, fun s hs j sj tj => ?_⟩
  · rintro ⟨e, he⟩ free
    rw [toJson_eq_ok_iff.2 ⟨free, rfl⟩] at he
    cases he
  · cases hj : t.toJson with
    | error e => exact ⟨e, rfl⟩
    | ok j => exact absurd (toJson_eq_ok_iff.1 hj).1 capsule
  · have written := toJson_eq_ok_iff.2 ⟨free, rfl⟩
    exact ⟨_, written, back h written⟩
  · exact Except.ok.inj ((back hs sj).symm.trans (back h tj))

/-- An object that may lack an attribute, given with its attributes out of order, has a stored form.
A list of capsules has none. -/
theorem toJson_round_trip_tags :
    let t : Ty := .object [("name", .string), ("tags", .set .string)] ["tags"]
    let c : Ty := .list (.capsule ⟨0, "file", .text⟩)
    objectOf [("tags", .set .string), ("name", .string)] ["tags"] = .ok t ∧ t.Made ∧
      (∃ j, t.toJson = .ok j ∧ ofJson j = .ok t) ∧ c.Made ∧ ∃ e, c.toJson = .error e := by
  intro t c
  have made : objectOf [("tags", .set .string), ("name", .string)] ["tags"] = .ok t := by cbv
  have parts : ∀ s ∈ values [("tags", Ty.set .string), ("name", .string)], s.Made := by
    simp [values, Made.string, Made.set]
  have mt : t.Made := .object parts made
  have mc : c.Made := .list (.capsule _)
  exact ⟨made, mt, (toJson_round_trip mt).2.1 (by decide), mc,
    (toJson_round_trip mc).1.2 (by decide)⟩

end Ty

end ValueAlgebra
