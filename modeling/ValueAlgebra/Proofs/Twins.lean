import Mathlib
import ValueAlgebra.Proofs.MarkFlow
import ValueAlgebra.Proofs.SetRules
import ValueAlgebra.Proofs.WellMadeResults

/-!
# Values that are the same apart from marks

Two values are alike (`Value.Alike`) if they are the same without marks at any depth. What is read
out of alike values is alike, and so is what constructors make of alike parts. Two computations that
go the same way agree (`Agree`): they fail alike, or their results are related.

A constructor that fails describes its arguments, with their marks. So collections agree only where
their elements have a common type.

Main statements:

* `Agree.bind`, `Agree.mapM`: steps that agree one after the other.
* `Value.Twins.elements`: alike values have alike elements at the same keys.
* `Value.agree_list`, `Value.agree_set`, `Value.agree_map`: collections of alike elements.
-/

namespace ValueAlgebra

open Entries Text

/-! ## Computations that agree -/

/-- Two outcomes are the same failure, or results that are related. -/
inductive Agree {ε α β : Type} (R : α → β → Prop) : Except ε α → Except ε β → Prop
  | ok {a : α} {b : β} (h : R a b) : Agree R (.ok a) (.ok b)
  | error (e : ε) : Agree R (.error e) (.error e)

namespace Agree

variable {ε α β γ δ : Type} {R : α → β → Prop} {S : γ → δ → Prop} {x : Except ε α}
  {y : Except ε β}

theorem refl {R : α → α → Prop} (hR : ∀ a, R a a) (x : Except ε α) : Agree R x x := by
  cases x with
  | error e => exact .error e
  | ok a => exact .ok (hR a)

theorem eq {y : Except ε α} (h : Agree (· = ·) x y) : x = y := by
  cases h with
  | error => rfl
  | ok h => rw [h]

theorem bind {f : α → Except ε γ} {g : β → Except ε δ} (h : Agree R x y)
    (next : ∀ a b, R a b → Agree S (f a) (g b)) : Agree S (x >>= f) (y >>= g) := by
  cases h with
  | error e => exact .error e
  | ok h => exact next _ _ h

theorem map {f : α → γ} {g : β → δ} (h : Agree R x y) (next : ∀ a b, R a b → S (f a) (g b)) :
    Agree S (x.map f) (y.map g) := by
  cases h with
  | error e => exact .error e
  | ok h => exact .ok (next _ _ h)

/-- The same step, and then steps that agree. -/
theorem bind_same {f : α → Except ε γ} {g : α → Except ε δ} (next : ∀ a, Agree S (f a) (g a)) :
    Agree S (x >>= f) (x >>= g) := by
  cases x with
  | error e => exact .error e
  | ok a => exact next a

theorem map_same {f : α → γ} {g : α → δ} (next : ∀ a, S (f a) (g a)) :
    Agree S (x.map f) (x.map g) := by
  cases x with
  | error e => exact .error e
  | ok a => exact .ok (next a)

/-- More may be known about results. -/
theorem strengthen {T : α → β → Prop} (h : Agree R x y)
    (hT : ∀ a b, x = .ok a → y = .ok b → R a b → T a b) : Agree T x y := by
  cases h with
  | error e => exact .error e
  | ok h => exact .ok (hT _ _ rfl rfl h)

theorem mono {T : α → β → Prop} (h : Agree R x y) (hT : ∀ a b, R a b → T a b) : Agree T x y :=
  h.strengthen fun a b _ _ => hT a b

theorem mapM {Q : γ → δ → Prop} {f : γ → Except ε α} {g : δ → Except ε β} {xs : List γ}
    {ys : List δ} (h : List.Forall₂ Q xs ys) (step : ∀ x y, Q x y → Agree R (f x) (g y)) :
    Agree (List.Forall₂ R) (xs.mapM f) (ys.mapM g) := by
  induction h with
  | nil => exact .ok .nil
  | cons hx _ ih =>
    rw [List.mapM_cons, List.mapM_cons]
    refine (step _ _ hx).bind fun a b hab => ih.bind fun as bs rest => ?_
    exact .ok (.cons hab rest)

theorem orFailure {x : Except Fault α} {y : Except Fault β} (h : Agree R x y) :
    Agree R (orFailure x) (orFailure y) := by
  cases h with
  | error e => exact .error _
  | ok h => exact .ok h

theorem mapError {ε' : Type} {f : ε → ε'} (h : Agree R x y) :
    Agree R (x.mapError f) (y.mapError f) := by
  cases h with
  | error e => exact .error _
  | ok h => exact .ok h

/-- Outcomes agree up to a view of the results if they are the same in this view. -/
theorem iff_map {f : α → γ} {g : β → γ} :
    Agree (fun a b => f a = g b) x y ↔ x.map f = y.map g := by
  constructor
  · intro h
    cases h with
    | error e => rfl
    | ok h => exact congrArg Except.ok h
  · intro h
    cases x with
    | error e =>
      cases y with
      | error => cases h; exact .error e
      | ok => cases h
    | ok a =>
      cases y with
      | error => cases h
      | ok b => exact .ok (Except.ok.inj h)

end Agree

/-! ## Lists that are related one by one -/

section

variable {α β γ δ : Type} {R : α → β → Prop} {S : γ → δ → Prop}

theorem isEmpty_eq_of_forall₂ {xs : List α} {ys : List β} (h : List.Forall₂ R xs ys) :
    xs.isEmpty = ys.isEmpty := by
  cases h with
  | nil => rfl
  | cons => rfl

theorem forall₂_zipIdx {xs : List α} {ys : List β} (h : List.Forall₂ R xs ys) (start : Nat) :
    List.Forall₂ (fun x y => R x.1 y.1 ∧ x.2 = y.2) (xs.zipIdx start) (ys.zipIdx start) := by
  induction h generalizing start with
  | nil => exact .nil
  | cons hx _ ih =>
    rw [List.zipIdx_cons, List.zipIdx_cons]
    exact .cons ⟨hx, rfl⟩ (ih (start + 1))

theorem forall₂_zip_zip {xs : List α} {ys : List β} {us : List γ} {vs : List δ}
    (h : List.Forall₂ R xs ys) (h' : List.Forall₂ S us vs) :
    List.Forall₂ (fun x y => R x.1 y.1 ∧ S x.2 y.2) (xs.zip us) (ys.zip vs) := by
  induction h generalizing us vs with
  | nil => exact .nil
  | cons hx _ ih =>
    cases h' with
    | nil => exact .nil
    | cons hu h' => exact .cons ⟨hx, hu⟩ (ih h')

end

namespace Entries

variable {α β : Type} {R : α → β → Prop} {as : List (String × α)} {bs : List (String × β)}

theorem paired_of_values (hn : names as = names bs) (h : List.Forall₂ R (values as) (values bs)) :
    Paired (fun _ => R) as bs := by
  induction as generalizing bs with
  | nil =>
    cases bs with
    | nil => exact .nil
    | cons => cases hn
  | cons a as ih =>
    cases bs with
    | nil => cases hn
    | cons b bs =>
      rw [names_cons, names_cons, List.cons.injEq] at hn
      rw [values_cons, values_cons, List.forall₂_cons] at h
      exact .cons ⟨hn.1, h.1⟩ (ih hn.2 h.2)

theorem Paired.insert {name : String} {a : α} {b : β} (h : Paired (fun _ => R) as bs)
    (hab : R a b) : Paired (fun _ => R) (insert name a as) (insert name b bs) := by
  induction h with
  | nil => exact .cons ⟨rfl, hab⟩ .nil
  | @cons x y as bs hx rest ih =>
    obtain ⟨other, x⟩ := x
    obtain ⟨other', y⟩ := y
    obtain ⟨rfl, hxy⟩ := hx
    rw [Entries.insert, Entries.insert]
    split
    · exact .cons ⟨rfl, hab⟩ (.cons ⟨rfl, hxy⟩ rest)
    split
    · exact .cons ⟨rfl, hab⟩ rest
    · exact .cons ⟨rfl, hxy⟩ ih

theorem Paired.namedParts (h : Paired (fun _ => R) as bs) :
    Paired (fun _ => R) (Ty.namedParts as) (Ty.namedParts bs) := by
  have step {as : List (String × α)} {bs : List (String × β)} (h : Paired (fun _ => R) as bs)
      {done : List (String × α)} {done' : List (String × β)} (hd : Paired (fun _ => R) done done') :
      Paired (fun _ => R) (as.foldl (fun sorted entry => Entries.insert entry.1 entry.2 sorted) done)
        (bs.foldl (fun sorted entry => Entries.insert entry.1 entry.2 sorted) done') := by
    induction h generalizing done done' with
    | nil => exact hd
    | cons hx _ ih =>
      rw [List.foldl_cons, List.foldl_cons, hx.1]
      exact ih (hd.insert hx.2)
  refine step ?_ .nil
  rw [Paired, List.forall₂_map_left_iff, List.forall₂_map_right_iff]
  exact h.imp fun x y hx => ⟨by rw [hx.1], hx.2⟩

end Entries

/-! ## Values that are alike -/

/-- Two values are the same apart from marks at any depth. -/
def Value.Alike (v w : Value) : Prop :=
  v.unmarkDeep = w.unmarkDeep

/-- Contents with related parts, which are the same if they are not matched. -/
inductive Content.Twin (R : Value → Value → Prop) : Content → Content → Prop
  | same {c : Content} (h : ∀ x ∈ c.parts, R x x) : Twin R c c
  | matched {c d : Content} (h : Matched R c d) : Twin R c d

namespace Value

variable {u v w : Value} {vs ws : List Value} {e : Ty}

namespace Alike

theorem refl (v : Value) : v.Alike v :=
  rfl

theorem symm (h : v.Alike w) : w.Alike v :=
  Eq.symm h

theorem trans (h : u.Alike v) (h' : v.Alike w) : u.Alike w :=
  Eq.trans h h'

theorem of_unmarkDeep (v : Value) : v.Alike v.unmarkDeep :=
  (unmarkDeep_unmarkDeep v).symm

theorem withMarks (h : v.Alike w) (m n : MarkSet) : (v.withMarks m).Alike (w.withMarks n) := by
  rw [Alike, unmarkDeep_withMarks, unmarkDeep_withMarks, h]

theorem unmark (h : v.Alike w) : v.unmark.Alike w.unmark := by
  rw [Alike, unmarkDeep_unmark, unmarkDeep_unmark, h]

theorem ty (h : v.Alike w) : v.ty = w.ty := by
  rw [← ty_unmarkDeep v, h, ty_unmarkDeep]

theorem height (h : v.Alike w) : v.height = w.height := by
  rw [← height_unmarkDeep v, h, height_unmarkDeep]

theorem isKnown (h : v.Alike w) : v.isKnown = w.isKnown := by
  rw [← isKnown_unmarkDeep v, h, isKnown_unmarkDeep]

theorem isNull (h : v.Alike w) : v.isNull = w.isNull := by
  rw [← isNull_unmarkDeep v, h, isNull_unmarkDeep]

theorem all_iff : List.Forall₂ Alike vs ws ↔ vs.map unmarkDeep = ws.map unmarkDeep := by
  rw [← List.forall₂_eq_eq_eq, List.forall₂_map_left_iff, List.forall₂_map_right_iff]
  rfl

theorem types (h : List.Forall₂ Alike vs ws) : Value.types vs = Value.types ws := by
  induction h with
  | nil => rfl
  | cons hx _ ih => rw [Value.types, Value.types, hx.ty, ih]

theorem commonType? (h : List.Forall₂ Alike vs ws) :
    Value.commonType? vs = Value.commonType? ws := by
  rw [Value.commonType?, Value.commonType?, types h]

/-- Alike values have alike parts. -/
theorem content (h : v.Alike w) : Content.Twin Alike v.content w.content := by
  have own (v : Value) : Content.Twin Alike v.content v.unmarkDeep.content := by
    obtain ⟨m, c⟩ := v
    cases c with
    | list e items =>
      rw [unmarkDeep, unmarkDeepAll_eq_map]
      refine .matched (.list ?_)
      rw [List.forall₂_map_right_iff, List.forall₂_same]
      exact fun x _ => of_unmarkDeep x
    | tuple items =>
      rw [unmarkDeep, unmarkDeepAll_eq_map]
      refine .matched (.tuple ?_)
      rw [List.forall₂_map_right_iff, List.forall₂_same]
      exact fun x _ => of_unmarkDeep x
    | map e entries =>
      rw [unmarkDeep, unmarkDeepEntries_eq_mapValues]
      refine .matched (.map (names_mapValues _ _).symm ?_)
      rw [values_mapValues, List.forall₂_map_right_iff, List.forall₂_same]
      exact fun x _ => of_unmarkDeep x
    | object entries =>
      rw [unmarkDeep, unmarkDeepEntries_eq_mapValues]
      refine .matched (.object (names_mapValues _ _).symm ?_)
      rw [values_mapValues, List.forall₂_map_right_iff, List.forall₂_same]
      exact fun x _ => of_unmarkDeep x
    | union variants variant inner =>
      rw [unmarkDeep]
      exact .matched (.union (of_unmarkDeep inner))
    | _ =>
      simp only [unmarkDeep]
      exact .same fun x _ => refl x
  have left := own v
  have right := own w
  rw [← h] at right
  generalize v.unmarkDeep.content = c at left right
  generalize w.content = d at right
  cases right with
  | same => exact left
  | matched right =>
    have back := right.symm fun x _ y _ same => same.symm
    cases left with
    | same => exact .matched back
    | matched left => exact .matched (left.trans back fun x _ y _ z _ h h' => h.trans h')

end Alike

/-- Two values are alike. If they have to be free of capsules, both are. -/
structure Twins (free : Prop) (v w : Value) : Prop where
  alike : v.Alike w
  sterile : free → v.Sterile ∧ w.Sterile

namespace Twins

variable {free : Prop}

theorem unmark (h : Twins free v w) : Twins free v.unmark w.unmark :=
  ⟨h.alike.unmark, fun hf => ⟨(h.sterile hf).1.unmark, (h.sterile hf).2.unmark⟩⟩

theorem alike_all (h : List.Forall₂ (Twins free) vs ws) : List.Forall₂ Alike vs ws :=
  h.imp fun _ _ h => h.alike

/-- The parts of twins are twins. -/
theorem content (h : Twins free v w) : Content.Twin (Twins free) v.content w.content := by
  have inside {x y : Value} (hx : x ∈ v.content.parts) (hy : y ∈ w.content.parts)
      (same : x.Alike y) : Twins free x y :=
    ⟨same, fun hf => ⟨(h.sterile hf).1.inside hx, (h.sterile hf).2.inside hy⟩⟩
  have alike := h.alike.content
  generalize v.content = c at alike inside
  generalize w.content = d at alike inside
  cases alike with
  | same parts => exact .same fun x hx => inside hx hx (parts x hx)
  | matched parts => exact .matched (parts.mono fun x hx y hy => inside hx hy)

end Twins

/-! ## Reading -/

/-- What is read out of alike values with the same marks. -/
theorem agree_reading {α β : Type} {R : α → β → Prop} {operation : String}
    {read : Content → Option α} {read' : Content → Option β} (hm : v.marks = w.marks)
    (h : v.Alike w) (hr : Option.Rel R (read v.content) (read' w.content)) :
    Agree R (v.reading operation read) (w.reading operation read') := by
  have marked : v.isMarked = w.isMarked := by rw [isMarked, isMarked, hm]
  rw [reading, reading, marked, h.isKnown, h.isNull, h.ty]
  split
  · exact .error _
  split
  · exact .error _
  split
  · exact .error _
  revert hr
  generalize read v.content = o
  generalize read' w.content = o'
  rintro (hr | _)
  · exact .ok hr
  · exact .error _

/-- What is read out of a content without its parts. -/
theorem Alike.reading {α : Type} (operation : String) {read : Content → Option α}
    (hm : v.marks = w.marks) (h : v.Alike w)
    (hr : ∀ c d, Content.Matched Alike c d → read c = read d) :
    v.reading operation read = w.reading operation read := by
  have same {c d : Content} (h : Content.Twin Alike c d) : read c = read d := by
    cases h with
    | same => rfl
    | matched h => exact hr c d h
  refine Agree.eq (agree_reading hm h ?_)
  rw [same h.content]
  cases read w.content with
  | none => exact .none
  | some a => exact .some rfl

theorem agree_numbered {R : Value → Value → Prop} (h : List.Forall₂ R vs ws) (start : Nat) :
    List.Forall₂ (fun x y => x.1 = y.1 ∧ R x.2 y.2) (numbered start vs) (numbered start ws) := by
  induction h generalizing start with
  | nil => exact .nil
  | cons hx _ ih => exact .cons ⟨rfl, hx⟩ (ih (start + 1))

theorem agree_keyed {R : Value → Value → Prop} {xs ys : List (String × Value)}
    (h : Paired (fun _ => R) xs ys) :
    List.Forall₂ (fun x y => x.1 = y.1 ∧ R x.2 y.2) (keyed xs) (keyed ys) := by
  rw [keyed, keyed, List.forall₂_map_left_iff, List.forall₂_map_right_iff]
  exact h.imp fun x y hx => ⟨by rw [hx.1], hx.2⟩

theorem agree_elements? {R : Value → Value → Prop} {c d : Content} (h : Content.Twin R c d) :
    Option.Rel (List.Forall₂ fun x y => x.1 = y.1 ∧ R x.2 y.2) (elements? c) (elements? d) := by
  cases h with
  | same parts =>
    have all {xs : List Value} (h : ∀ x ∈ xs, R x x) : List.Forall₂ R xs xs := List.forall₂_same.2 h
    cases c with
    | list e items | set e items | tuple items => exact .some (agree_numbered (all parts) 0)
    | map e entries | object entries =>
      exact .some (agree_keyed (paired_of_values rfl (all parts)))
    | _ => exact .none
  | matched h =>
    cases h with
    | list h | tuple h => exact .some (agree_numbered h 0)
    | map hn h | object hn h => exact .some (agree_keyed (paired_of_values hn h))
    | _ => exact .none

namespace Twins

variable {free : Prop}

/-- Twins with the same marks have the same keys, with elements that are twins. -/
theorem elements (hm : v.marks = w.marks) (h : Twins free v w) :
    Agree (List.Forall₂ fun x y => x.1 = y.1 ∧ Twins free x.2 y.2) v.elements w.elements :=
  agree_reading hm h.alike (agree_elements? h.content)

theorem namedElements (hm : v.marks = w.marks) (h : Twins free v w) :
    Agree (List.Forall₂ fun x y => x.1 = y.1 ∧ x.2.1 = y.2.1 ∧ Twins free x.2.2 y.2.2)
      v.namedElements w.namedElements := by
  refine (h.elements hm).orFailure.bind fun es fs hes => .mapM hes fun x y hx => ?_
  obtain ⟨key, x⟩ := x
  obtain ⟨key', y⟩ := y
  obtain ⟨rfl, hx⟩ := hx
  exact (Agree.map_same fun name => ⟨rfl, rfl, hx⟩).orFailure

theorem variant (hm : v.marks = w.marks) (h : Twins free v w) :
    Agree (fun x y => x.1 = y.1 ∧ Twins free x.2 y.2) v.variant w.variant := by
  refine agree_reading hm h.alike ?_
  have content := h.content
  generalize v.content = c at content ⊢
  generalize w.content = d at content ⊢
  cases content with
  | same parts =>
    cases c with
    | union variants name inner => exact .some ⟨rfl, parts inner List.mem_cons_self⟩
    | _ => exact .none
  | matched h =>
    cases h with
    | union h => exact .some ⟨rfl, h⟩
    | _ => exact .none

end Twins

namespace Alike

theorem size (hm : v.marks = w.marks) (h : v.Alike w) : v.size = w.size := by
  refine h.reading "length_int" hm fun c d h => ?_
  cases h with
  | list h | tuple h => exact congrArg some h.length_eq
  | map hn _ | object hn _ =>
    refine congrArg some ?_
    simpa [names] using congrArg List.length hn
  | _ => rfl

theorem asString (hm : v.marks = w.marks) (h : v.Alike w) : v.asString = w.asString :=
  h.reading "as_string" hm fun _ _ h => by cases h <;> rfl

theorem asNumber (hm : v.marks = w.marks) (h : v.Alike w) : v.asNumber = w.asNumber :=
  h.reading "as_number" hm fun _ _ h => by cases h <;> rfl

theorem asBool (hm : v.marks = w.marks) (h : v.Alike w) : v.asBool = w.asBool :=
  h.reading "as_bool" hm fun _ _ h => by cases h <;> rfl

theorem payload (operation : String) (hm : v.marks = w.marks) (h : v.Alike w) :
    v.payload operation = w.payload operation :=
  h.reading operation hm fun _ _ h => by cases h <;> rfl

/-- Alike unknowns differ in marks of their own alone. -/
theorem unmark_eq_of_unknown (h : v.Alike w) (unknown : v.isKnown = false) :
    v.unmark = w.unmark := by
  have content := h.content
  obtain ⟨m, c⟩ := v
  obtain ⟨n, d⟩ := w
  cases c with
  | unknown t r =>
    change Content.Twin Alike (.unknown t r) d at content
    cases content with
    | same => rfl
    | matched h => cases h
  | _ => cases unknown

/-! ## Making values -/

theorem conformTo (e : Ty) (h : v.Alike w) : (conformTo e v).Alike (conformTo e w) := by
  unfold Value.conformTo
  rw [h.ty, h.isNull]
  split
  · exact h
  · exact (refl _).withMarks _ _

theorem conformTo_all (e : Ty) (h : List.Forall₂ Alike vs ws) :
    List.Forall₂ Alike (vs.map (Value.conformTo e)) (ws.map (Value.conformTo e)) := by
  rw [List.forall₂_map_left_iff, List.forall₂_map_right_iff]
  exact h.imp fun _ _ h => h.conformTo e

theorem list (e : Ty) (h : List.Forall₂ Alike vs ws) :
    (bare (.list e vs)).Alike (bare (.list e ws)) := by
  simp only [Alike, bare, unmarkDeep, unmarkDeepAll_eq_map, all_iff.1 h]

theorem tuple (h : List.Forall₂ Alike vs ws) : (tuple vs).Alike (tuple ws) := by
  simp only [Alike, Value.tuple, bare, unmarkDeep, unmarkDeepAll_eq_map, all_iff.1 h]

theorem mapValues_eq {xs ys : List (String × Value)} (h : Paired (fun _ => Alike) xs ys) :
    mapValues unmarkDeep xs = mapValues unmarkDeep ys := by
  rw [mapValues, mapValues, ← List.forall₂_eq_eq_eq, List.forall₂_map_left_iff,
    List.forall₂_map_right_iff]
  exact h.imp fun x y hx => by rw [hx.1, show x.2.unmarkDeep = y.2.unmarkDeep from hx.2]

theorem map (e : Ty) {xs ys : List (String × Value)} (h : Paired (fun _ => Alike) xs ys) :
    (bare (.map e xs)).Alike (bare (.map e ys)) := by
  simp only [Alike, bare, unmarkDeep, unmarkDeepEntries_eq_mapValues, mapValues_eq h]

theorem object {xs ys : List (String × Value)} (h : Paired (fun _ => Alike) xs ys) :
    (object xs).Alike (object ys) := by
  simp only [Alike, Value.object, bare, unmarkDeep, unmarkDeepEntries_eq_mapValues,
    mapValues_eq h.namedParts]

/-- Objects that have some attributes more, the same ones in both. -/
theorem object_append {xs ys : List (String × Value)} (h : Paired (fun _ => Alike) xs ys)
    (more : List (String × Value)) :
    (Value.object (xs ++ more)).Alike (Value.object (ys ++ more)) :=
  .object (List.rel_append h (List.forall₂_same.2 fun _ _ => ⟨rfl, .refl _⟩))

end Alike

/-- Among values of a common type, some have a common type. -/
theorem commonType?_of_subset (hc : (commonType? vs).isSome = true) (h : ∀ w ∈ ws, w ∈ vs) :
    (commonType? ws).isSome = true := by
  obtain ⟨e, hc⟩ := Option.isSome_iff_exists.1 hc
  have all : ∀ u ∈ types ws, u = .dynamic ∨ u = e := fun u hu => by
    obtain ⟨w, hw, rfl⟩ := mem_types.1 hu
    exact ty_of_commonType? hc (h w hw)
  have from_ (us : List Ty) (t : Ty) (ht : t = .dynamic ∨ t = e)
      (hus : ∀ u ∈ us, u = .dynamic ∨ u = e) : (commonTypeFrom? t us).isSome = true := by
    induction us generalizing t with
    | nil => rfl
    | cons u us ih =>
      rw [List.forall_mem_cons] at hus
      rw [commonTypeFrom?]
      split
      · exact ih u hus.1 hus.2
      split
      · exact ih t ht hus.2
      · rename_i notDynamic apart
        rcases hus.1 with hu | hu
        · exact absurd (.inl hu) apart
        · exact absurd (.inr (hu ▸ ht.resolve_left notDynamic)) apart
  exact from_ _ _ (.inl rfl) all

theorem agree_union (t : Ty) (name : String) (h : v.Alike w) :
    Agree Alike (union t name v) (union t name w) := by
  have inner (variants : List (String × Ty)) (name : String) :
      (bare (.union variants name v)).Alike (bare (.union variants name w)) := by
    simp only [Alike, bare, unmarkDeep]
    rw [show v.unmarkDeep = w.unmarkDeep from h]
  rw [union, union]
  refine .bind_same fun variants => ?_
  simp only [h.ty]
  split
  · exact .error _
  · rename_i wanted found
    generalize (if wanted.hasDynamic then w.ty.conforms wanted
      else w.ty == wanted.withoutOptional) = fits
    cases fits
    · exact .error _
    · exact .ok (inner _ _)

variable [Host]

theorem agree_list (h : List.Forall₂ Alike vs ws) (hc : (commonType? vs).isSome = true) :
    Agree Alike (list vs) (list ws) := by
  obtain ⟨e, hc⟩ := Option.isSome_iff_exists.1 hc
  cases h with
  | nil => exact .refl Alike.refl _
  | cons hx rest =>
    have h : List.Forall₂ Alike (_ :: _) (_ :: _) := .cons hx rest
    rw [list_of_common (by simp) hc, list_of_common (by simp) (Alike.commonType? h ▸ hc)]
    exact .ok (.list e (Alike.conformTo_all e h))

theorem Alike.setOf (e : Ty) (h : List.Forall₂ Alike vs ws) : (setOf e vs).Alike (setOf e ws) := by
  rw [Value.setOf, Value.setOf, all_iff.1 (conformTo_all e h)]
  exact (refl _).withMarks _ _

theorem agree_set (h : List.Forall₂ Alike vs ws) (hc : (commonType? vs).isSome = true) :
    Agree Alike (set vs) (set ws) := by
  obtain ⟨e, hc⟩ := Option.isSome_iff_exists.1 hc
  cases h with
  | nil => exact .refl Alike.refl _
  | cons hx rest =>
    have h : List.Forall₂ Alike (_ :: _) (_ :: _) := .cons hx rest
    rw [set_of_common (by simp) hc, set_of_common (by simp) (Alike.commonType? h ▸ hc)]
    exact .ok (.setOf e h)

/-- Entries of a common type make maps that are alike. -/
theorem agree_map {xs ys : List (String × Value)} (h : Paired (fun _ => Alike) xs ys)
    (hc : (commonType? (values xs)).isSome = true) : Agree Alike (map xs) (map ys) := by
  have parts := h.namedParts
  have all : List.Forall₂ Alike (values (Ty.namedParts xs)) (values (Ty.namedParts ys)) :=
    parts.values fun _ _ _ h => h
  have kept : (commonType? (values (Ty.namedParts xs))).isSome = true :=
    commonType?_of_subset hc fun w hw => mem_values_namedParts hw
  obtain ⟨e, hc⟩ := Option.isSome_iff_exists.1 kept
  rw [map, map]
  cases hx : values (Ty.namedParts xs) with
  | nil =>
    rw [hx, List.forall₂_nil_left_iff] at all
    simp only [elementTypeFor, all]
    exact .error _
  | cons x rest =>
    have hne : values (Ty.namedParts xs) ≠ [] := by simp [hx]
    have hne' : values (Ty.namedParts ys) ≠ [] := fun eq => by
      rw [eq, List.forall₂_nil_right_iff] at all
      exact hne all
    rw [← hx]
    simp only [elementTypeFor_of_common hne hc,
      elementTypeFor_of_common hne' (Alike.commonType? all ▸ hc)]
    refine .ok (.map e ?_)
    rw [Paired, mapValues, mapValues, List.forall₂_map_left_iff, List.forall₂_map_right_iff]
    exact parts.imp fun x y hx => ⟨hx.1, hx.2.conformTo e⟩

end Value

end ValueAlgebra
