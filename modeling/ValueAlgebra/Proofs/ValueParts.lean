import Mathlib
import ValueAlgebra.Proofs.Scope
import ValueAlgebra.Value.Equality

/-!
# Parts of values and contents that are matched

`Content.parts` lists the values that a content is directly made of, and `Value.Everywhere p` says
that a value and all values inside it have a property `p`. Two contents are matched by a relation
(`Content.Matched`) if they are of one kind, agree apart from their parts, and their parts are
related one by one. Both notions of equality match contents in this way where the order of parts
counts.

Main statements:

* `Content.Matched.symm`, `Content.Matched.trans`: laws of the relation hold of matched contents.
* `Content.Matched.hashTokens_eq`: matched contents hash alike if related parts do.
* `exists_perm_forall₂`: where a relation finds a partner for each of some things, and none of
  them shares a partner, the relation holds one by one in some order.
-/

namespace ValueAlgebra

open Entries

/-! ## Lists that are related in some order -/

section

variable {α β γ : Type} {R : α → β → Prop} {xs : List α} {ys : List β}

theorem forall₂_of_mem {S : α → β → Prop} (h : List.Forall₂ R xs ys)
    (hS : ∀ x ∈ xs, ∀ y ∈ ys, R x y → S x y) : List.Forall₂ S xs ys := by
  induction h with
  | nil => exact .nil
  | cons hR _ ih =>
    refine .cons (hS _ List.mem_cons_self _ List.mem_cons_self hR) (ih ?_)
    intro x hx y hy
    exact hS x (List.mem_cons_of_mem _ hx) y (List.mem_cons_of_mem _ hy)

theorem forall₂_trans {S : β → γ → Prop} {T : α → γ → Prop} {zs : List γ}
    (h : List.Forall₂ R xs ys) (h' : List.Forall₂ S ys zs)
    (hT : ∀ x ∈ xs, ∀ y ∈ ys, ∀ z ∈ zs, R x y → S y z → T x z) : List.Forall₂ T xs zs := by
  induction h generalizing zs with
  | nil =>
    cases h'
    exact .nil
  | cons hR _ ih =>
    cases h' with
    | cons hS h' =>
      refine .cons
        (hT _ List.mem_cons_self _ List.mem_cons_self _ List.mem_cons_self hR hS) (ih h' ?_)
      intro x hx y hy z hz
      exact hT x (List.mem_cons_of_mem _ hx) y (List.mem_cons_of_mem _ hy) z
        (List.mem_cons_of_mem _ hz)

theorem Entries.length_values_of_names {as : List (String × α)} {bs : List (String × β)}
    (hn : names as = names bs) : (values as).length = (values bs).length := by
  have length := congrArg List.length hn
  simpa [names, values] using length

/-- Things of which no two share a partner are related one by one to their partners, in the order
of these things. -/
theorem exists_perm_forall₂ (length : ys.length ≤ xs.length) (found : ∀ x ∈ xs, ∃ y ∈ ys, R x y)
    (apart : xs.Pairwise fun x x' => ∀ y ∈ ys, R x y → ¬ R x' y) :
    ∃ zs, zs.Perm ys ∧ List.Forall₂ R xs zs := by
  induction xs generalizing ys with
  | nil =>
    rw [List.length_nil, Nat.le_zero, List.length_eq_zero_iff] at length
    exact ⟨[], length ▸ .refl _, .nil⟩
  | cons x xs ih =>
    obtain ⟨y, hy, hR⟩ := found x List.mem_cons_self
    obtain ⟨others, perm⟩ : ∃ others, ys.Perm (y :: others) := by
      obtain ⟨before, after, rfl⟩ := List.append_of_mem hy
      exact ⟨before ++ after, List.perm_middle⟩
    rw [perm.length_eq, List.length_cons, List.length_cons] at length
    rw [List.pairwise_cons] at apart
    -- the partner of `x` is not the partner of another one
    have rest : ∀ x' ∈ xs, ∃ y' ∈ others, R x' y' := by
      intro x' hx'
      obtain ⟨y', hy', hR'⟩ := found x' (List.mem_cons_of_mem _ hx')
      rcases List.mem_cons.1 (perm.mem_iff.1 hy') with rfl | hy'
      · exact absurd hR' (apart.1 x' hx' y' hy hR)
      · exact ⟨y', hy', hR'⟩
    obtain ⟨zs, permZ, related⟩ := ih (by omega) rest <| apart.2.imp fun differ y' hy' =>
      differ y' (perm.mem_iff.2 (List.mem_cons_of_mem _ hy'))
    exact ⟨y :: zs, (permZ.cons y).trans perm.symm, .cons hR related⟩

/-- Things that have partners, no two of them the same one, are no more than there are partners. -/
theorem length_le_of_found (found : ∀ x ∈ xs, ∃ y ∈ ys, R x y)
    (apart : xs.Pairwise fun x x' => ∀ y ∈ ys, R x y → ¬ R x' y) : xs.length ≤ ys.length := by
  by_contra more
  rw [Nat.not_le] at more
  obtain ⟨zs, perm, related⟩ := exists_perm_forall₂ (Nat.le_of_lt more) found apart
  rw [related.length_eq, perm.length_eq] at more
  exact absurd more (Nat.lt_irrefl _)

end

/-! ## Parts -/

/-- The values that a content is directly made of. -/
def Content.parts : Content → List Value
  | .list _ items | .set _ items | .tuple items => items
  | .map _ entries | .object entries => values entries
  | .union _ _ inner => [inner]
  | _ => []

namespace Value

theorem height_lt_of_mem_parts {v w : Value} (h : w ∈ v.content.parts) : w.height < v.height := by
  obtain ⟨m, c⟩ := v
  cases c with
  | list | set | tuple =>
    rw [height]
    exact Nat.lt_succ_of_le (height_le_heightAll h)
  | map => exact height_lt_map h
  | object => exact height_lt_object h
  | union =>
    cases List.mem_singleton.1 h
    exact height_lt_union
  | _ => cases h

/-- What holds of a value if it holds of its parts holds of all values. -/
theorem induction {motive : Value → Prop}
    (step : ∀ v : Value, (∀ w ∈ v.content.parts, motive w) → motive v) (v : Value) : motive v := by
  generalize hn : v.height = n
  induction n using Nat.strong_induction_on generalizing v with
  | h n ih =>
    refine step v fun w hw => ih w.height ?_ w rfl
    rw [← hn]
    exact height_lt_of_mem_parts hw

end Value

namespace Value

variable {v : Value} {vs : List Value} {entries : List (String × Value)}

theorem allWhollyKnown_iff : allWhollyKnown vs = true ↔ ∀ v ∈ vs, v.isWhollyKnown = true := by
  induction vs with
  | nil => simp [allWhollyKnown]
  | cons v vs ih => rw [allWhollyKnown, Bool.and_eq_true, ih, List.forall_mem_cons]

theorem allEntriesWhollyKnown_iff :
    allEntriesWhollyKnown entries = true ↔ ∀ v ∈ values entries, v.isWhollyKnown = true := by
  induction entries with
  | nil => simp [allEntriesWhollyKnown]
  | cons entry entries ih =>
    obtain ⟨name, v⟩ := entry
    rw [allEntriesWhollyKnown, Bool.and_eq_true, ih, values_cons, List.forall_mem_cons]

/-- A value is wholly known if it is known and its parts are wholly known. -/
theorem isWhollyKnown_iff : v.isWhollyKnown = true ↔
    v.isKnown = true ∧ ∀ w ∈ v.content.parts, w.isWhollyKnown = true := by
  obtain ⟨m, c⟩ := v
  cases c <;> simp [isWhollyKnown, isKnown, content, Content.parts, allWhollyKnown_iff,
    allEntriesWhollyKnown_iff]

theorem allHaveWhollyKnownType_iff :
    allHaveWhollyKnownType vs = true ↔ ∀ v ∈ vs, v.hasWhollyKnownType = true := by
  induction vs with
  | nil => simp [allHaveWhollyKnownType]
  | cons v vs ih => rw [allHaveWhollyKnownType, Bool.and_eq_true, ih, List.forall_mem_cons]

theorem allEntriesHaveWhollyKnownType_iff : allEntriesHaveWhollyKnownType entries = true ↔
    ∀ v ∈ values entries, v.hasWhollyKnownType = true := by
  induction entries with
  | nil => simp [allEntriesHaveWhollyKnownType]
  | cons entry entries ih =>
    obtain ⟨name, v⟩ := entry
    rw [allEntriesHaveWhollyKnownType, Bool.and_eq_true, ih, values_cons, List.forall_mem_cons]

/-- The parts of a value with no open part of its type leave no part of theirs open. -/
theorem hasWhollyKnownType_of_mem_parts {w : Value} (h : v.hasWhollyKnownType = true)
    (hw : w ∈ v.content.parts) : w.hasWhollyKnownType = true := by
  obtain ⟨m, c⟩ := v
  cases c with
  | list | set | tuple => exact allHaveWhollyKnownType_iff.1 h w hw
  | map | object => exact allEntriesHaveWhollyKnownType_iff.1 h w hw
  | union =>
    cases List.mem_singleton.1 hw
    exact h
  | _ => cases hw

/-- If the parts of a known value other than null leave no part of their types open, it leaves no
part of its type open. -/
theorem hasWhollyKnownType_of_parts (known : v.isKnown = true) (present : v.isNull = false)
    (h : ∀ w ∈ v.content.parts, w.hasWhollyKnownType = true) : v.hasWhollyKnownType = true := by
  obtain ⟨m, c⟩ := v
  cases c with
  | unknown => cases known
  | null => cases present
  | list | set | tuple => exact allHaveWhollyKnownType_iff.2 h
  | map | object => exact allEntriesHaveWhollyKnownType_iff.2 h
  | union variants name inner => exact h inner List.mem_cons_self
  | _ => rfl

end Value

/-- A value and all values inside it have a property. -/
inductive Value.Everywhere (p : Value → Prop) : Value → Prop
  | intro {v : Value} (here : p v) (inside : ∀ w ∈ v.content.parts, Everywhere p w) :
    Everywhere p v

namespace Value.Everywhere

variable {p q : Value → Prop} {v w : Value}

theorem here (h : v.Everywhere p) : p v := by
  cases h
  assumption

theorem inside (h : v.Everywhere p) (hw : w ∈ v.content.parts) : w.Everywhere p := by
  cases h with
  | intro _ inside => exact inside w hw

theorem mono (h : v.Everywhere p) (hpq : ∀ w, p w → q w) : v.Everywhere q := by
  induction h with
  | intro here _ ih => exact .intro (hpq _ here) ih

end Value.Everywhere

/-! ## Matched contents -/

namespace Content

variable {R S T : Value → Value → Prop} {c d e : Content}

/-- Contents of one kind that agree apart from their parts, which are related one by one. -/
inductive Matched (R : Value → Value → Prop) : Content → Content → Prop
  | number (n : Number) : Matched R (.number n) (.number n)
  | string (s : String) : Matched R (.string s) (.string s)
  | bool (b : Bool) : Matched R (.bool b) (.bool b)
  | list {e : Ty} {xs ys : List Value} (h : List.Forall₂ R xs ys) :
    Matched R (.list e xs) (.list e ys)
  | tuple {xs ys : List Value} (h : List.Forall₂ R xs ys) : Matched R (.tuple xs) (.tuple ys)
  | map {e : Ty} {xs ys : List (String × Value)} (hn : names xs = names ys)
      (h : List.Forall₂ R (values xs) (values ys)) : Matched R (.map e xs) (.map e ys)
  | object {xs ys : List (String × Value)} (hn : names xs = names ys)
      (h : List.Forall₂ R (values xs) (values ys)) : Matched R (.object xs) (.object ys)
  | union {variants : List (String × Ty)} {name : String} {x y : Value} (h : R x y) :
    Matched R (.union variants name x) (.union variants name y)

namespace Matched

theorem mono (h : Matched R c d) (hS : ∀ x ∈ c.parts, ∀ y ∈ d.parts, R x y → S x y) :
    Matched S c d := by
  cases h with
  | number n => exact .number n
  | string s => exact .string s
  | bool b => exact .bool b
  | list h => exact .list (forall₂_of_mem h hS)
  | tuple h => exact .tuple (forall₂_of_mem h hS)
  | map hn h => exact .map hn (forall₂_of_mem h hS)
  | object hn h => exact .object hn (forall₂_of_mem h hS)
  | union h => exact .union (hS _ List.mem_cons_self _ List.mem_cons_self h)

theorem symm (h : Matched R c d) (hS : ∀ x ∈ c.parts, ∀ y ∈ d.parts, R x y → S y x) :
    Matched S d c := by
  cases h with
  | number n => exact .number n
  | string s => exact .string s
  | bool b => exact .bool b
  | list h => exact .list (forall₂_of_mem h hS).flip
  | tuple h => exact .tuple (forall₂_of_mem h hS).flip
  | map hn h => exact .map hn.symm (forall₂_of_mem h hS).flip
  | object hn h => exact .object hn.symm (forall₂_of_mem h hS).flip
  | union h => exact .union (hS _ List.mem_cons_self _ List.mem_cons_self h)

theorem trans (h : Matched R c d) (h' : Matched S d e)
    (hT : ∀ x ∈ c.parts, ∀ y ∈ d.parts, ∀ z ∈ e.parts, R x y → S y z → T x z) :
    Matched T c e := by
  cases h with
  | number n =>
    cases h' with
    | number => exact .number n
  | string s =>
    cases h' with
    | string => exact .string s
  | bool b =>
    cases h' with
    | bool => exact .bool b
  | list h =>
    cases h' with
    | list h' => exact .list (forall₂_trans h h' hT)
  | tuple h =>
    cases h' with
    | tuple h' => exact .tuple (forall₂_trans h h' hT)
  | map hn h =>
    cases h' with
    | map hn' h' => exact .map (hn.trans hn') (forall₂_trans h h' hT)
  | object hn h =>
    cases h' with
    | object hn' h' => exact .object (hn.trans hn') (forall₂_trans h h' hT)
  | union h =>
    cases h' with
    | union h' =>
      exact .union
        (hT _ List.mem_cons_self _ List.mem_cons_self _ List.mem_cons_self h h')

/-- Each part of the second content has a part of the first one that is related to it. -/
theorem exists_left (h : Matched R c d) {y : Value} (hy : y ∈ d.parts) : ∃ x ∈ c.parts, R x y := by
  cases h with
  | number | string | bool => cases hy
  | list h | tuple h => exact exists_left_of_forall₂ h hy
  | map _ h | object _ h => exact exists_left_of_forall₂ h hy
  | @union _ _ x y h =>
    cases List.mem_singleton.1 hy
    exact ⟨x, List.mem_cons_self, h⟩

end Matched

end Content

/-! ## Hashes -/

namespace Value

variable [Host] {xs ys : List Value}

theorem hashTokensAll_eq (h : List.Forall₂ (fun x y => x.hashTokens = y.hashTokens) xs ys) :
    hashTokensAll xs = hashTokensAll ys := by
  induction h with
  | nil => rfl
  | cons eq _ ih => rw [hashTokensAll, hashTokensAll, eq, ih]

theorem hashTokensEntries_eq {xs ys : List (String × Value)} (hn : names xs = names ys)
    (h : List.Forall₂ (fun x y => x.hashTokens = y.hashTokens) (values xs) (values ys)) :
    hashTokensEntries xs = hashTokensEntries ys := by
  induction xs generalizing ys with
  | nil =>
    cases ys with
    | nil => rfl
    | cons y ys => cases hn
  | cons x xs ih =>
    cases ys with
    | nil => cases hn
    | cons y ys =>
      obtain ⟨name, x⟩ := x
      obtain ⟨name', y⟩ := y
      rw [names_cons, names_cons, List.cons.injEq] at hn
      rw [values_cons, values_cons, List.forall₂_cons] at h
      rw [hashTokensEntries, hashTokensEntries, hn.1, h.1, ih hn.2 h.2]

theorem hashSum_eq_of_forall₂ (h : List.Forall₂ (fun x y => x.hash = y.hash) xs ys) :
    hashSum xs = hashSum ys := by
  induction h with
  | nil => rfl
  | cons eq _ ih =>
    rw [hashSum, hashSum, ih]
    exact congrArg (· + _) eq

theorem hashSum_eq_of_perm (h : xs.Perm ys) : hashSum xs = hashSum ys := by
  induction h with
  | nil => rfl
  | cons x _ ih => rw [hashSum, hashSum, ih]
  | swap x y zs =>
    simp only [hashSum, ← UInt64.add_assoc]
    rw [UInt64.add_comm (Host.digest x.hashTokens)]
  | trans _ _ ih ih' => exact ih.trans ih'

end Value

/-- Matched contents hash alike if related parts do. -/
theorem Content.Matched.hashTokens_eq [Host] {R : Value → Value → Prop} {v w : Value}
    (h : Matched R v.content w.content)
    (hR : ∀ x ∈ v.content.parts, ∀ y ∈ w.content.parts, R x y → x.hashTokens = y.hashTokens) :
    v.hashTokens = w.hashTokens := by
  obtain ⟨m, c⟩ := v
  obtain ⟨n, d⟩ := w
  cases h.mono hR with
  | number | string | bool => simp only [Value.hashTokens]
  | list same =>
    simp only [Value.hashTokens, Value.hashTokensAll_eq same, same.length_eq]
  | tuple same =>
    simp only [Value.hashTokens, Value.hashTokensAll_eq same, same.length_eq]
  | map hn same => simp only [Value.hashTokens, Value.hashTokensEntries_eq hn same]
  | object hn same => simp only [Value.hashTokens, Value.hashTokensEntries_eq hn same]
  | union same => simp only [Value.hashTokens, same]

end ValueAlgebra
