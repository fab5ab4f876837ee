import Mathlib
import ValueAlgebra.Proofs.EqualityCases

/-!
# Laws of equality

Equality of values is symmetric in all three of its answers, known equality is transitive, and
values that are known to be equal have the same hash. The elements of sets are told apart by this
same equality, and sets are compared by looking up their elements by hash, so the laws are proved
together: what holds of the parts of some values holds of these values (`EqualityLaws.step`), and so
it holds of values of any height.

Main statements:

* `Value.Merged.found_symm`: what it takes for sets of one size to have the same elements.
* `Value.equalityLaws`: the laws of `Value.equalsBare`.
-/

namespace ValueAlgebra

open Entries

/-- A capsule holds what its type takes, and follows the laws. No two elements of a set are merged by
it. The parts of these elements do not count. -/
def Content.Lawful [Host] (heap : Heap) : Content → Prop
  | .capsule c p => c.Consistent ∧ c.Holds heap p
  | .set _ items => items.Pairwise fun x y => ¬ (Value.Merged x y ∧ Value.Merged y x)
  | _ => True

namespace Value

variable [Host]

/-- What equality promises about the values with a property. -/
structure EqualityLaws (p : Value → Prop) : Prop where
  answer : ∀ {a b : Value}, p a → p b → (equalsBare a b).IsAnswer
  symm : ∀ {a b : Value}, p a → p b → (equalsBare a b).SameAnswer (equalsBare b a)
  trans : ∀ {a b c : Value}, p a → p b → p c → Equal a b → Equal b c → Equal a c
  hash : ∀ {a b : Value}, p a → p b → Equal a b → a.hashTokens = b.hashTokens

theorem hash_eq_of_hashTokens {a b : Value} (h : a.hashTokens = b.hashTokens) : a.hash = b.hash :=
  congrArg Host.digest h

theorem hashTokens_of_isNull {v : Value} (h : v.isNull = true) : v.hashTokens = [.tag 0] := by
  obtain ⟨m, c⟩ := v
  cases c with
  | null => rw [hashTokens]
  | _ => cases h

/-! ## Elements of sets -/

section

variable {p : Value → Prop} {a b c x y z : Value} {xs ys : List Value}

namespace EqualityLaws

theorem mono {q : Value → Prop} (laws : EqualityLaws p) (h : ∀ v, q v → p v) : EqualityLaws q where
  answer ha hb := laws.answer (h _ ha) (h _ hb)
  symm ha hb := laws.symm (h _ ha) (h _ hb)
  trans ha hb hc := laws.trans (h _ ha) (h _ hb) (h _ hc)
  hash ha hb := laws.hash (h _ ha) (h _ hb)

variable (laws : EqualityLaws p)
include laws

theorem equal_symm (hx : p x) (hy : p y) (h : Equal x y) : Equal y x := by
  unfold Equal
  rw [← (laws.symm hx hy).yes]
  exact h

theorem merged_of_equal (hx : p x) (hy : p y) (h : Equal x y) : Merged x y :=
  ⟨hash_eq_of_hashTokens (laws.hash hx hy h), h⟩

/-- Elements that are not merged have no element in common that both are equal to. -/
theorem apart (hx : ∀ x ∈ xs, p x) (hy : ∀ y ∈ ys, p y)
    (distinct : xs.Pairwise fun x y => ¬ (Merged x y ∧ Merged y x)) :
    xs.Pairwise fun x x' => ∀ y ∈ ys, Merged x y → ¬ Merged x' y := by
  refine distinct.imp_of_mem ?_
  intro x x' hxs hxs' differ y hys same same'
  have px := hx x hxs
  have px' := hx x' hxs'
  have back := laws.equal_symm px' (hy y hys) same'.2
  have equal := laws.trans px (hy y hys) px' same.2 back
  exact differ ⟨laws.merged_of_equal px px' equal,
    laws.merged_of_equal px' px (laws.equal_symm px px' equal)⟩

/-- The elements of a set that are all found in another one of its size are those of the other one,
in some order. -/
theorem exists_perm (hx : ∀ x ∈ xs, p x) (hy : ∀ y ∈ ys, p y)
    (distinct : xs.Pairwise fun x y => ¬ (Merged x y ∧ Merged y x))
    (length : xs.length = ys.length) (found : ∀ x ∈ xs, ∃ y ∈ ys, Merged x y) :
    ∃ zs, zs.Perm ys ∧ List.Forall₂ Merged xs zs :=
  exists_perm_forall₂ length.ge found (laws.apart hx hy distinct)

theorem found_symm (hx : ∀ x ∈ xs, p x) (hy : ∀ y ∈ ys, p y)
    (distinct : xs.Pairwise fun x y => ¬ (Merged x y ∧ Merged y x))
    (length : xs.length = ys.length) (found : ∀ x ∈ xs, ∃ y ∈ ys, Merged x y) :
    ∀ y ∈ ys, ∃ x ∈ xs, Merged y x := by
  obtain ⟨zs, perm, related⟩ := laws.exists_perm hx hy distinct length found
  intro y hys
  obtain ⟨i, hi, rfl⟩ := List.mem_iff_getElem.1 (perm.mem_iff.2 hys)
  rw [List.forall₂_iff_get] at related
  have hi' : i < xs.length := by
    rw [related.1]
    exact hi
  have same := related.2 i hi' hi
  have px := hx _ (List.getElem_mem hi')
  exact ⟨xs[i], List.getElem_mem hi', same.1.symm, laws.equal_symm px (hy _ hys) same.2⟩

/-! ## From parts to contents -/

variable {heap : Heap} {c d e : Content}

theorem isAnswer_compareContents (alike : c.Alike d) (hc : c.Lawful heap) (hd : d.Lawful heap)
    (pc : ∀ v ∈ c.parts, p v) (pd : ∀ v ∈ d.parts, p v) : (compareContents c d).IsAnswer := by
  cases alike with
  | number | string | bool => exact isAnswer_bool _
  | list | map =>
    rw [compareContents]
    split
    · exact isAnswer_allEqual _
    · exact isAnswer_bool false
  | tuple hl =>
    rw [compareContents, if_pos hl]
    exact isAnswer_allEqual _
  | object hn =>
    rw [compareContents, if_pos hn]
    exact isAnswer_allEqual _
  | set =>
    rw [compareContents]
    split
    · exact isAnswer_bool _
    · exact isAnswer_undecided
  | union =>
    rw [compareContents]
    split
    · exact laws.answer (pc _ List.mem_cons_self) (pd _ List.mem_cons_self)
    · exact isAnswer_bool false
  | capsule => exact CapsuleType.equals_isAnswer hc.1 hc.2 hd.2

theorem allEqual_zipWith_comm (hx : ∀ x ∈ xs, p x) (hy : ∀ y ∈ ys, p y) :
    allEqual (List.zipWith equalsBare xs ys) = allEqual (List.zipWith equalsBare ys xs) := by
  apply allEqual_congr
  induction xs generalizing ys with
  | nil => simp
  | cons x xs ih =>
    cases ys with
    | nil => simp
    | cons y ys =>
      rw [List.forall_mem_cons] at hx hy
      exact .cons (laws.symm hx.1 hy.1) (ih hx.2 hy.2)

theorem compareContents_symm (alike : c.Alike d) (hc : c.Lawful heap) (hd : d.Lawful heap)
    (pc : ∀ v ∈ c.parts, p v) (pd : ∀ v ∈ d.parts, p v) :
    (compareContents c d).SameAnswer (compareContents d c) := by
  cases alike with
  | number x y | string x y | bool x y =>
    apply sameAnswer_of_eq
    rw [compareContents, compareContents, Bool.beq_comm]
  | list e xs ys =>
    apply sameAnswer_of_eq
    have comm : allEqual (List.zipWith equalsBare xs ys) = _ := laws.allEqual_zipWith_comm pc pd
    rw [compareContents, compareContents, comm]
    simp only [eq_comm]
  | tuple hl =>
    apply sameAnswer_of_eq
    rw [compareContents, compareContents, if_pos hl, if_pos hl.symm]
    exact laws.allEqual_zipWith_comm pc pd
  | map e xs ys =>
    apply sameAnswer_of_eq
    have comm : allEqual (List.zipWith equalsBare (values xs) (values ys)) = _ :=
      laws.allEqual_zipWith_comm pc pd
    rw [compareContents, compareContents, comm]
    simp only [eq_comm]
  | object hn =>
    apply sameAnswer_of_eq
    rw [compareContents, compareContents, if_pos hn, if_pos hn.symm]
    exact laws.allEqual_zipWith_comm pc pd
  | set e xs ys =>
    apply sameAnswer_of_eq
    rw [compareContents, compareContents, Bool.and_comm]
    congr 2
    rw [decide_eq_decide]
    constructor
    · rintro ⟨length, found⟩
      exact ⟨length.symm, laws.found_symm pc pd hc length found⟩
    · rintro ⟨length, found⟩
      exact ⟨length.symm, laws.found_symm pd pc hd length found⟩
  | union variants v w x y =>
    rw [compareContents, compareContents]
    by_cases hv : v = w
    · rw [if_pos hv, if_pos hv.symm]
      exact laws.symm (pc _ List.mem_cons_self) (pd _ List.mem_cons_self)
    · rw [if_neg hv, if_neg (Ne.symm hv)]
      exact sameAnswer_of_eq rfl
  | capsule => exact CapsuleType.equals_symm hc.1 hc.2 hd.2

theorem agree_trans (hc : c.Lawful heap) (hd : d.Lawful heap) (he : e.Lawful heap)
    (pc : ∀ v ∈ c.parts, p v) (pd : ∀ v ∈ d.parts, p v) (pe : ∀ v ∈ e.parts, p v)
    (h : c.Agree d) (h' : d.Agree e) : c.Agree e := by
  cases h with
  | matched same =>
    have laws := fun x hx y hy z hz => laws.trans (pc x hx) (pd y hy) (pe z hz)
    cases h' with
    | matched same' => exact .matched (same.trans same' laws)
    | set => cases same
    | capsule => cases same
  | set hx hy length found =>
    cases h' with
    | matched same' => cases same'
    | set hy' hz length' found' =>
      refine .set hx hz (length.trans length') fun x hxs => ?_
      obtain ⟨y, hys, same⟩ := found x hxs
      obtain ⟨z, hzs, same'⟩ := found' y hys
      exact ⟨z, hzs, same.1.trans same'.1,
        laws.trans (pc x hxs) (pd y hys) (pe z hzs) same.2 same'.2⟩
  | capsule same =>
    cases h' with
    | matched same' => cases same'
    | capsule same' => exact .capsule (CapsuleType.equals_trans hc.1 hc.2 hd.2 he.2 same same')

theorem hashTokens_of_agree (hc : a.content.Lawful heap) (hd : b.content.Lawful heap)
    (pa : ∀ v ∈ a.content.parts, p v) (pb : ∀ v ∈ b.content.parts, p v)
    (h : a.content.Agree b.content) : a.hashTokens = b.hashTokens := by
  obtain ⟨m, c⟩ := a
  obtain ⟨n, d⟩ := b
  simp only [content] at h hc hd pa pb
  cases h with
  | matched same => exact same.hashTokens_eq fun x hx y hy => laws.hash (pa x hx) (pb y hy)
  | @set e xs ys _ _ length found =>
    obtain ⟨zs, perm, related⟩ := laws.exists_perm pa pb hc length found
    have sum : hashSum xs = hashSum ys :=
      (hashSum_eq_of_forall₂ (related.imp fun x y same => same.1)).trans (hashSum_eq_of_perm perm)
    rw [hashTokens, hashTokens, sum]
  | capsule same =>
    rw [hashTokens, hashTokens, CapsuleType.hashTokens_of_equals hc.1 hc.2 hd.2 same]

/-! ## From parts to values -/

/-- What holds of the parts of values holds of the values. -/
theorem step :
    EqualityLaws fun v => v.content.Lawful heap ∧ ∀ w ∈ v.content.parts, p w where
  answer := by
    intro a b ha hb
    rw [equalsBare_eq]
    cases early : equalsEarly? a b with
    | some v => exact isAnswer_equalsEarly? early
    | none =>
      obtain ⟨da, db, same⟩ := equalsEarly?_eq_none.1 early
      exact laws.isAnswer_compareContents (alike_of_present da.1 db.1 same) ha.1 hb.1 ha.2 hb.2
  symm := by
    intro a b ha hb
    rw [equalsBare_eq, equalsBare_eq b, equalsEarly?_comm b]
    cases early : equalsEarly? a b with
    | some v => exact sameAnswer_of_eq rfl
    | none =>
      obtain ⟨da, db, same⟩ := equalsEarly?_eq_none.1 early
      exact laws.compareContents_symm (alike_of_present da.1 db.1 same) ha.1 hb.1 ha.2 hb.2
  trans := by
    intro a b c ha hb hc h h'
    have answers {x y : Value} (hx : ∀ w ∈ x.content.parts, p w) (hy : ∀ w ∈ y.content.parts, p w) :
        ∀ v ∈ x.content.parts, ∀ w ∈ y.content.parts, (equalsBare v w).IsAnswer :=
      fun v hv w hw => laws.answer (hx v hv) (hy w hw)
    rw [equal_iff (answers ha.2 hb.2)] at h
    rw [equal_iff (answers hb.2 hc.2)] at h'
    rw [equal_iff (answers ha.2 hc.2)]
    rcases h with ⟨na, nb⟩ | ⟨⟨da, db, same⟩, agree⟩
    · rcases h' with ⟨-, nc⟩ | ⟨⟨db, -, -⟩, -⟩
      · exact .inl ⟨na, nc⟩
      · rw [db.1.2] at nb
        cases nb
    · rcases h' with ⟨nb, -⟩ | ⟨⟨-, dc, same'⟩, agree'⟩
      · rw [db.1.2] at nb
        cases nb
      · exact .inr ⟨⟨da, dc, same.trans same'⟩,
          laws.agree_trans ha.1 hb.1 hc.1 ha.2 hb.2 hc.2 agree agree'⟩
  hash := by
    intro a b ha hb h
    rw [equal_iff fun v hv w hw => laws.answer (ha.2 v hv) (hb.2 w hw)] at h
    rcases h with ⟨na, nb⟩ | ⟨-, agree⟩
    · rw [hashTokens_of_isNull na, hashTokens_of_isNull nb]
    · exact laws.hashTokens_of_agree ha.1 hb.1 ha.2 hb.2 agree

end EqualityLaws

end

/-! ## All values -/

theorem equalityLaws_upTo (heap : Heap) (n : Nat) :
    EqualityLaws fun v => (v.Everywhere fun w => w.content.Lawful heap) ∧ v.height ≤ n := by
  induction n with
  | zero =>
    have none {v : Value} (h : v.height ≤ 0) : False := by
      have pos := v.height_pos
      omega
    constructor
    · exact fun ha _ => (none ha.2).elim
    · exact fun ha _ => (none ha.2).elim
    · exact fun ha _ _ => (none ha.2).elim
    · exact fun ha _ => (none ha.2).elim
  | succ n ih =>
    refine (@EqualityLaws.step _ _ ih heap).mono fun v hv => ⟨hv.1.here, fun w hw => ⟨hv.1.inside hw, ?_⟩⟩
    have lower := height_lt_of_mem_parts hw
    omega

/-- The laws of equality hold of all values whose capsules follow them. -/
theorem equalityLaws (heap : Heap) :
    EqualityLaws fun v => v.Everywhere fun w => w.content.Lawful heap where
  answer {a b} ha hb := (equalityLaws_upTo heap (max a.height b.height)).answer
    ⟨ha, Nat.le_max_left ..⟩ ⟨hb, Nat.le_max_right ..⟩
  symm {a b} ha hb := (equalityLaws_upTo heap (max a.height b.height)).symm
    ⟨ha, Nat.le_max_left ..⟩ ⟨hb, Nat.le_max_right ..⟩
  trans {a b c} ha hb hc :=
    (equalityLaws_upTo heap (max a.height (max b.height c.height))).trans
      ⟨ha, by omega⟩ ⟨hb, by omega⟩ ⟨hc, by omega⟩
  hash {a b} ha hb := (equalityLaws_upTo heap (max a.height b.height)).hash
    ⟨ha, Nat.le_max_left ..⟩ ⟨hb, Nat.le_max_right ..⟩

end Value

end ValueAlgebra
