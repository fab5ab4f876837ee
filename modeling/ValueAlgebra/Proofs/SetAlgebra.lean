import ValueAlgebra.Proofs.SetEngine
import ValueAlgebra.Proofs.ValueParts

/-!
# The algebra of sets under lawful rules

Adding elements one after the other is finding them from then on: what a set finds afterwards is
what it has found before or is equivalent to one of the elements. All four combinations of two sets
add the elements of one set, or some of them, to another one, so what they find follows from this.

Elements that are not equivalent to themselves are found by no set. They are counted all the same,
in each set that they are in, and the sizes of combinations add up because the elements of two sets
that are found in the other one are partners of each other.

Main statements:

* `RuleSet.Sound.has_foldl_insert`, `RuleSet.Sound.size_foldl_insert`: what a run of additions finds
  and counts.
* `RuleSet.Sound.countP_has`: two sets have as many elements in common, seen from either side.
* `RuleSet.combinations_laws`: what the four combinations find, and how many elements they have.
-/

namespace ValueAlgebra.RuleSet

variable {ρ α : Type} [Rules ρ α] {p : α → Prop} {s a b : RuleSet ρ α} {x y : α} {xs : List α}

theorem Sound.size_eq (h : s.Sound p) : s.size = s.values.length :=
  h.counted.trans (values_perm s).length_eq.symm

/-- No two of the elements that a set lists are equivalent. -/
theorem Sound.apart_values (h : s.Sound p) : s.values.Pairwise (Apart s.rules) :=
  ((values_perm s).pairwise_iff apart_symm).2 h.apart

@[simp] theorem has_empty (rules : ρ) (x : α) : (empty rules).has x = false :=
  rfl

omit [Rules ρ α] in
@[simp] theorem size_empty (rules : ρ) : (empty rules : RuleSet ρ α).size = 0 :=
  rfl

section

variable (lawful : Rules.Lawful ρ p)
include lawful

/-! ## Runs of additions -/

/-- A set finds what is equivalent to one that it finds. -/
theorem Sound.has_of_equivalent (h : s.Sound p) (hx : p x) (hy : p y)
    (same : Rules.equivalent s.rules x y = true) (found : s.has x = true) : s.has y = true := by
  obtain ⟨z, hz, equal⟩ := (h.has_iff lawful hx).1 found
  have equal := (lawful.equivalence s.rules).trans (h.of_mem_values hz) hx hy equal same
  exact (h.has_iff lawful hy).2 ⟨z, hz, equal⟩

/-- After an element was added, those that are equivalent to it are found too. -/
theorem Sound.has_insert (h : s.Sound p) (hx : p x) (hy : p y) :
    (s.insert x).has y = true ↔ s.has y = true ∨ Rules.equivalent s.rules x y = true := by
  cases found : s.has x with
  | true =>
    rw [insert, add_of_has found]
    constructor
    · exact .inl
    · rintro (has | same)
      · exact has
      · exact h.has_of_equivalent lawful hx hy same found
  | false =>
    have perm := Bucket.elements_put (Rules.hash s.rules x) h.ascending x
    have listed : ∀ z, z ∈ (s.insert x).values ↔ z = x ∨ z ∈ s.values := by
      intro z
      rw [mem_values, mem_values, ← List.mem_cons, insert, add_of_not_has found]
      exact perm.mem_iff
    have sound : (s.insert x).Sound p := h.add lawful hx
    rw [sound.has_iff lawful hy, h.has_iff lawful hy]
    simp only [rules_insert, listed]
    constructor
    · rintro ⟨z, rfl | hz, same⟩
      · exact .inr same
      · exact .inl ⟨z, hz, same⟩
    · rintro (⟨z, hz, same⟩ | same)
      · exact ⟨z, .inr hz, same⟩
      · exact ⟨x, .inl rfl, same⟩

theorem Sound.has_foldl_insert (h : s.Sound p) (hx : ∀ x ∈ xs, p x) (hy : p y) :
    (xs.foldl insert s).has y = true ↔
      s.has y = true ∨ ∃ x ∈ xs, Rules.equivalent s.rules x y = true := by
  induction xs generalizing s with
  | nil => simp
  | cons x xs ih =>
    have px := hx x List.mem_cons_self
    have sound : (s.insert x).Sound p := h.add lawful px
    rw [List.foldl_cons, ih sound fun z hz => hx z (List.mem_cons_of_mem _ hz),
      h.has_insert lawful px hy, rules_insert, List.exists_mem_cons_iff, or_assoc]

/-- Elements that are apart from each other are counted if the set did not find them before. -/
theorem Sound.size_foldl_insert (h : s.Sound p) (hx : ∀ x ∈ xs, p x)
    (apart : xs.Pairwise (Apart s.rules)) :
    (xs.foldl insert s).size = s.size + xs.countP fun x => !s.has x := by
  induction xs generalizing s with
  | nil => rfl
  | cons x xs ih =>
    obtain ⟨first, apart⟩ := List.pairwise_cons.1 apart
    have px := hx x List.mem_cons_self
    have sound : (s.insert x).Sound p := h.add lawful px
    -- the elements behind `x` are found as they were before, since they are apart from it
    have unchanged : ∀ y ∈ xs, (s.insert x).has y = s.has y := by
      intro y hy
      rw [Bool.eq_iff_iff, h.has_insert lawful px (hx y (List.mem_cons_of_mem _ hy)),
        (first y hy).1, or_iff_left Bool.false_ne_true]
    rw [List.foldl_cons, ih sound (fun z hz => hx z (List.mem_cons_of_mem _ hz))
      (by rwa [rules_insert]), List.countP_congr fun y hy => by rw [unchanged y hy],
      List.countP_cons]
    cases found : s.has x with
    | true => simp [insert, add_of_has found]
    | false => simp [insert, add_of_not_has found]; omega

theorem has_ofList (rules : ρ) (hx : ∀ x ∈ xs, p x) (hy : p y) :
    (ofList rules xs).has y = true ↔ ∃ x ∈ xs, Rules.equivalent rules x y = true := by
  rw [ofList, (sound_empty rules).has_foldl_insert lawful hx hy, has_empty,
    or_iff_right Bool.false_ne_true]
  rfl

theorem size_ofList (rules : ρ) (hx : ∀ x ∈ xs, p x) (apart : xs.Pairwise (Apart rules)) :
    (ofList rules xs).size = xs.length := by
  rw [ofList, (sound_empty rules).size_foldl_insert lawful hx apart]
  simp

/-- A set of elements of another one finds those that are equivalent to one that was taken. -/
theorem Sound.has_filter (h : s.Sound p) {q : α → Bool} (hx : p x)
    (hq : ∀ y, p y → Rules.equivalent s.rules y x = true → q y = q x) :
    (ofList s.rules (s.values.filter q)).has x = true ↔ s.has x = true ∧ q x = true := by
  rw [has_ofList lawful s.rules (fun y hy => h.of_mem_values (List.mem_of_mem_filter hy)) hx,
    h.has_iff lawful hx]
  constructor
  · rintro ⟨y, hy, same⟩
    obtain ⟨hy, taken⟩ := List.mem_filter.1 hy
    exact ⟨⟨y, hy, same⟩, hq y (h.of_mem_values hy) same ▸ taken⟩
  · rintro ⟨⟨y, hy, same⟩, taken⟩
    exact ⟨y, List.mem_filter.2 ⟨hy, (hq y (h.of_mem_values hy) same).symm ▸ taken⟩, same⟩

theorem Sound.size_filter (h : s.Sound p) (q : α → Bool) :
    (ofList s.rules (s.values.filter q)).size = s.values.countP q := by
  rw [size_ofList lawful s.rules (fun y hy => h.of_mem_values (List.mem_of_mem_filter hy))
    (h.apart_values.sublist List.filter_sublist), List.countP_eq_length_filter]

/-! ## Two sets -/

/-- Equivalent elements are found alike. -/
theorem Sound.has_eq (h : s.Sound p) (hx : p x) (hy : p y)
    (same : Rules.equivalent s.rules x y = true) : s.has x = s.has y := by
  rw [Bool.eq_iff_iff]
  exact ⟨h.has_of_equivalent lawful hx hy same,
    h.has_of_equivalent lawful hy hx ((lawful.equivalence s.rules).symm hx hy same)⟩

variable (alike : ∀ x y, p x → p y → Rules.equivalent a.rules x y = Rules.equivalent b.rules x y)
include alike

/-- The elements of a set that another one finds have partners there, no two of them the same
one. -/
theorem Sound.countP_has_le (ha : a.Sound p) (hb : b.Sound p) :
    a.values.countP b.has ≤ b.values.countP a.has := by
  rw [List.countP_eq_length_filter, List.countP_eq_length_filter]
  have equivalence := lawful.equivalence a.rules
  refine length_le_of_found (R := fun x y => Rules.equivalent a.rules x y = true) ?_ ?_
  · intro x hx
    obtain ⟨hx, found⟩ := List.mem_filter.1 hx
    have px := ha.of_mem_values hx
    obtain ⟨y, hy, same⟩ := (hb.has_iff lawful px).1 found
    have py := hb.of_mem_values hy
    rw [← alike y x py px] at same
    have same := equivalence.symm py px same
    exact ⟨y, List.mem_filter.2 ⟨hy, (ha.has_iff lawful py).2 ⟨x, hx, same⟩⟩, same⟩
  · refine (ha.apart_values.sublist List.filter_sublist).imp_of_mem ?_
    intro x x' hx hx' apart y hy same same'
    have px := ha.of_mem_values (List.mem_of_mem_filter hx)
    have px' := ha.of_mem_values (List.mem_of_mem_filter hx')
    have py := hb.of_mem_values (List.mem_of_mem_filter hy)
    have equal := equivalence.trans px py px' same (equivalence.symm px' py same')
    rw [apart.1] at equal
    cases equal

/-- Two sets have as many elements in common, seen from either side. -/
theorem Sound.countP_has (ha : a.Sound p) (hb : b.Sound p) :
    a.values.countP b.has = b.values.countP a.has :=
  Nat.le_antisymm (ha.countP_has_le lawful alike hb)
    (hb.countP_has_le lawful (fun x y hx hy => (alike x y hx hy).symm) ha)

theorem Sound.has_union (ha : a.Sound p) (hb : b.Sound p) (hx : p x) :
    (a.union b).has x = true ↔ a.has x = true ∨ b.has x = true := by
  rw [RuleSet.union, ha.has_foldl_insert lawful (fun y hy => hb.of_mem_values hy) hx,
    hb.has_iff lawful hx]
  refine or_congr_right (exists_congr fun y => and_congr_right fun hy => ?_)
  rw [alike y x (hb.of_mem_values hy) hx]

theorem Sound.has_intersection (ha : a.Sound p) (hb : b.Sound p) (hx : p x) :
    (a.intersection b).has x = true ↔ a.has x = true ∧ b.has x = true :=
  ha.has_filter lawful hx fun y hy same =>
    hb.has_eq lawful hy hx ((alike y x hy hx).symm.trans same)

theorem Sound.has_subtract (ha : a.Sound p) (hb : b.Sound p) (hx : p x) :
    (a.subtract b).has x = true ↔ a.has x = true ∧ b.has x = false := by
  rw [subtract, ha.has_filter lawful hx fun y hy same => by
    rw [hb.has_eq lawful hy hx ((alike y x hy hx).symm.trans same)], Bool.not_eq_true']

theorem Sound.has_symmetricDifference (ha : a.Sound p) (hb : b.Sound p) (hx : p x) :
    (a.symmetricDifference b).has x = true ↔
      a.has x = true ∧ b.has x = false ∨ b.has x = true ∧ a.has x = false := by
  have within : ∀ y ∈ b.values.filter fun y => !a.has y, p y := fun y hy =>
    hb.of_mem_values (List.mem_of_mem_filter hy)
  have rules : (a.subtract b).rules = a.rules := rules_ofList _ _
  have sound : (a.subtract b).Sound p := ha.filter lawful _
  rw [RuleSet.symmetricDifference, sound.has_foldl_insert lawful within hx,
    ha.has_subtract lawful alike hb hx, rules]
  refine or_congr_right ?_
  rw [← Bool.not_eq_true' (a.has x)]
  have only := hb.has_filter lawful hx (q := fun y => !a.has y) fun y hy same => by
    rw [ha.has_eq lawful hy hx ((alike y x hy hx).trans same)]
  rw [has_ofList lawful b.rules within hx] at only
  rw [← only]
  refine exists_congr fun y => and_congr_right fun hy => ?_
  rw [alike y x (within y hy) hx]

omit lawful in
/-- The elements of the second set are apart by the rules of the first one too. -/
theorem Sound.apart_values_of_alike (hb : b.Sound p) : b.values.Pairwise (Apart a.rules) := by
  refine hb.apart_values.imp_of_mem fun {x y} hx hy apart => ?_
  have px := hb.of_mem_values hx
  have py := hb.of_mem_values hy
  exact ⟨(alike x y px py).trans apart.1, (alike y x py px).trans apart.2⟩

theorem Sound.size_union (ha : a.Sound p) (hb : b.Sound p) :
    (a.union b).size = a.size + b.values.countP fun y => !a.has y :=
  ha.size_foldl_insert lawful (fun _ hy => hb.of_mem_values hy) (hb.apart_values_of_alike alike)

theorem Sound.size_symmetricDifference (ha : a.Sound p) (hb : b.Sound p) :
    (a.symmetricDifference b).size =
      (a.subtract b).size + b.values.countP fun y => !a.has y := by
  have rules : (a.subtract b).rules = a.rules := rules_ofList _ _
  have sound : (a.subtract b).Sound p := ha.filter lawful _
  rw [RuleSet.symmetricDifference, sound.size_foldl_insert lawful
    fun y hy => hb.of_mem_values (List.mem_of_mem_filter hy)]
  · congr 1
    rw [List.countP_filter]
    refine List.countP_congr fun y hy => ?_
    have found := ha.has_subtract lawful alike hb (hb.of_mem_values hy)
    cases has : a.has y <;> simp_all
  · rw [rules]
    exact (hb.apart_values_of_alike alike).sublist List.filter_sublist

end

/-! ## Combinations -/

/-- Two sets whose rules are the same, and tell elements apart alike, have all four combinations. An
element is found in the union if one of the sets finds it, in the intersection if both do, in the
difference if the first one alone does, and in the symmetric difference if exactly one does. The
union and the intersection have as many elements together as the sets, the difference and the
intersection as many as the first set, and the symmetric difference lacks those of the intersection
from those of the union. -/
theorem combinations_laws (lawful : Rules.Lawful ρ p) {a b : RuleSet ρ α} (ha : a.Reachable p)
    (hb : b.Reachable p) (same : Rules.same a.rules b.rules = true)
    (alike : ∀ x y, p x → p y →
      Rules.equivalent a.rules x y = Rules.equivalent b.rules x y) :
    ∃ u i d e, combine union a b = some u ∧ combine intersection a b = some i ∧
      combine subtract a b = some d ∧ combine symmetricDifference a b = some e ∧
      (∀ x, p x →
        (u.has x = true ↔ a.has x = true ∨ b.has x = true) ∧
        (i.has x = true ↔ a.has x = true ∧ b.has x = true) ∧
        (d.has x = true ↔ a.has x = true ∧ b.has x = false) ∧
        (e.has x = true ↔ a.has x = true ∧ b.has x = false ∨ b.has x = true ∧ a.has x = false)) ∧
      u.size + i.size = a.size + b.size ∧ d.size + i.size = a.size ∧
      e.size + i.size = u.size := by
  have sa := ha.sound lawful
  have sb := hb.sound lawful
  have combined (f : RuleSet ρ α → RuleSet ρ α → RuleSet ρ α) : combine f a b = some (f a b) := by
    rw [combine, if_pos same]
  refine ⟨_, _, _, _, combined _, combined _, combined _, combined _, fun x hx => ⟨?_, ?_, ?_, ?_⟩,
    ?_⟩
  · exact sa.has_union lawful alike sb hx
  · exact sa.has_intersection lawful alike sb hx
  · exact sa.has_subtract lawful alike sb hx
  · exact sa.has_symmetricDifference lawful alike sb hx
  have union := sa.size_union lawful alike sb
  have symmetric := sa.size_symmetricDifference lawful alike sb
  have common := sa.countP_has lawful alike sb
  have inter : (a.intersection b).size = a.values.countP b.has := sa.size_filter lawful _
  have diff : (a.subtract b).size = a.values.countP fun x => !b.has x := sa.size_filter lawful _
  have first := List.length_eq_countP_add_countP b.has (l := a.values)
  have second := List.length_eq_countP_add_countP a.has (l := b.values)
  simp only [Bool.not_eq_true, Bool.decide_eq_false] at first second
  rw [← sa.size_eq] at first
  rw [← sb.size_eq] at second
  omega

/-- The remainders 1 and 0, and one more element that is equivalent to nothing. -/
def others : RuleSet Residues (Option Nat) :=
  ofList ⟨3⟩ [some 7, none, some 0]

/-- One remainder is in both sets. The three elements that are equivalent to nothing are counted in
the union and in the symmetric difference. -/
theorem combinations_laws_residues :
    (Rules.Lawful Residues fun _ => True) ∧ residues.Reachable (fun _ => True) ∧
    others.Reachable (fun _ => True) ∧ Rules.same residues.rules others.rules = true ∧
    ∃ u i d e, combine union residues others = some u ∧
      combine intersection residues others = some i ∧
      combine subtract residues others = some d ∧
      combine symmetricDifference residues others = some e ∧
      u.has (some 5) = true ∧ i.has (some 4) = true ∧ d.has (some 4) = false ∧
      e.has none = false ∧ u.size = 6 ∧ i.size = 1 ∧ d.size = 3 ∧ e.size = 5 := by
  have made : residues.Reachable (fun _ => True) := by
    unfold residues
    exact .ofList _ fun _ _ => trivial
  have made' : others.Reachable (fun _ => True) := by
    unfold others
    exact .ofList _ fun _ _ => trivial
  have same : Rules.same residues.rules others.rules = true := by decide
  obtain ⟨u, i, d, e, hu, hi, hd, he, found, sizes, less, rest⟩ :=
    combinations_laws lawful_residues made made' same fun _ _ _ _ => rfl
  refine ⟨lawful_residues, made, made', same, u, i, d, e, hu, hi, hd, he, ?_, ?_, ?_, ?_, ?_⟩
  · exact (found (some 5) trivial).1.2 (by decide)
  · exact (found (some 4) trivial).2.1.2 (by decide)
  · rw [← Bool.not_eq_true, (found (some 4) trivial).2.2.1]
    decide
  · rw [← Bool.not_eq_true, (found none trivial).2.2.2]
    decide
  have one : i.size = 1 := by
    have size : (combine intersection residues others).map size = some 1 := by cbv
    rw [hi] at size
    exact Option.some.inj size
  have first : residues.size = 4 := by decide
  have second : others.size = 3 := by decide
  omega

end ValueAlgebra.RuleSet
