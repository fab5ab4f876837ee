import Mathlib
import ValueAlgebra.Proofs.Completion
import ValueAlgebra.Proofs.RunParts

/-!
# Equality and completions

What equality decides about values with unknowns stays so when the unknowns are replaced. Two values
that are known to be equal have no unknowns, and their completions are equal. The other direction is
the one with all the early answers in it: if completions of two values are equal, then the answer
for the values is not known to be false (`Value.Reflects`). It is proved for values from their
parts. Sets are why parts of one value have to be compared too: a completion of a wholly known set
keeps all its elements, since two of them that coalesce would have been equal before.

Main statements:

* `Value.isKnown_equalsBare`: equality of wholly known values is decided.
* `Value.reflects`: equal completions rule out the answer false.
* `Value.equal_of_completes`: the completions of equal values are equal.
* `Value.equals_completions`: known answers of `Value.equals` stay.
-/

namespace ValueAlgebra

open Entries

namespace Value

/-! ## Answers -/

variable {a b : Value}

theorem allEqual_isKnown {vs : List Value} (h : ∀ v ∈ vs, v.isKnown = true) :
    (allEqual vs).isKnown = true := by
  unfold allEqual
  split
  · rfl
  · rw [if_pos (List.all_eq_true.2 h)]
    rfl

theorem isKnown_equalsEarly? {v : Value} (ka : a.isKnown = true) (kb : b.isKnown = true)
    (ca : a.hasWhollyKnownType = true) (cb : b.hasWhollyKnownType = true)
    (h : equalsEarly? a b = some v) : v.isKnown = true := by
  rcases cases_present a with ⟨t, r, ha⟩ | ⟨t, ha⟩ | ha
  · rw [isKnown_iff.2 ⟨t, r, ha⟩] at ka
    cases ka
  · rcases cases_present b with ⟨u, s, hb⟩ | ⟨u, hb⟩ | hb
    · rw [isKnown_iff.2 ⟨u, s, hb⟩] at kb
      cases kb
    · rw [equalsEarly?_nulls ha hb] at h
      cases h
      rfl
    · rw [equalsEarly?_null_present ha hb] at h
      cases h
      rfl
  · rcases cases_present b with ⟨u, s, hb⟩ | ⟨u, hb⟩ | hb
    · rw [isKnown_iff.2 ⟨u, s, hb⟩] at kb
      cases kb
    · rw [equalsEarly?_present_null ha hb] at h
      cases h
      rfl
    · rw [equalsEarly?_present ha hb, ca, cb] at h
      simp only [Bool.not_true, Bool.or_self, Bool.false_eq_true, if_false] at h
      split at h
      · cases h
        rfl
      · cases h

/-- What a known answer says can be read off its content. -/
theorem IsAnswer.isKnownBool_iff {v : Value} (h : v.IsAnswer) {r : Bool} :
    v.isKnownBool r = true ↔ v.content = .bool r := by
  rcases h with ⟨b, rfl⟩ | unknown
  · cases b <;> cases r <;> simp [isKnownBool, bool, bare, content, MarkSet.isEmpty, MarkSet.empty]
  · obtain ⟨t, s, hc⟩ := isKnown_iff.1 unknown
    obtain ⟨m, c⟩ := v
    cases hc
    simp [isKnownBool, content]

/-! ## Lengths -/

theorem admitsLength_iff {r : Refinement} {n : Nat} :
    Refinement.admits.admitsLength r n = true ↔ Refinement.Meets.MeetsLength r n := by
  unfold Refinement.admits.admitsLength Refinement.Meets.MeetsLength
  cases r.maxLength <;> simp

/-- What holds of the elements of a list pairwise carries over to elements related to them. -/
theorem pairwise_of_forall₂ {R S T : Value → Value → Prop} {xs xs' : List Value} (h : List.Forall₂ R xs xs')
    (hp : xs.Pairwise S) (hT : ∀ x ∈ xs, ∀ y ∈ xs, ∀ x' y', S x y → R x x' → R y y' → T x' y') :
    xs'.Pairwise T := by
  induction h with
  | nil => exact .nil
  | @cons x x' xs xs' hx rest ih =>
    rw [List.pairwise_cons] at hp ⊢
    refine ⟨fun y' hy' => ?_, ih hp.2 ?_⟩
    · obtain ⟨y, hy, related⟩ := exists_left_of_forall₂ rest hy'
      exact hT x List.mem_cons_self y (List.mem_cons_of_mem _ hy) x' y' (hp.1 y hy) hx related
    · intro x hx y hy
      exact hT x (List.mem_cons_of_mem _ hx) y (List.mem_cons_of_mem _ hy)

section

variable [Host] {heap : Heap}

/-! ## Wholly known values -/

/-- Equality of wholly known values without open parts or capsules is decided. -/
theorem isKnown_equalsBare (ka : a.isWhollyKnown = true) (kb : b.isWhollyKnown = true)
    (ca : a.hasWhollyKnownType = true) (cb : b.hasWhollyKnownType = true) (ha : a.Sound .empty) :
    (equalsBare a b).isKnown = true := by
  induction ha generalizing b with
  | @intro a here inside ih =>
    have known := (isWhollyKnown_iff.1 ka).2
    have known' := (isWhollyKnown_iff.1 kb).2
    have parts {x y : Value} (hx : x ∈ a.content.parts) (hy : y ∈ b.content.parts) :
        (equalsBare x y).isKnown = true :=
      ih x hx (known x hx) (known' y hy) (hasWhollyKnownType_of_mem_parts ca hx)
        (hasWhollyKnownType_of_mem_parts cb hy)
    rw [equalsBare_eq]
    cases early : equalsEarly? a b with
    | some v => exact isKnown_equalsEarly? (isWhollyKnown_iff.1 ka).1 (isWhollyKnown_iff.1 kb).1 ca cb early
    | none =>
      obtain ⟨da, db, same⟩ := equalsEarly?_eq_none.1 early
      have alike := alike_of_present da.1 db.1 same
      rw [Option.getD_none]
      generalize a.content = c at alike here known parts
      generalize b.content = d at alike known' parts
      cases alike with
      | number | string | bool => rfl
      | list | map =>
        rw [compareContents]
        split
        · exact allEqual_isKnown (forall_zipWith fun x hx y hy => parts hx hy)
        · rfl
      | tuple hl =>
        rw [compareContents, if_pos hl]
        exact allEqual_isKnown (forall_zipWith fun x hx y hy => parts hx hy)
      | object hn =>
        rw [compareContents, if_pos hn]
        exact allEqual_isKnown (forall_zipWith fun x hx y hy => parts hx hy)
      | set =>
        rw [compareContents, if_pos]
        · rfl
        · rw [Bool.and_eq_true]
          exact ⟨allWhollyKnown_iff.2 known, allWhollyKnown_iff.2 known'⟩
      | union =>
        rw [compareContents]
        split
        · exact parts List.mem_cons_self List.mem_cons_self
        · rfl
      | capsule => exact here.2.1.elim

/-! ## Completions of single values -/

theorem Completes.null {fits : Ty → Ty → Prop} {v w : Value} {t : Ty} (h : Completes heap fits v w)
    (hv : v.content = .null t) : w.content = .null t := by
  cases h with
  | plain known parts hw => rw [hw, hv]
  | _ => simp_all

/-- What stands for an unknown has a type that fits, and meets what is known about it. -/
theorem Completes.of_unknown {fits : Ty → Ty → Prop} {v w : Value} {t : Ty} {r : Refinement}
    (h : Completes heap fits v w) (hv : v.content = .unknown t r) : fits w.ty t ∧ r.Meets w.content := by
  cases h with
  | unknown hc _ _ type meets =>
    rw [hv] at hc
    cases hc
    exact ⟨type, meets⟩
  | plain known _ _ =>
    rw [isKnown_iff.2 ⟨t, r, hv⟩] at known
    cases known
  | _ => simp_all

theorem Completes.present {fits : Ty → Ty → Prop} {v w : Value} (h : Completes heap fits v w)
    (hv : v.Present) : w.Present := by
  cases h with
  | unknown hc => exact absurd hc hv.not_unknown
  | plain known parts hw => exact ⟨(isKnown_of_content hw).trans hv.1, (isNull_of_content hw).trans hv.2⟩
  | list hc hl parts h hw =>
    obtain ⟨t, -, -, rfl⟩ := list_eq_ok h
    exact ⟨isKnown_of_content hw, isNull_of_content hw⟩
  | set hc hl parts h hw =>
    obtain ⟨t, -, -, rfl⟩ := set_eq_ok h
    exact ⟨isKnown_of_content hw, isNull_of_content hw⟩
  | map hc hn parts h hw =>
    obtain ⟨t, hm⟩ := content_map h
    exact ⟨isKnown_of_content (w := bare (.map t _)) (hw.trans hm),
      isNull_of_content (w := bare (.map t _)) (hw.trans hm)⟩
  | object hc hn parts hw => exact ⟨isKnown_of_content hw, isNull_of_content hw⟩
  | tuple hc hl parts hw => exact ⟨isKnown_of_content hw, isNull_of_content hw⟩
  | union hc part h hw =>
    obtain ⟨variants, variant, hm⟩ := content_union h
    exact ⟨isKnown_of_content (w := bare (.union variants variant _)) (hw.trans hm),
      isNull_of_content (w := bare (.union variants variant _)) (hw.trans hm)⟩

theorem Sound.equal_iff (ha : a.Sound heap) (hb : b.Sound heap) :
    Equal a b ↔ (a.isNull = true ∧ b.isNull = true) ∨
      ((a.Definite ∧ b.Definite ∧ a.ty = b.ty) ∧ a.content.Agree b.content) :=
  Value.equal_iff fun _ hx _ hy => (equalityLaws heap).answer (ha.inside hx) (hb.inside hy)

/-- A value as constructors make it, without capsules. -/
def Formed (v : Value) : Prop :=
  v.Everywhere Regular ∧ v.Sound .empty

theorem formed_of_within {v : Value} (h : v.Within .all) (sound : v.Sound .empty) : v.Formed :=
  ⟨regular_of_within (Scope.closed_upTo _) trivial h, sound⟩

/-- What has no parts is sound as it stands. -/
theorem sound_leaf {v : Value} (leaf : v.content.parts = []) (lawful : v.content.Lawful heap) :
    v.Sound heap :=
  .intro lawful (leaf ▸ List.forall_mem_nil _)

theorem Formed.inside {v w : Value} (h : v.Formed) (hw : w ∈ v.content.parts) : w.Formed :=
  ⟨h.1.inside hw, h.2.inside hw⟩

/-- The elements of a wholly known set with no open part of its type. -/
structure Elements (xs : List Value) : Prop where
  formed : ∀ x ∈ xs, x.Formed
  known : ∀ x ∈ xs, x.isWhollyKnown = true
  closed : ∀ x ∈ xs, x.hasWhollyKnownType = true
  distinct : xs.Pairwise fun x y => ¬ (Merged x y ∧ Merged y x)

theorem Formed.elements {e : Ty} {xs : List Value} (ha : a.Formed)
    (closed : a.hasWhollyKnownType = true) (hc : a.content = .set e xs)
    (known : allWhollyKnown xs = true) : Elements xs where
  formed x hx := ha.inside (hc ▸ hx)
  known := allWhollyKnown_iff.1 known
  closed x hx := hasWhollyKnownType_of_mem_parts closed (hc ▸ hx)
  distinct := by
    have lawful := ha.2.here
    rwa [hc] at lawful

/-! ## Equal completions -/

/-- Among the values with a property, equal completions rule out that the values are known to
differ. -/
def Reflects (heap : Heap) (p : Value → Prop) : Prop :=
  ∀ ⦃a b a' b' : Value⦄, p a → p b → Completes heap Ty.Instantiates a a' →
    Completes heap Ty.Instantiates b b' → Equal a' b' → (equalsBare a b).isKnownFalse = false

section

variable {p : Value → Prop} {a' b' x y x' y' : Value} {e : Ty} {xs xs' : List Value}

/-- Wholly known values are equal if their completions are. -/
theorem Reflects.equal (reflects : Reflects heap p) (px : p x) (py : p y) (hx : x.Formed) (hy : y.Formed)
    (kx : x.isWhollyKnown = true) (ky : y.isWhollyKnown = true)
    (cx : x.hasWhollyKnownType = true) (cy : y.hasWhollyKnownType = true)
    (hx' : Completes heap Ty.Instantiates x x') (hy' : Completes heap Ty.Instantiates y y')
    (h : Equal x' y') : Equal x y := by
  have possible := reflects px py hx' hy' h
  have known := isKnown_equalsBare kx ky cx cy hx.2
  rcases ((equalityLaws .empty).answer hx.2 hy.2).isKnown known with yes | no
  · exact yes
  · rw [possible] at no
    cases no

/-- Elements of a wholly known set that have equal completions were the same before. -/
theorem Elements.merged (hx : Elements xs) (reflects : Reflects heap p) (px : p x) (py : p y)
    (hxs : x ∈ xs) (hys : y ∈ xs) (hx' : Completes heap Ty.Instantiates x x')
    (hy' : Completes heap Ty.Instantiates y y') (h : Equal x' y') : Merged x y ∧ Merged y x := by
  have fx := hx.formed x hxs
  have fy := hx.formed y hys
  have before := reflects.equal px py fx fy (hx.known x hxs) (hx.known y hys) (hx.closed x hxs)
    (hx.closed y hys) hx' hy' h
  have laws := equalityLaws .empty
  exact ⟨laws.merged_of_equal fx.2 fy.2 before,
    laws.merged_of_equal fy.2 fx.2 (laws.equal_symm fx.2 fy.2 before)⟩

/-- Elements that a set does not keep apart are equal. -/
theorem equal_of_merge (h : RuleSet.Merge (ValueRules.mk e) x.unmarkDeep y.unmarkDeep) :
    Equal x y := by
  have same := h.2
  simp only [Rules.equivalent] at same
  rw [equals_of_unmarked (containsMarked_unmarkDeep x) (containsMarked_unmarkDeep y)] at same
  exact equal_unmarkDeep.1 same

/-- A completion of a wholly known set keeps all elements: those that coalesce would have been equal
before. -/
theorem Reflects.kept (reflects : Reflects heap p) (px : ∀ x ∈ xs, p x) (hx : Elements xs)
    (h : List.Forall₂ (Completes heap Ty.Instantiates) xs xs') :
    (RuleSet.ofList (ValueRules.mk e) (xs'.map unmarkDeep)).values.Perm (xs'.map unmarkDeep) := by
  refine RuleSet.perm_ofList (List.pairwise_map.2 (pairwise_of_forall₂ h hx.distinct ?_))
  intro x hxs y hys x' y' apart hx' hy' merge
  exact apart (hx.merged reflects (px x hxs) (px y hys) hxs hys hx' hy' (equal_of_merge merge))

/-- A set of one element is completed by a set of one element. -/
theorem length_ofList_singleton (e : Ty) (v : Value) :
    (RuleSet.ofList (ValueRules.mk e) [v]).values.length = 1 :=
  (RuleSet.perm_ofList (List.pairwise_singleton _ v)).length_eq

/-- What equals a completion of a value does not meet a refinement unless the value does. -/
theorem Reflects.admits (reflects : Reflects heap p) {r : Refinement} {c : Content}
    (hb : b.Formed) (pb : ∀ v ∈ b.content.parts, p v) (definite : b.Definite)
    (hb' : Completes heap Ty.Instantiates b b') (meets : r.Meets c) (agree : c.Agree b'.content) :
    r.admits b.content = true := by
  have completed := hb'.completed hb.1 hb.2 definite
  have elements (e : Ty) (xs : List Value) (hc : b.content = .set e xs) :=
    hb.elements definite.2 hc
  generalize b.content = d at completed elements pb
  generalize b'.content = d' at completed agree
  cases completed with
  | matched same =>
    cases same with
    | number n =>
      obtain ⟨⟨⟩⟩ := agree
      exact Bool.and_eq_true_iff.2 meets.2
    | string s =>
      obtain ⟨⟨⟩⟩ := agree
      exact List.isPrefixOf_iff_prefix.2 meets.2
    | list related =>
      obtain ⟨⟨⟩⟩ := agree
      rename_i same
      rw [Refinement.admits, admitsLength_iff, related.length_eq, ← same.length_eq]
      exact meets.2
    | @map _ ys ys' hn related =>
      obtain ⟨⟨⟩⟩ := agree
      rename_i zs hn' same
      have length : ys.length = zs.length := by
        rw [← length_names ys, hn, ← hn', length_names]
      rw [Refinement.admits, admitsLength_iff, length]
      exact meets.2
    | bool | tuple | object | union => rfl
  | @set e xs xs' related =>
    rw [Refinement.admits]
    split
    · rename_i counts
      have length : (RuleSet.ofList (ValueRules.mk e) (xs'.map unmarkDeep)).values.length =
          xs.length := by
        rw [Bool.or_eq_true, beq_iff_eq] at counts
        rcases counts with known | one
        · rw [(reflects.kept pb (elements e xs rfl known) related).length_eq, List.length_map,
            related.length_eq]
        · obtain ⟨x, rfl⟩ := List.length_eq_one_iff.1 one
          obtain ⟨x', hx', rfl⟩ : ∃ x', Completes heap Ty.Instantiates x x' ∧ xs' = [x'] := by
            cases related with
            | cons first rest =>
              cases rest
              exact ⟨_, first, rfl⟩
          exact length_ofList_singleton e _
      cases agree with
      | matched same => cases same
      | set _ _ same _ =>
        rw [admitsLength_iff, ← length, ← same]
        exact meets.2
    · rfl

/-- A known value is not told apart from an unknown that a value equal to a completion stands for. -/
theorem Reflects.equalsUnknown (reflects : Reflects heap p) {t : Ty} {r : Refinement} (hb : b.Formed)
    (pb : ∀ v ∈ b.content.parts, p v) (known : b.isKnown = true)
    (hb' : Completes heap Ty.Instantiates b b') (type : x.ty.Instantiates t) (hx : x.Sound heap)
    (meets : r.Meets x.content) (equal : Equal x b') :
    (equalsUnknown b t r).isKnownFalse = false := by
  rw [hx.equal_iff (hb'.sound hb.2)] at equal
  unfold Value.equalsUnknown
  rcases cases_present b with ⟨u, s, hc⟩ | ⟨u, hc⟩ | present
  · rw [isKnown_iff.2 ⟨u, s, hc⟩] at known
    cases known
  · rw [if_pos (isNull_iff.2 ⟨u, hc⟩)]
    rcases equal with ⟨null, -⟩ | ⟨⟨-, definite, -⟩, -⟩
    · obtain ⟨v, hv⟩ := isNull_iff.1 null
      rw [hv] at meets
      rw [if_neg meets, isKnownFalse_undecided]
    · exact absurd (hb'.null hc) definite.1.not_null
  · rcases equal with ⟨-, null⟩ | ⟨⟨-, -, same⟩, agree⟩
    · rw [(hb'.present present).2] at null
      cases null
    rw [present.2, if_neg Bool.false_ne_true]
    split
    · exact isKnownFalse_undecided
    · rename_i closed
      rw [Bool.or_eq_true, not_or, Bool.not_eq_true, Bool.not_eq_true] at closed
      have definite : b.Definite := ⟨present, hasWhollyKnownType_of_ty hb.1 closed.1⟩
      have types : b.ty = t := by
        rw [← (hb'.follows hb.1).2 definite.2, ← same, type.eq_of_hasDynamic closed.2]
      rw [if_neg (not_not.2 types), if_pos (reflects.admits hb pb definite hb' meets agree),
        isKnownFalse_undecided]

/-- Contents whose parts are not known to differ are not known to differ. -/
theorem isKnownFalse_compareContents {c d : Content}
    (h : c.Matched (fun x y => (equalsBare x y).isKnownFalse = false) d) :
    (compareContents c d).isKnownFalse = false := by
  have all {xs ys : List Value}
      (related : List.Forall₂ (fun x y => (equalsBare x y).isKnownFalse = false) xs ys) :
      (allEqual (List.zipWith equalsBare xs ys)).isKnownFalse = false := by
    rw [Bool.eq_false_iff, Ne, allEqual_isKnownFalse]
    rintro ⟨v, hv, no⟩
    have undenied := (forall_zipWith_iff (p := fun v => v.isKnownFalse = false)
      related.length_eq).2 related v hv
    rw [undenied] at no
    cases no
  cases h with
  | number | string | bool => rw [compareContents, beq_self_eq_true, isKnownFalse_bool]; rfl
  | list related | tuple related =>
    rw [compareContents, if_pos related.length_eq]
    exact all related
  | map hn related | object hn related =>
    rw [compareContents, if_pos hn]
    exact all related
  | union related => rwa [compareContents, if_pos rfl]

/-- Wholly known sets with equal completions have the same elements. -/
theorem Reflects.sets (reflects : Reflects heap p) {ys ys' : List Value} (px : ∀ x ∈ xs, p x)
    (py : ∀ y ∈ ys, p y) (hx : Elements xs) (hy : Elements ys)
    (related : List.Forall₂ (Completes heap Ty.Instantiates) xs xs')
    (related' : List.Forall₂ (Completes heap Ty.Instantiates) ys ys')
    (length : (RuleSet.ofList (ValueRules.mk e) (xs'.map unmarkDeep)).values.length =
      (RuleSet.ofList (ValueRules.mk e) (ys'.map unmarkDeep)).values.length)
    (found : ∀ x ∈ (RuleSet.ofList (ValueRules.mk e) (xs'.map unmarkDeep)).values,
      ∃ y ∈ (RuleSet.ofList (ValueRules.mk e) (ys'.map unmarkDeep)).values, Merged x y) :
    xs.length = ys.length ∧ ∀ x ∈ xs, ∃ y ∈ ys, Merged x y := by
  have keptX := reflects.kept (e := e) px hx related
  have keptY := reflects.kept (e := e) py hy related'
  constructor
  · rw [related.length_eq, related'.length_eq, ← List.length_map unmarkDeep, ← keptX.length_eq,
      length, keptY.length_eq, List.length_map]
  · intro x hxs
    obtain ⟨x', hxs', completes⟩ := exists_right_of_forall₂ related hxs
    obtain ⟨z, hz, merged⟩ := found x'.unmarkDeep (keptX.mem_iff.2 (List.mem_map_of_mem hxs'))
    obtain ⟨y', hys', rfl⟩ := List.mem_map.1 (keptY.mem_iff.1 hz)
    obtain ⟨y, hys, completes'⟩ := exists_left_of_forall₂ related' hys'
    have fx := hx.formed x hxs
    have fy := hy.formed y hys
    refine ⟨y, hys, (equalityLaws .empty).merged_of_equal fx.2 fy.2 ?_⟩
    exact reflects.equal (px x hxs) (py y hys) fx fy (hx.known x hxs) (hy.known y hys)
      (hx.closed x hxs) (hy.closed y hys) completes completes' (equal_unmarkDeep.1 merged.2)

/-- Definite values with equal completions are not told apart by what they hold. -/
theorem Reflects.contents (reflects : Reflects heap p) (ha : a.Formed) (hb : b.Formed)
    (pa : ∀ v ∈ a.content.parts, p v) (pb : ∀ v ∈ b.content.parts, p v)
    (da : a.Definite) (db : b.Definite) (ha' : Completes heap Ty.Instantiates a a')
    (hb' : Completes heap Ty.Instantiates b b') (agree : a'.content.Agree b'.content) :
    (compareContents a.content b.content).isKnownFalse = false := by
  have completedA := ha'.completed ha.1 ha.2 da
  have completedB := hb'.completed hb.1 hb.2 db
  have elementsA (e : Ty) (xs : List Value) (hc : a.content = .set e xs) := ha.elements da.2 hc
  have elementsB (e : Ty) (ys : List Value) (hd : b.content = .set e ys) := hb.elements db.2 hd
  generalize a.content = c at completedA pa elementsA
  generalize b.content = d at completedB pb elementsB
  generalize a'.content = c' at completedA agree
  generalize b'.content = d' at completedB agree
  cases agree with
  | matched same =>
    cases completedA with
    | matched left =>
      cases completedB with
      | matched right =>
        have left : c.Matched
            (fun x y' => ∃ x', Completes heap Ty.Instantiates x x' ∧ Equal x' y') d' :=
          left.trans same fun x _ x' _ y' _ completes equal => ⟨x', completes, equal⟩
        have back : d'.Matched (fun y' y => Completes heap Ty.Instantiates y y') d :=
          right.symm fun _ _ _ _ completes => completes
        refine isKnownFalse_compareContents (left.trans back ?_)
        rintro x hx y' - y hy ⟨x', completes, equal⟩ completes'
        exact reflects (pa x hx) (pb y hy) completes completes' equal
      | set => cases same
    | set => cases same
  | @set e _ _ _ _ length found =>
    cases completedA with
    | matched left => cases left
    | @set _ xs _ related =>
      generalize hd' : Content.set e _ = d' at completedB
      cases completedB with
      | matched right =>
        subst hd'
        cases right
      | @set _ ys _ related' =>
        cases hd'
        rw [compareContents]
        split
        · rename_i known
          rw [Bool.and_eq_true] at known
          rw [isKnownFalse_bool, decide_eq_true, Bool.not_true]
          exact reflects.sets pa pb (elementsA e xs rfl known.1) (elementsB e ys rfl known.2)
            related related' length found
        · exact isKnownFalse_undecided
  | capsule =>
    cases completedA with
    | matched left => cases left

/-- What holds of parts holds of values. -/
theorem Reflects.step (reflects : Reflects heap p) :
    Reflects heap fun v => v.Formed ∧ ∀ w ∈ v.content.parts, p w := by
  rintro a b a' b' ⟨fa, pa⟩ ⟨fb, pb⟩ ha hb equal
  have sa := ha.sound fa.2
  have sb := hb.sound fb.2
  rw [equalsBare_eq]
  rcases cases_present a with ⟨t, r, ca⟩ | ⟨t, ca⟩ | presentA <;>
    rcases cases_present b with ⟨u, s, cb⟩ | ⟨u, cb⟩ | presentB
  · rw [equalsEarly?_unknowns ca cb]
    exact isKnownFalse_undecided
  · obtain ⟨type, meets⟩ := ha.of_unknown ca
    have known := isKnown_of_null cb
    rw [equalsEarly?_unknown_known ca known]
    exact reflects.equalsUnknown fb pb known hb type sa meets equal
  · obtain ⟨type, meets⟩ := ha.of_unknown ca
    rw [equalsEarly?_unknown_known ca presentB.1]
    exact reflects.equalsUnknown fb pb presentB.1 hb type sa meets equal
  · obtain ⟨type, meets⟩ := hb.of_unknown cb
    have known := isKnown_of_null ca
    rw [equalsEarly?_known_unknown known cb]
    exact reflects.equalsUnknown fa pa known ha type sb meets
      ((equalityLaws heap).equal_symm sa sb equal)
  · rw [equalsEarly?_nulls ca cb]
    rfl
  · rw [sa.equal_iff sb] at equal
    rcases equal with ⟨-, null⟩ | ⟨⟨definite, -, -⟩, -⟩
    · rw [(hb.present presentB).2] at null
      cases null
    · exact absurd (ha.null ca) definite.1.not_null
  · obtain ⟨type, meets⟩ := hb.of_unknown cb
    rw [equalsEarly?_known_unknown presentA.1 cb]
    exact reflects.equalsUnknown fa pa presentA.1 ha type sb meets
      ((equalityLaws heap).equal_symm sa sb equal)
  · rw [sa.equal_iff sb] at equal
    rcases equal with ⟨null, -⟩ | ⟨⟨-, definite, -⟩, -⟩
    · rw [(ha.present presentA).2] at null
      cases null
    · exact absurd (hb.null cb) definite.1.not_null
  · rw [sa.equal_iff sb] at equal
    obtain ⟨⟨-, -, same⟩, agree⟩ := equal.resolve_left fun null => by
      rw [(ha.present presentA).2] at null
      cases null.1
    have followsA := ha.follows fa.1
    have followsB := hb.follows fb.1
    rw [equalsEarly?_present presentA presentB]
    split
    · -- an open type and another one with a common instance conform to each other
      have conforms := followsA.1.conforms (same ▸ followsB.1) fa.1.here.1
      rw [conforms, Bool.true_or, if_pos rfl]
      exact isKnownFalse_undecided
    · rename_i closed
      simp only [Bool.or_eq_true, Bool.not_eq_true', not_or, Bool.not_eq_false] at closed
      have types : a.ty = b.ty := by
        rw [← followsA.2 closed.1, same, followsB.2 closed.2]
      rw [if_neg (not_not.2 types), Option.getD_none]
      exact reflects.contents fa fb pa pb ⟨presentA, closed.1⟩ ⟨presentB, closed.2⟩ ha hb agree

theorem Reflects.mono {q : Value → Prop} (reflects : Reflects heap p) (h : ∀ v, q v → p v) :
    Reflects heap q := fun _ _ _ _ ha hb => reflects (h _ ha) (h _ hb)

end

theorem reflects_upTo (n : Nat) : Reflects heap fun v => v.Formed ∧ v.height ≤ n := by
  induction n with
  | zero =>
    intro a _ _ _ ha
    have pos := a.height_pos
    omega
  | succ n ih =>
    refine ih.step.mono fun v hv => ⟨hv.1, fun w hw => ⟨hv.1.inside hw, ?_⟩⟩
    have lower := height_lt_of_mem_parts hw
    omega

/-- Values whose completions can be equal are not known to differ. -/
theorem reflects : Reflects heap Formed := fun a b _ _ ha hb =>
  reflects_upTo (max a.height b.height) ⟨ha, Nat.le_max_left ..⟩ ⟨hb, Nat.le_max_right ..⟩

/-! ## Completions of equal values -/

section

variable {a' b' : Value}

/-- Values that are known to be equal have no unknowns. -/
theorem isWhollyKnown_of_equal (ha : a.Sound .empty) (hb : b.Sound .empty) (h : Equal a b) :
    a.isWhollyKnown = true := by
  induction ha generalizing b with
  | @intro a here inside ih =>
    rw [Sound.equal_iff (.intro here inside) hb] at h
    rcases h with ⟨null, -⟩ | ⟨⟨definite, -, -⟩, agree⟩
    · obtain ⟨t, hc⟩ := isNull_iff.1 null
      rw [isWhollyKnown_iff, hc]
      exact ⟨isKnown_of_null hc, List.forall_mem_nil _⟩
    · refine isWhollyKnown_iff.2 ⟨definite.1.1, ?_⟩
      have sound := fun y hy => hb.inside (w := y) hy
      generalize a.content = c at agree ih
      generalize b.content = d at agree sound
      cases agree with
      | matched same =>
        intro x hx
        obtain ⟨y, hy, equal⟩ := (same.symm fun _ _ _ _ equal => equal).exists_left hx
        exact ih x hx (sound y hy) equal
      | set known => exact allWhollyKnown_iff.1 known
      | capsule => exact List.forall_mem_nil _

/-- The completion of a wholly known value with no open part of its type leaves none open. -/
theorem Completes.hasWhollyKnownType (ha : a.Formed) (known : a.isWhollyKnown = true)
    (closed : a.hasWhollyKnownType = true) (h : Completes heap Ty.Instantiates a a') :
    a'.hasWhollyKnownType = true := by
  induction a using Value.induction generalizing a' with
  | step a ih =>
    have parts {x x' : Value} (hx : x ∈ a.content.parts) (hx' : Completes heap Ty.Instantiates x x') :
        x'.hasWhollyKnownType = true :=
      ih x hx (ha.inside hx) ((isWhollyKnown_iff.1 known).2 x hx)
        (hasWhollyKnownType_of_mem_parts closed hx) hx'
    rcases cases_present a with ⟨t, r, hc⟩ | ⟨t, hc⟩ | present
    · rw [isWhollyKnown_iff, isKnown_iff.2 ⟨t, r, hc⟩] at known
      cases known.1
    · rwa [hasWhollyKnownType_of_content ((h.null hc).trans hc.symm)]
    · have present' := h.present present
      refine hasWhollyKnownType_of_parts present'.1 present'.2 fun y hy => ?_
      have completed := h.completed ha.1 ha.2 ⟨present, closed⟩
      generalize a.content = c at completed parts
      generalize a'.content = c' at completed hy
      cases completed with
      | matched same =>
        obtain ⟨x, hx, completes⟩ := same.exists_left hy
        exact parts hx completes
      | set related =>
        obtain ⟨x', hx', rfl⟩ := List.mem_map.1 (RuleSet.mem_of_mem_ofList hy)
        obtain ⟨x, hx, completes⟩ := exists_left_of_forall₂ related hx'
        rw [(isWhollyKnown_unmarkDeep x').2]
        exact parts hx completes

/-- Completions of sets with the same elements have the same elements. -/
theorem agree_sets {e : Ty} {xs ys xs' ys' : List Value} (hx : Elements xs) (hy : Elements ys)
    (related : List.Forall₂ (Completes heap Ty.Instantiates) xs xs')
    (related' : List.Forall₂ (Completes heap Ty.Instantiates) ys ys')
    (length : xs.length = ys.length) (found : ∀ x ∈ xs, ∃ y ∈ ys, Merged x y)
    (ih : ∀ x ∈ xs, ∀ y ∈ ys, ∀ x' y', Equal x y → Completes heap Ty.Instantiates x x' →
      Completes heap Ty.Instantiates y y' → Equal x' y') :
    Content.Agree (.set e (RuleSet.ofList (ValueRules.mk e) (xs'.map unmarkDeep)).values)
      (.set e (RuleSet.ofList (ValueRules.mk e) (ys'.map unmarkDeep)).values) := by
  have keptX := reflects.kept (e := e) hx.formed hx related
  have keptY := reflects.kept (e := e) hy.formed hy related'
  have known {vs vs' zs : List Value} (related : List.Forall₂ (Completes heap Ty.Instantiates) vs vs')
      (kept : zs.Perm (vs'.map unmarkDeep)) : allWhollyKnown zs = true := by
    refine allWhollyKnown_iff.2 fun z hz => ?_
    obtain ⟨v', hv', rfl⟩ := List.mem_map.1 (kept.mem_iff.1 hz)
    obtain ⟨v, -, completes⟩ := exists_left_of_forall₂ related hv'
    rw [(isWhollyKnown_unmarkDeep v').1, completes.isWhollyKnown]
  refine .set (known related keptX) (known related' keptY) ?_ fun z hz => ?_
  · rw [keptX.length_eq, keptY.length_eq, List.length_map, List.length_map, ← related.length_eq,
      ← related'.length_eq, length]
  · obtain ⟨x', hx', rfl⟩ := List.mem_map.1 (keptX.mem_iff.1 hz)
    obtain ⟨x, hxs, completes⟩ := exists_left_of_forall₂ related hx'
    obtain ⟨y, hys, merged⟩ := found x hxs
    obtain ⟨y', hy', completes'⟩ := exists_right_of_forall₂ related' hys
    refine ⟨y'.unmarkDeep, keptY.mem_iff.2 (List.mem_map_of_mem hy'), ?_⟩
    refine (equalityLaws heap).merged_of_equal (completes.sound (hx.formed x hxs).2).unmarkDeep
      (completes'.sound (hy.formed y hys).2).unmarkDeep ?_
    exact equal_unmarkDeep.2 (ih x hxs y hys x' y' merged.2 completes completes')

theorem agree_of_completed {c d c' d' : Content} (hc : Completed heap c c') (hd : Completed heap d d')
    (elementsC : ∀ e xs, c = .set e xs → allWhollyKnown xs = true → Elements xs)
    (elementsD : ∀ e ys, d = .set e ys → allWhollyKnown ys = true → Elements ys)
    (ih : ∀ x ∈ c.parts, ∀ y ∈ d.parts, ∀ x' y', Equal x y → Completes heap Ty.Instantiates x x' →
      Completes heap Ty.Instantiates y y' → Equal x' y')
    (agree : c.Agree d) : c'.Agree d' := by
  cases agree with
  | matched same =>
    cases hc with
    | matched left =>
      cases hd with
      | matched right =>
        have left : c'.Matched
            (fun x' y => ∃ x ∈ c.parts, Completes heap Ty.Instantiates x x' ∧ Equal x y) d :=
          (left.symm fun x hx x' _ completes => And.intro hx completes).trans same
            fun x' _ x _ y _ completes equal => ⟨x, completes.1, completes.2, equal⟩
        refine .matched (left.trans right ?_)
        rintro x' - y hy y' - ⟨x, hx, completes, equal⟩ completes'
        exact ih x hx y hy x' y' equal completes completes'
      | set => cases same
    | set => cases same
  | @set e xs ys knownX knownY length found =>
    cases hc with
    | matched left => cases left
    | set related =>
      cases hd with
      | matched right => cases right
      | set related' =>
        exact agree_sets (elementsC e xs rfl knownX) (elementsD e ys rfl knownY) related related'
          length found ih
  | capsule =>
    cases hc with
    | matched left => cases left

/-- The completions of values that are known to be equal are equal. -/
theorem equal_of_completes (ha : a.Formed) (hb : b.Formed) (h : Equal a b)
    (ha' : Completes heap Ty.Instantiates a a') (hb' : Completes heap Ty.Instantiates b b') :
    Equal a' b' := by
  induction a using Value.induction generalizing b a' b' with
  | step a ih =>
    have knownA := isWhollyKnown_of_equal ha.2 hb.2 h
    have knownB := isWhollyKnown_of_equal hb.2 ha.2 ((equalityLaws .empty).equal_symm ha.2 hb.2 h)
    rw [ha.2.equal_iff hb.2] at h
    rw [(ha'.sound ha.2).equal_iff (hb'.sound hb.2)]
    rcases h with ⟨nullA, nullB⟩ | ⟨⟨da, db, types⟩, agree⟩
    · obtain ⟨t, hta⟩ := isNull_iff.1 nullA
      obtain ⟨u, hub⟩ := isNull_iff.1 nullB
      exact .inl ⟨isNull_iff.2 ⟨t, ha'.null hta⟩, isNull_iff.2 ⟨u, hb'.null hub⟩⟩
    · have closedA := ha'.hasWhollyKnownType ha knownA da.2
      have closedB := hb'.hasWhollyKnownType hb knownB db.2
      refine .inr ⟨⟨⟨ha'.present da.1, closedA⟩, ⟨hb'.present db.1, closedB⟩, ?_⟩, ?_⟩
      · rw [(ha'.follows ha.1).2 da.2, types, (hb'.follows hb.1).2 db.2]
      · exact agree_of_completed (ha'.completed ha.1 ha.2 da) (hb'.completed hb.1 hb.2 db)
          (fun e xs => ha.elements da.2) (fun e ys => hb.elements db.2)
          (fun x hx y hy x' y' => ih x hx (ha.inside hx) (hb.inside hy)) agree

/-! ## Known answers -/

/-- A known answer stays when the unknowns are replaced. -/
theorem equals_completions {r : Bool} (ha : a.Formed) (hb : b.Formed)
    (ha' : Completes heap Ty.Instantiates a a') (hb' : Completes heap Ty.Instantiates b b')
    (h : (a.equals b).content = .bool r) : (a'.equals b').content ≠ .bool (!r) := by
  have answer := (equalityLaws .empty).answer ha.2 hb.2
  have answer' := (equalityLaws heap).answer (ha'.sound ha.2) (hb'.sound hb.2)
  rw [content_equals, ← answer.isKnownBool_iff] at h
  rw [content_equals, Ne, ← answer'.isKnownBool_iff]
  cases r with
  | false =>
    intro opposite
    have possible := reflects ha hb ha' hb' opposite
    rw [isKnownFalse, h] at possible
    cases possible
  | true =>
    have same : Equal a' b' := equal_of_completes ha hb h ha' hb'
    rw [Bool.not_eq_true]
    exact not_isKnownFalse_of_isKnownTrue same

end

end

/-! ### A number that is too small, and types that conform only as an open part does -/

/-- A list of the number 1 and another number. -/
def pair (v : Value) : Value :=
  bare (.list .number [number (.ofInt 1), v])

section

variable [Host] {heap : Heap} {v w : Value}

theorem formed_pair (typed : v.ty = .number) (within : v.Within .all) (sound : v.Sound .empty) :
    (pair v).Formed := by
  refine formed_of_within (.list ?_ ?_ ?_) (.intro trivial ?_)
  · exact (Ty.everywhere_leaf rfl).2 (Scope.closed_upTo _).structural.number
  · exact List.forall_mem_cons.2 ⟨rfl, List.forall_mem_singleton.2 typed⟩
  · exact List.forall_mem_cons.2 ⟨.number trivial, List.forall_mem_singleton.2 within⟩
  · exact List.forall_mem_cons.2
      ⟨.intro trivial (List.forall_mem_nil _), List.forall_mem_singleton.2 sound⟩

theorem completes_pair {fits : Ty → Ty → Prop} (typed : w.ty = .number)
    (h : Completes heap fits v w) : Completes heap fits (pair v) (pair w) := by
  have one : Completes heap fits (number (.ofInt 1)) (number (.ofInt 1)) := .plain rfl rfl rfl
  have common : commonType? [number (.ofInt 1), w] = some .number := by
    simp [commonType?, types, typed, number, bare, ty, commonTypeFrom?]
  have made : list [number (.ofInt 1), w] = .ok (pair w) := by
    rw [list_of_common (by simp) common, map_conformTo_of_ty]
    · rfl
    · exact List.forall_mem_cons.2 ⟨rfl, List.forall_mem_singleton.2 typed⟩
  have related : List.Forall₂ (Completes heap fits) [number (.ofInt 1), v] [number (.ofInt 1), w] :=
    .cons one (.cons h .nil)
  exact .list rfl related.length_eq (fun _ _ _ => getElem?_of_forall₂ related) made rfl

end

/-- A number that is 5 or more is not 3, and neither is 7. -/
theorem equals_completions_pair :
    letI := Host.plain
    let atLeastFive := refined .number { lower := ⟨.ofInt 5, true⟩ }
    (pair atLeastFive).Formed ∧ (pair (number (.ofInt 3))).Formed ∧
      Completes .empty Ty.Instantiates (pair atLeastFive) (pair (number (.ofInt 7))) ∧
      ((pair atLeastFive).equals (pair (number (.ofInt 3)))).content = .bool false ∧
      ((pair (number (.ofInt 7))).equals (pair (number (.ofInt 3)))).content ≠ .bool true := by
  let := Host.plain
  have left : (pair (refined .number { lower := ⟨.ofInt 5, true⟩ })).Formed :=
    formed_pair (by simp only [refined, bare, ty])
      (.unknown ((Ty.everywhere_leaf rfl).2 (Scope.closed_upTo _).structural.number)
        ⟨by simp, Nat.zero_le _⟩ (Nat.zero_le _))
      (.intro trivial (List.forall_mem_nil _))
  have right : (pair (number (.ofInt 3))).Formed :=
    formed_pair (by simp only [number, bare, ty]) (.number trivial)
      (.intro trivial (List.forall_mem_nil _))
  have known : (number (.ofInt 7)).Sound .empty := .intro trivial (List.forall_mem_nil _)
  have filled : Completes .empty Ty.Instantiates
      (pair (refined .number { lower := ⟨.ofInt 5, true⟩ })) (pair (number (.ofInt 7))) :=
    completes_pair (by simp only [number, bare, ty])
      (.unknown rfl rfl known .number ⟨by simp, by decide, by decide⟩)
  have kept : Completes .empty Ty.Instantiates (pair (number (.ofInt 3)))
      (pair (number (.ofInt 3))) :=
    completes_pair (by simp only [number, bare, ty]) (.plain rfl rfl rfl)
  have answer : ((pair (refined .number { lower := ⟨.ofInt 5, true⟩ })).equals
      (pair (number (.ofInt 3)))).content = .bool false := by cbv
  exact ⟨left, right, filled, answer, equals_completions left right filled kept answer⟩

/-- A tuple of one unknown list. -/
def unknownList (e : Ty) : Value :=
  tuple [unknown (.list e)]

theorem ty_unknownList (e : Ty) : (unknownList e).ty = .tuple [.list e] := by
  simp only [unknownList, tuple, unknown, refined, bare, ty, types]

theorem formed_unknownList [Host] {e : Ty} (he : e.Everywhere Scope.all.types) :
    (unknownList e).Formed := by
  have closed := Scope.closed_upTo Refining.lengthLimit
  have one : 1 ≤ Refining.lengthLimit := by decide
  refine formed_of_within (.tuple ⟨⟨Names.proper_nil, by simp⟩, one⟩ ?_) (.intro trivial ?_)
  · exact List.forall_mem_singleton.2
      (.unknown (Ty.everywhere_list.2 ⟨closed.structural.list e, he⟩)
        Refinement.coherent_unconstrained (Nat.zero_le _))
  · exact List.forall_mem_singleton.2 (.intro trivial (List.forall_mem_nil _))

/-- An empty list of a dynamic type conforms to lists of strings and to lists of numbers, which are
known to differ. -/
theorem equals_conforming :
    ¬ ∀ (_ : Host) (heap : Heap) (a b a' b' : Value) (r : Bool), a.Formed → b.Formed →
      a.ty.OptionalFree → b.ty.OptionalFree →
      Completes heap (fun s t => s.conforms t = true) a a' →
      Completes heap (fun s t => s.conforms t = true) b b' →
      (a.equals b).content = .bool r → (a'.equals b').content ≠ .bool (!r) := by
  intro claim
  let := Host.plain
  have required {e : Ty} (he : e.OptionalFree) : (unknownList e).ty.OptionalFree := by
    rw [ty_unknownList]
    exact Ty.everywhere_tuple.2
      ⟨rfl, List.forall_mem_singleton.2 (Ty.everywhere_list.2 ⟨rfl, he⟩)⟩
  have sound : (emptyList .dynamic).Sound .empty := .intro trivial (List.forall_mem_nil _)
  have completes (e : Ty) : Completes .empty (fun s t => s.conforms t = true)
      (unknownList e) (tuple [emptyList .dynamic]) := by
    have part : Completes .empty (fun s t => s.conforms t = true) (unknown (.list e))
        (emptyList .dynamic) := by
      refine .unknown rfl rfl sound ?_ ⟨by simp [Refinement.unconstrained], Nat.zero_le _, by simp⟩
      simp only [emptyList, bare, ty, Ty.conforms]
    have related := List.Forall₂.cons part .nil
    exact .tuple rfl related.length_eq (fun _ _ _ => getElem?_of_forall₂ related) rfl
  have structural := (Scope.closed_upTo Refining.lengthLimit).structural
  refine claim _ .empty (unknownList .string) (unknownList .number) _ _ false
    (formed_unknownList ((Ty.everywhere_leaf rfl).2 structural.string))
    (formed_unknownList ((Ty.everywhere_leaf rfl).2 structural.number))
    (required ((Ty.everywhere_leaf rfl).2 rfl)) (required ((Ty.everywhere_leaf rfl).2 rfl))
    (completes _) (completes _) ?_ ?_
  · cbv
  · cbv

end Value

end ValueAlgebra
