import ValueAlgebra.Proofs.Failures
import ValueAlgebra.Proofs.OpenElements

/-!
# Safe conversions

A conversion that is safe by the types of a value and a target may still fail: the elements of a
collection may end up with different types, or a variant with another type than its union asks for.
Neither happens for targets that fix the types of all elements and attributes. Targets that leave an
element type open fail for some value, so no other targets are free of failures.

Main statements:

* `Conversion.safe_run_error`: how safe conversions fail.
* `Conversion.safe_runs`: for which targets they never do.
-/

namespace ValueAlgebra

open Entries Text Refining

namespace Conversion

section

variable [Host] {t : Ty} {v : Value} {c : Conversion} {path : Path} {site : List Nat} {e : Failure}

/-- Safe conversions of some values to a target succeed. -/
def NeverFails (among : Value → Prop) (t : Ty) : Prop :=
  ∀ v c path site, among v → plan? .safe v.ty t = some c → ∃ w, c.run v path site = .ok w

/-- How safe conversions fail. Nothing but a lack of room is in the way of steady ones. -/
theorem safe_run_error (steady : Prop) {S : Scope} (hS : S.Closed) (hd : S.deep)
    (limit : ∀ n, S.lengths n → n ≤ lengthLimit) (ht : Ty.Aims S.types t) (hv : v.Within S)
    (hst : steady → Steady S .safe v.ty t) (hp : plan? .safe v.ty t = some c)
    (h : c.run v path site = .error e) :
    (¬ steady ∧ ((∃ path kind, e = .path ⟨path, .elementsDiffer kind⟩) ∨
      ∃ name wanted got, e = .fault (.variantMismatch name wanted got) ∧ wanted.NearMiss got)) ∨
    (e = .fault .capacityOverflow ∧ ∃ n, S.lengths n ∧ listCapacity < n) := by
  have excused := run_error hS (by intro h; cases h) hd limit
    ⟨hv.fitted hS, .planned hp, ht, hst⟩ h
  cases excused with
  | complaint lenient | exponent lenient => cases lenient
  | elements hs path kind => exact .inl ⟨hs, .inl ⟨path, kind, rfl⟩⟩
  | variant hs name miss => exact .inl ⟨hs, .inr ⟨name, _, _, rfl, miss⟩⟩
  | capacity hn big => exact .inr ⟨rfl, _, hn, big⟩

theorem neverFails_of_steady {S : Scope} (hS : S.Closed) (hd : S.deep)
    (limit : ∀ n, S.lengths n → n ≤ listCapacity) (ht : Ty.Aims S.types t) {among : Value → Prop}
    (hm : ∀ v, among v → v.Within S ∧ Steady S .safe v.ty t) : NeverFails among t := by
  intro v c path site hv hp
  obtain ⟨within, steady⟩ := hm v hv
  cases h : c.run v path site with
  | ok w => exact ⟨w, rfl⟩
  | error e =>
    have fits (n : Nat) (hn : S.lengths n) : n ≤ lengthLimit :=
      Nat.le_trans (limit n hn) (by decide)
    rcases safe_run_error True hS hd fits ht within (fun _ => steady) hp h with
      ⟨shaky, -⟩ | ⟨-, n, hn, big⟩
    · exact absurd trivial shaky
    · exact absurd (limit n hn) (Nat.not_le_of_lt big)

/-- Conversions that never fail are conversions to settled targets. -/
theorem settled_of_neverFails {whole : Prop} {among : Value → Prop}
    (ht : t.Everywhere Scope.plain.types)
    (hm : ∀ v, v.Within .plain → (whole → v.ty.hasDynamic = false) → among v)
    (h : NeverFails among t) : t.Settled whole := by
  by_contra hs
  obtain ⟨v, c, stuck⟩ := exists_stuck ht hs
  obtain ⟨w, hr⟩ := h v c .root [] (hm v stuck.within stuck.closed) stuck.planned
  exact stuck.fails _ _ w hr

/-- A safe conversion fails only because elements differ in type, a variant gets a type with optional
attributes that it does not ask for or a list lacks room. Values without optional attributes and dynamic types are
converted to each target whose element types leave nothing open or are open altogether. Targets
without optional attributes never fail just if their element types leave nothing open. -/
theorem safe_runs (ht : t.Everywhere Scope.ample.types) :
    (∀ v c path site e, v.Within .all → plan? .safe v.ty t = some c →
      c.run v path site = .error e → (∃ path kind, e = .path ⟨path, .elementsDiffer kind⟩) ∨
        (∃ name wanted got, e = .fault (.variantMismatch name wanted got) ∧ wanted.NearMiss got) ∨
        (e = .fault .capacityOverflow ∧ ¬ v.Within .ample)) ∧
    (Ty.Aims Scope.plain.types t → t.Settled True →
      NeverFails (fun v => v.Within .plain ∧ v.ty.hasDynamic = false) t) ∧
    (t.OptionalFree →
      (NeverFails (fun v => v.Within .ample) t ↔ t.Settled False) ∧
      (NeverFails (fun v => v.Within .plain ∧ v.ty.hasDynamic = false) t ↔ t.Settled True)) := by
  have ample := Scope.closed_upTo listCapacity
  have plain := Scope.closed_plain
  have aims : Ty.Aims Scope.ample.types t := .ofEverywhere ample.structural ht
  have ofPlain (aims : Ty.Aims Scope.plain.types t) (hs : t.Settled True) :
      NeverFails (fun v => v.Within .plain ∧ v.ty.hasDynamic = false) t :=
    neverFails_of_steady plain trivial (fun _ h => h) aims fun v hv => ⟨hv.1,
      .plain (fun _ h => h.2) (hs.mono fun u hu e he => (hu e he).imp_right fun h => ⟨hv.2, h.2⟩)⟩
  refine ⟨fun v c path site e hv hp h => ?_, ofPlain, fun free => ?_⟩
  · have wide : Ty.Aims Scope.all.types t :=
      aims.mono fun u hu => ⟨hu.1, Nat.le_trans hu.2 (by decide)⟩
    rcases safe_run_error False (Scope.closed_upTo _) trivial (fun _ h => h) wide hv
      (by simp) hp h with ⟨-, differ | misfit⟩ | ⟨rfl, -⟩
    · exact .inl differ
    · exact .inr (.inl misfit)
    · refine .inr (.inr ⟨rfl, fun within => ?_⟩)
      rcases safe_run_error False ample trivial
        (fun n hn => Nat.le_trans hn (by decide)) aims within (by simp) hp h with
        ⟨-, ⟨_, _, eq⟩ | ⟨_, _, _, eq, -⟩⟩ | ⟨-, n, hn, big⟩
      · cases eq
      · cases eq
      · exact absurd hn (Nat.not_le_of_lt big)
  · have ht : t.Everywhere Scope.plain.types := Ty.Everywhere.and ht free
    refine ⟨⟨settled_of_neverFails ht fun v hv _ => ?_, fun hs => ?_⟩,
      settled_of_neverFails ht fun v hv closed => ⟨hv, closed trivial⟩,
      ofPlain (.ofEverywhere plain.structural ht)⟩
    · exact hv.mono (fun _ h => h.1) (fun _ h => h) (fun _ h => h) fun h => h
    · exact neverFails_of_steady ample trivial (fun _ h => h) aims
        fun v hv => ⟨hv, .firm free hs⟩

end

theorem safe_runs_strings :
    letI := Host.plain
    (Ty.list .string).Everywhere Scope.ample.types ∧ (Ty.list .string).OptionalFree ∧
      NeverFails (fun v => v.Within .ample) (.list .string) := by
  let := Host.plain
  have strings {p : Ty → Prop} (hp : Ty.Structural p) : (Ty.list .string).Everywhere p :=
    Ty.everywhere_list.2 ⟨hp.list _, (Ty.everywhere_leaf rfl).2 hp.string⟩
  have ample := strings (Scope.closed_upTo listCapacity).structural
  have free := strings Ty.structural_optionalNames
  exact ⟨ample, free, (((safe_runs ample).2.2 free).1).2 (Ty.settled_of_hasDynamic rfl)⟩

/-- A list of lists, of which one has an element and one has none. -/
def lopsided : Value :=
  .bare (.list (.list (.list .bool))
    [.emptyList (.list .bool), .bare (.list (.list .bool) [.bare (.list .bool [.bool true])])])

theorem within_lopsided : lopsided.Within .ample := by
  have hp := (Scope.closed_upTo listCapacity).structural
  have bool : Ty.bool.Everywhere Scope.ample.types := (Ty.everywhere_leaf rfl).2 hp.bool
  have bools := Ty.everywhere_list.2 ⟨hp.list .bool, bool⟩
  have inner : (Value.bare (.list .bool [.bool true])).Within .ample :=
    .list bool (by simp [Value.bool, Value.bare, Value.ty]) (by simpa using .bool)
  have outer : (Value.bare (.list (.list .bool) [.bare (.list .bool [.bool true])])).Within .ample :=
    .list bools (by simp [Value.bare, Value.ty]) (by simpa using inner)
  refine .list (Ty.everywhere_list.2 ⟨hp.list _, bools⟩)
    (by simp [Value.emptyList, Value.bare, Value.ty]) ?_
  simpa using ⟨.list bools (by simp) (by simp), outer⟩

/-- The lists end up with different element types. -/
theorem safe_run_fails :
    ¬ ∀ (_ : Host) (t : Ty) (v : Value) (c : Conversion) (path : Path) (site : List Nat),
      t.WellFormed → v.Within .ample → plan? .safe v.ty t = some c →
      ∃ w, c.run v path site = .ok w := by
  intro claim
  let := Host.plain
  have nested {e : Ty} (he : e.WellFormed) : (Ty.list e).WellFormed :=
    Ty.everywhere_list.2 ⟨⟨Names.proper_nil, by simp⟩, he⟩
  have hw : (Ty.list (.list (.list .dynamic))).WellFormed :=
    nested (nested (nested ((Ty.everywhere_leaf rfl).2 ⟨Names.proper_nil, by simp⟩)))
  have failed : (plan? .safe lopsided.ty (.list (.list (.list .dynamic)))).map
      (fun c => (c.run lopsided .root []).isOk) = some false := by
    cbv
  obtain ⟨c, hc, failed⟩ := Option.map_eq_some_iff.1 failed
  obtain ⟨w, hr⟩ := claim _ _ _ c .root [] hw within_lopsided hc
  rw [hr] at failed
  cases failed

end Conversion

end ValueAlgebra
