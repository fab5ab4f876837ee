import ValueAlgebra.Proofs.Results

/-!
# Steady targets

A value of a union has to have exactly the type that the variant asks for, and the elements of a
collection one type. Conversions make sure of that as they go, but the type of a result may differ
from the target in its optional attributes and in what its dynamic parts are filled with. A target
is steady for a scope if neither happens: then all results that come together in one collection
have one type, and what a variant gets fits.

Main statements:

* `Lands.ty_eq`: the type of a result for an exact target.
* `Steady.part`: the conversions of parts are steady, too.
-/

namespace ValueAlgebra

open Entries Text

namespace Ty

/-- The element types inside of a type have no dynamic part. If `whole` they may be `dynamic`. -/
def Settled (whole : Prop) (t : Ty) : Prop :=
  t.Everywhere fun u => ∀ e, u.element? = some e → e.hasDynamic = false ∨ (whole ∧ e = .dynamic)

theorem Settled.element {whole : Prop} {t e : Ty} (h : t.Settled whole) (he : t.element? = some e) :
    e.hasDynamic = false ∨ (whole ∧ e = .dynamic) :=
  h.here e he

/-- A type without dynamic parts is settled. -/
theorem settled_of_hasDynamic {whole : Prop} {t : Ty} (h : t.hasDynamic = false) :
    t.Settled whole := by
  have everywhere := hasDynamic_eq_false_iff.1 h
  induction everywhere with
  | @intro t _ _ ih =>
    have inside := (hasDynamic_eq_false_step.1 h).2
    refine .intro (fun e he => .inl (inside e ?_)) fun s hs => ih s hs (inside s hs)
    cases t <;> cases he <;> exact List.mem_cons_self

end Ty

/-- Results for a target have a type that the target fixes: no value in the scope has an optional
attribute, or the target has none. -/
def Scope.Exact (S : Scope) (t : Ty) : Prop :=
  (∀ t, S.types t → t.optionalNames = []) ∨ t.OptionalFree

variable {S : Scope} {mode : Mode}

theorem Lands.ty_eq (hS : S.Closed) {t : Ty} {n : Nat} {w : Value} (h : Lands S t n w)
    (ht : S.Exact t) (hd : t.hasDynamic = false) : w.ty = t.withoutOptional := by
  rcases ht with plain | free
  · have : w.ty.OptionalFree := (h.within.ty hS).mono plain
    rw [← this.withoutOptional_eq, h.fills.withoutOptional_eq hd]
  · rw [h.fills.eq_of_optionalFree hd free, free.withoutOptional_eq]

/-- What lands on a target that fixes its type fits it as a variant. -/
theorem Lands.fits (hS : S.Closed) {t : Ty} {n : Nat} {w : Value} (h : Lands S t n w)
    (ht : S.Exact t) : w.Fits t := by
  unfold Value.Fits
  split
  · exact h.fills.conforms
  · rename_i hd
    exact beq_iff_eq.2 (h.ty_eq hS ht (by simpa using hd))

/-- The conversions from one type to another that make what variants ask for. Plain and firm ones
need no second pass over elements. Loose ones may need one, which succeeds or complains. -/
inductive Steady (S : Scope) (mode : Mode) (s t : Ty) : Prop where
  | plain (hp : ∀ t, S.types t → t.optionalNames = []) (hs : t.Settled (s.hasDynamic = false))
  | firm (ho : t.OptionalFree) (hs : t.Settled False)
  | loose (hm : mode = .lenient) (hv : ∀ t, S.types t → t.VariantsRequired)

namespace Steady

variable {s t : Ty}

/-- The conversions of parts are steady. -/
theorem part {s' t' : Ty} (h : Steady S mode s t) (ht : t' ∈ t.components)
    (hs : s.hasDynamic = false → s'.hasDynamic = false) : Steady S mode s' t' := by
  cases h with
  | plain hp hd =>
    refine .plain hp ((hd.inside ht).mono fun u hu e he => ?_)
    exact (hu e he).imp_right fun h => ⟨hs h.1, h.2⟩
  | firm ho hf => exact .firm (ho.inside ht) (hf.inside ht)
  | loose hm hv => exact .loose hm hv

/-- Where conversions from an open type are steady, so are those from all types. -/
theorem ofDynamic (h : Steady S mode .dynamic t) (s : Ty) : Steady S mode s t := by
  cases h with
  | plain hp hd =>
    exact .plain hp (hd.mono fun u hu e he => (hu e he).imp_right fun h => by cases h.1)
  | firm ho hf => exact .firm ho hf
  | loose hm hv => exact .loose hm hv

/-- What variants ask for is fixed. -/
theorem variant {targets : List (String × Ty)} (h : Steady S mode s (.union targets))
    (ha : Ty.Aims S.types (.union targets)) (ht : t ∈ values targets) : S.Exact t := by
  cases h with
  | plain hp => exact .inl hp
  | firm ho => exact .inr (ho.inside ht)
  | loose _ hv => exact .inr (hv _ ha.union.here _ rfl t ht)

/-- What a steady conversion wants of elements: a type without dynamic parts, or any type of a
source that leaves nothing open. Otherwise there may be a second pass. -/
theorem element {e : Ty} (h : Steady S mode s t) (he : t.element? = some e) :
    (e.hasDynamic = false ∧ S.Exact e) ∨
      ((∀ t, S.types t → t.optionalNames = []) ∧ e = .dynamic ∧ s.hasDynamic = false) ∨
      (mode = .lenient ∧ ∀ t, S.types t → t.VariantsRequired) := by
  cases h with
  | plain hp hd =>
    rcases hd.element he with hd | ⟨hs, hd⟩
    · exact .inl ⟨hd, .inl hp⟩
    · exact .inr (.inl ⟨hp, hd, hs⟩)
  | firm ho hf =>
    refine .inl ⟨(hf.element he).resolve_right And.left, .inr (ho.inside ?_)⟩
    cases t <;> cases he <;> exact List.mem_cons_self
  | loose hm hv => exact .inr (.inr ⟨hm, hv⟩)

/-- Parts of a structure that are gathered in a collection are converted steadily, into one type
unless there may be a second pass. -/
theorem gathers [Host] {sources : List Ty} {wanted e : Ty} {kind : CollectionKind}
    (h : Steady S mode s (kind.type wanted)) (he : Rule.Gathers mode sources wanted e)
    (hne : sources ≠ [])
    (hs : s.hasDynamic = false → ∀ u ∈ sources, u.hasDynamic = false) :
    (∀ u ∈ sources, Steady S mode u e) ∧ ((e.hasDynamic = false ∧ S.Exact e) ∨
      (mode = .lenient ∧ ∀ t, S.types t → t.VariantsRequired)) := by
  have hw : (kind.type wanted).element? = some wanted := by cases kind <;> rfl
  have hc : wanted ∈ (kind.type wanted).components := by cases kind <;> exact List.mem_cons_self
  cases he with
  | wanted closed =>
    refine ⟨fun u hu => h.part hc fun hd => hs hd u hu, ?_⟩
    rcases h.element hw with exact_ | ⟨-, open_, -⟩ | loose
    · exact .inl exact_
    · exact absurd open_ (closed.resolve_right hne)
    · exact .inr loose
  | @common u _ hu =>
    rcases h.element hw with ⟨closed, -⟩ | ⟨plain, -, hd⟩ | loose
    · cases closed
    · have target : u.target.hasDynamic = false := by
        refine Ty.hasDynamic_eq_false_iff.2 ((Unification.common_target hu).everywhere
          Ty.structural_ne_dynamic (fun eq => absurd eq hne) fun u hu => ?_)
        exact Ty.hasDynamic_eq_false_iff.1 (hs hd u hu)
      exact ⟨fun _ _ => .plain plain (Ty.settled_of_hasDynamic target), .inl ⟨target, .inl plain⟩⟩
    · exact ⟨fun _ _ => .loose loose.1 loose.2, .inr loose⟩

end Steady

end ValueAlgebra
