import ValueAlgebra.Proofs.UnknownResults

/-!
# Landing on a target

A value lands on a target if it is within a scope, its type fills the target, with every dynamic
part of the target filled in, and in a deep scope it is not higher than the value that it was made
of. Where parts land on their targets, so do the collections and objects that are made of them.

Elements that are converted a second time land on what their types have in common. This fills the
wanted element type, since all of them do.

Main statements:

* `homogenize_lands`: elements that are converted a second time.
* `convertItems_lands`, `convertEntries_lands`: collections.
* `object_lands`: objects.
-/

namespace ValueAlgebra

open Entries Text

variable {S : Scope} {mode : Mode}

/-! ## Landing on a target -/

/-- A result that is within a scope, whose type fills a target and which is not higher than the
value that it was made of. -/
structure Lands (S : Scope) (t : Ty) (n : Nat) (w : Value) : Prop where
  within : w.Within S
  fills : w.ty.Fills t
  height : S.deep → w.height ≤ n

theorem Lands.mono {t : Ty} {m n : Nat} {w : Value} (h : Lands S t m w) (hn : m ≤ n) :
    Lands S t n w :=
  ⟨h.within, h.fills, fun hd => Nat.le_trans (h.height hd) hn⟩

theorem Lands.withMarks {t : Ty} {n : Nat} {w : Value} (h : Lands S t n w) (marks : MarkSet) :
    Lands S t n (w.withMarks marks) :=
  ⟨h.within.withMarks marks, by rw [Value.ty_withMarks]; exact h.fills,
    by rw [Value.height_withMarks]; exact h.height⟩

theorem Lands.collection_mono {kind : CollectionKind} {e wanted : Ty} {n : Nat} {w : Value}
    (h : Lands S (kind.type e) n w) (hf : ∀ {a : Ty}, a.Fills e → a.Fills wanted) :
    Lands S (kind.type wanted) n w := by
  refine ⟨h.within, ?_, h.height⟩
  have fills := h.fills
  generalize w.ty = a at fills ⊢
  cases kind
  all_goals
    simp only [CollectionKind.type] at fills ⊢
    cases fills
    constructor
    exact hf ‹_›

/-- The values of a list land on one target. -/
def LandAll (S : Scope) (t : Ty) (n : Nat) (vs : List Value) : Prop :=
  ∀ v ∈ vs, Lands S t n v

theorem LandAll.conformed (hS : S.Closed) {t e : Ty} {n : Nat} {vs : List Value}
    (h : LandAll S t n vs) (hne : vs ≠ []) (hc : Value.commonType? vs = some e) :
    Value.Conformed S e n (vs.map (Value.conformTo e)) ∧ e.Fills t := by
  refine ⟨Value.conformed hS hne hc (fun v hv => (h v hv).within)
    fun hd v hv => (h v hv).height hd, ?_⟩
  obtain ⟨v, hv, rfl⟩ := Value.exists_of_commonType? hc hne
  exact (h v hv).fills

/-- An empty collection of a wanted type, or of the type of a source where that is open. -/
theorem lands_emptyCollection {wanted source : Ty} {kind : CollectionKind} {n : Nat}
    (hw : Ty.Aims S.types wanted) (hwf : wanted.WellFormed) (hs : source.Everywhere S.types)
    (hn : 2 ≤ n) : Lands S (kind.type wanted) n (emptyCollection kind wanted source) := by
  have he : (if wanted = .dynamic then source else wanted.withoutOptional).Everywhere S.types := by
    split
    · exact hs
    · exact hw.withoutOptional
  have hf : (if wanted = .dynamic then source else wanted.withoutOptional).Fills wanted := by
    split
    · rename_i hd
      exact hd ▸ .dynamic _
    · exact .withoutOptional hwf
  unfold emptyCollection
  generalize (if wanted = .dynamic then source else wanted.withoutOptional) = e at he hf ⊢
  cases kind
  · refine ⟨.list he (by simp) (by simp), ?_, fun _ => ?_⟩
    · simp only [Value.emptyList, Value.bare, Value.ty]
      exact .list hf
    · simp only [Value.emptyList, Value.bare, Value.height, Value.heightAll]
      exact hn
  · refine ⟨.set he (by simp) (by simp), ?_, fun _ => ?_⟩
    · simp only [Value.emptySet, Value.bare, Value.ty]
      exact .set hf
    · simp only [Value.emptySet, Value.bare, Value.height, Value.heightAll]
      exact hn
  · refine ⟨.map he Names.proper_nil (by simp) (by simp), ?_, fun _ => ?_⟩
    · simp only [Value.emptyMap, Value.bare, Value.ty]
      exact .map hf
    · simp only [Value.emptyMap, Value.bare, Value.height, Value.heightEntries]
      exact hn

/-- An object that is made of entries for all of its attributes. -/
theorem object_lands (hS : S.Closed) {targets : List (String × Ty)} {optional : List String}
    {entries : List (String × Value)} {n : Nat}
    (ht : Ty.Aims S.types (.object targets optional))
    (hn : ∀ name, name ∈ names entries ↔ name ∈ names targets) (hpos : 0 < n)
    (hv : ∀ name y t, (name, y) ∈ entries → (name, t) ∈ targets → Lands S t n y) :
    Lands S (.object targets optional) (n + 1) (Value.object entries) := by
  have proper := ((ht.mono hS.headed).wellFormed).names_object
  have canonical : ∀ name ∈ names entries, normalize name = name := fun name h =>
    proper.2 name ((hn name).1 h)
  have hnames : names (ofList entries) = names targets :=
    names_eq_of_sorted (sorted_ofList entries) proper.1 fun name =>
      mem_names_ofList.trans (hn name)
  have parts : ∀ name y, (name, y) ∈ ofList entries → ∃ t, (name, t) ∈ targets ∧ Lands S t n y := by
    intro name y hy
    have hy := mem_ofList hy
    obtain ⟨t, ht⟩ := exists_of_mem_names ((hn name).1 (mem_names hy))
    exact ⟨t, ht, hv name y t hy ht⟩
  have object : Value.object entries = Value.bare (.object (ofList entries)) := by
    rw [Value.object, namedParts_of_canonical canonical]
  rw [object]
  refine ⟨.object ?_ fun y hy => ?_, ?_, fun hdeep => ?_⟩
  · have top := ht.here.1
    rw [Ty.withoutOptional, Ty.withoutOptionalEntries_eq_mapValues] at top
    refine hS.structural.object top ?_
    rw [Value.names_entryTypes, hnames, names_mapValues]
  · obtain ⟨name, hy⟩ := exists_of_mem_values hy
    obtain ⟨t, -, hl⟩ := parts name y hy
    exact hl.within
  · simp only [Value.bare, Value.ty]
    refine .object (by rw [Value.names_entryTypes, hnames]) (fun name a b ha hb => ?_)
      (List.nil_subset _)
    obtain ⟨y, hy, rfl⟩ := Value.mem_entryTypes.1 ha
    exact (hv name y b (mem_ofList hy) hb).fills
  · simp only [Value.bare, Value.height]
    refine Nat.succ_le_succ (Value.heightEntries_le hpos fun y hy => ?_)
    obtain ⟨name, hy⟩ := exists_of_mem_values hy
    obtain ⟨t, -, hl⟩ := parts name y hy
    exact hl.height hdeep

theorem lands_null {t : Ty} {n : Nat} (ht : Ty.Aims S.types t) (hwf : t.WellFormed)
    (hn : 0 < n) : Lands S t n (.null t.withoutOptional) := by
  refine ⟨Value.within_null ht.withoutOptional, ?_, fun _ => ?_⟩
  · simp only [Value.null, Value.bare, Value.ty]
    exact .withoutOptional hwf
  · simp only [Value.null, Value.bare, Value.height]
    exact hn

variable [Host]

/-- A list of values that land on a type lands on the list of the type. -/
theorem LandAll.list (hS : S.Closed) {t : Ty} {n : Nat} {vs : List Value} {w : Value}
    (h : LandAll S t n vs) (hn : 0 < n) (hw : Value.list vs = .ok w) :
    Lands S (.list t) (n + 1) w := by
  obtain ⟨e, hne, hc, rfl⟩ := Value.list_eq_ok hw
  obtain ⟨hv, hf⟩ := h.conformed hS hne hc
  obtain ⟨within, height⟩ := hv.list hn
  refine ⟨within, ?_, height⟩
  simp only [Value.bare, Value.ty]
  exact .list hf

theorem LandAll.set (hS : S.Closed) {t : Ty} {n : Nat} {vs : List Value} {w : Value}
    (h : LandAll S t n vs) (hn : 0 < n) (hw : Value.set vs = .ok w) :
    Lands S (.set t) (n + 1) w := by
  obtain ⟨e, hne, hc, rfl⟩ := Value.set_eq_ok hw
  obtain ⟨hv, hf⟩ := h.conformed hS hne hc
  obtain ⟨within, height⟩ := hv.setOf hn
  refine ⟨within, ?_, height⟩
  rw [Value.ty_setOf]
  exact .set hf

theorem LandAll.map (hS : S.Closed) {t : Ty} {n : Nat} {entries : List (String × Value)}
    {w : Value} (h : LandAll S t n (values entries)) (hp : Names.Proper (names entries))
    (hn : 0 < n) (hw : Value.map entries = .ok w) : Lands S (.map t) (n + 1) w := by
  obtain ⟨e, hne, hc, rfl⟩ := Value.map_eq_ok hp hw
  obtain ⟨hv, hf⟩ := h.conformed hS hne hc
  rw [← values_mapValues] at hv
  obtain ⟨within, height⟩ := hv.map (by rwa [names_mapValues]) hn
  refine ⟨within, ?_, height⟩
  simp only [Value.bare, Value.ty]
  exact .map hf

/-- A new list or set, as the rules make it. -/
theorem LandAll.collection (hS : S.Closed) {t : Ty} {n : Nat} {vs : List Value} {w : Value}
    {kind : CollectionKind} (h : LandAll S t n vs) (hn : 0 < n) (hk : kind ≠ .map)
    (hw : (if kind = .set then orFailure (Value.set vs) else orFailure (Value.list vs)) = .ok w) :
    Lands S (kind.type t) (n + 1) w := by
  cases kind with
  | list => exact h.list hS hn (orFailure_eq_ok hw)
  | set => exact h.set hS hn (orFailure_eq_ok hw)
  | map => cases hk rfl

/-! ## Sound runs of parts -/

/-- A run of parts lands on the targets of their conversions. -/
def Runner.Sound (S : Scope) (mode : Mode) (run : Runner) : Prop :=
  ∀ {s t : Ty} {c : Conversion} {v : Value} {path : Path} {site : List Nat} {w : Value},
    Conversion.Leads mode s t c → s.Everywhere S.types → Ty.Aims S.types t → v.Within S →
      v.ty.Fills s → run c v path site = .ok w → Lands S t v.height w

variable {run : Runner} {path : Path} {site : List Nat}

/-- The conversions of a second pass over some values. -/
theorem secondPass (hS : S.Closed) {vs : List Value} {u : Unification}
    (hv : ∀ v ∈ vs, v.Within S) (hu : Unification.plan? mode (Value.types vs) = some u)
    {v : Value} {c : Conversion} (hm : (v, some c) ∈ vs.zip u.conversions) :
    v ∈ vs ∧ Conversion.Leads mode v.ty u.target c ∧ Ty.Aims S.types u.target := by
  have conversions := Unification.plan?_conversions hu
  rw [Value.types_eq_map, List.forall₂_map_left_iff] at conversions
  have target : u.target.Everywhere S.types := by
    refine (Unification.common_target hu).everywhere hS.structural (fun _ => hS.dynamic) ?_
    intro t ht
    obtain ⟨v, hm, rfl⟩ := Value.mem_types.1 ht
    exact (hv v hm).ty hS
  cases List.forall₂_zip conversions hm with
  | convert hl => exact ⟨(List.of_mem_zip hm).1, hl, .ofEverywhere hS.structural target⟩

/-- Elements that landed on a wanted type land on it again as elements of one type. -/
theorem homogenize_lands (hS : S.Closed) (hrun : run.Sound S mode) {kind : CollectionKind} {t : Ty}
    {n : Nat} {vs ws : List Value} (hne : vs ≠ []) (h : LandAll S t n vs)
    (hw : homogenize run kind mode path site vs = .ok ws) :
    LandAll S t n ws ∧ ws.length = vs.length ∧ ∃ e, Value.commonType? ws = some e := by
  unfold homogenize at hw
  split at hw
  · rename_i hc
    cases hw
    exact ⟨h, rfl, Option.isSome_iff_exists.1 hc⟩
  split at hw
  · cases hw
  rename_i u hu
  obtain ⟨second, hs, hw⟩ := bind_eq_ok hw
  split at hw
  · rename_i hc
    cases hw
    have paired := Runner.runSecond_ok hs
    have fills : u.target.Fills t := by
      refine (Unification.common_target hu).fills ?_ fun τ hτ => ?_
      · rw [Value.types_eq_map]
        exact fun eq => hne (List.map_eq_nil_iff.1 eq)
      · obtain ⟨v, hv, rfl⟩ := Value.mem_types.1 hτ
        exact (h v hv).fills
    refine ⟨fun w hw => ?_, ?_, Option.isSome_iff_exists.1 hc⟩
    · obtain ⟨⟨v, c?⟩, hm, hr⟩ := exists_left_of_forall₂ paired hw
      rcases hr with ⟨-, eq⟩ | ⟨c, site, rfl, hr⟩
      · exact eq ▸ h v (List.of_mem_zip hm).1
      · obtain ⟨hv, hl, target⟩ := secondPass hS (fun v hv => (h v hv).within) hu hm
        have within := (h v hv).within
        have lands := hrun hl (within.ty hS) target within (.refl (within.wellFormed_ty hS)) hr
        exact ⟨lands.within, lands.fills.trans fills,
          fun hd => Nat.le_trans (lands.height hd) ((h v hv).height hd)⟩
    · rw [← paired.length_eq, List.length_zip, ← (Unification.plan?_conversions hu).length_eq,
        Value.length_types, Nat.min_self]
  · cases hw

/-! ## Collections -/

theorem convertItems_lands (hS : S.Closed) (hrun : run.Sound S mode) {kind : CollectionKind}
    (hk : kind ≠ .map) {s wanted e : Ty} {c : Conversion} {v w : Value}
    {elements : List (Value × Value)} {n : Nat} (hc : Conversion.plan? mode s wanted = some c)
    (hs : s.Everywhere S.types) (ht : Ty.Aims S.types wanted)
    (he : v.elements = .ok elements) (hty : v.ty.elementType = .ok e) (hes : e.Everywhere S.types)
    (hv : ∀ x ∈ elements, x.2.Within S ∧ x.2.ty.Fills s ∧ x.2.height ≤ n) (hn : 0 < n)
    (h : convertItems run kind mode c wanted v path site = .ok w) :
    Lands S (kind.type wanted) (n + 1) w := by
  have hwf := (ht.mono hS.headed).wellFormed
  unfold convertItems at h
  rw [he] at h
  obtain ⟨_, eq, h⟩ := bind_eq_ok h
  cases eq
  obtain ⟨values, hr, h⟩ := bind_eq_ok h
  split at h
  · obtain ⟨e', eq, h⟩ := bind_eq_ok h
    rw [hty] at eq
    cases eq
    cases h
    exact lands_emptyCollection ht hwf hes (Nat.succ_le_succ hn)
  · rename_i hne
    have paired := Runner.runAll_ok hr
    rw [List.forall₂_map_left_iff] at paired
    have lands : LandAll S wanted n values := fun y hy => by
      obtain ⟨x, hx, site, hxy⟩ := exists_left_of_forall₂ paired hy
      obtain ⟨within, fills, height⟩ := hv x hx
      exact (hrun (.planned hc) hs ht within fills hxy).mono height
    obtain ⟨second, hh, h⟩ := bind_eq_ok h
    have hne : values ≠ [] := fun eq => hne (eq ▸ rfl)
    exact (homogenize_lands hS hrun hne lands hh).1.collection hS hn hk h

theorem convertEntries_lands (hS : S.Closed) (hrun : run.Sound S mode) {s wanted e : Ty}
    {c : Conversion} {v w : Value} {entries : List (String × Value)} {n : Nat}
    (hc : Conversion.plan? mode s wanted = some c) (hs : s.Everywhere S.types)
    (ht : Ty.Aims S.types wanted) (hp : Names.Proper (names entries))
    (he : v.elements = .ok (Value.keyed entries)) (hty : v.ty.elementType = .ok e)
    (hes : e.Everywhere S.types)
    (hv : ∀ x ∈ values entries, x.Within S ∧ x.ty.Fills s ∧ x.height ≤ n) (hn : 0 < n)
    (h : convertEntries run mode c wanted v path site = .ok w) :
    Lands S (.map wanted) (n + 1) w := by
  have hwf := (ht.mono hS.headed).wellFormed
  unfold convertEntries at h
  rw [Value.namedElements_of_content hp.2 he] at h
  obtain ⟨_, eq, h⟩ := bind_eq_ok h
  cases eq
  obtain ⟨vs, hr, h⟩ := bind_eq_ok h
  split at h
  · obtain ⟨e', eq, h⟩ := bind_eq_ok h
    rw [hty] at eq
    cases eq
    cases h
    exact @lands_emptyCollection _ _ _ .map _ ht hwf hes (Nat.succ_le_succ hn)
  · rename_i hne
    have paired := Runner.runAll_ok hr
    rw [List.map_map, List.forall₂_map_left_iff] at paired
    have lands : LandAll S wanted n vs := fun y hy => by
      obtain ⟨⟨name, x⟩, hx, site, hxy⟩ := exists_left_of_forall₂ paired hy
      obtain ⟨within, fills, height⟩ := hv x (mem_values hx)
      exact (hrun (.planned hc) hs ht within fills hxy).mono height
    obtain ⟨second, hh, h⟩ := bind_eq_ok h
    have hne : vs ≠ [] := fun eq => hne (eq ▸ rfl)
    obtain ⟨lands', hl, -⟩ := homogenize_lands hS hrun hne lands hh
    have hl : (names entries).length = second.length := by
      rw [hl, ← paired.length_eq, length_names]
    have hnames : (entries.map fun x => (x.1, Value.string x.1, x.2)).map (·.1) =
        names entries := by simp [names]
    rw [hnames] at h
    refine LandAll.map hS ?_ ?_ hn (orFailure_eq_ok h)
    · rw [values_zip hl]
      exact lands'
    · rwa [names_zip hl]

/-- The type that elements are gathered in can be aimed at, and what fills it fills the wanted
type. -/
theorem Rule.Gathers.aims (hS : S.Closed) {sources : List Ty} {wanted e : Ty}
    (h : Rule.Gathers mode sources wanted e) (hs : ∀ s ∈ sources, s.Everywhere S.types)
    (ht : Ty.Aims S.types wanted) :
    Ty.Aims S.types e ∧ ∀ {a : Ty}, a.Fills e → a.Fills wanted := by
  cases h with
  | wanted => exact ⟨ht, id⟩
  | common _ hu =>
    refine ⟨.ofEverywhere hS.structural ?_, fun _ => .dynamic _⟩
    exact (Unification.common_target hu).everywhere hS.structural (fun _ => hS.dynamic) hs

/-! ## Structures -/

/-- The parts of an object that are converted, where each of them has a conversion of its name. -/
theorem paired_lands (hrun : run.Sound S mode) {conversions : List (String × Conversion)}
    {entries result : List (String × Value)} {n : Nat} {T : String → Ty → Prop}
    (hv : ∀ x ∈ values entries, x.Within S ∧ x.height ≤ n)
    (hc : ∀ name x c, (name, x) ∈ entries → conversions.lookup name = some c →
      ∃ s t, T name t ∧ Conversion.plan? mode s t = some c ∧ x.ty.Fills s ∧
        s.Everywhere S.types ∧ Ty.Aims S.types t)
    (h : Paired (ConvertedBy run conversions) (covered conversions entries) result)
    {name : String} {y : Value} (hy : (name, y) ∈ result) :
    ∃ t, T name t ∧ Lands S t n y := by
  obtain ⟨x, hx, c, path, site, hl, hr⟩ := h.mem_right hy
  have hx := (List.mem_filter.1 hx).1
  obtain ⟨s, t, hT, hp, hf, hs, ht⟩ := hc name x c hx hl
  obtain ⟨within, height⟩ := hv x (mem_values hx)
  exact ⟨t, hT, (hrun (.planned hp) hs ht within hf hr).mono height⟩

end ValueAlgebra
