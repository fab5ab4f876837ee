import ValueAlgebra.Proofs.AtRest
import ValueAlgebra.Proofs.UnknownOutcomes
import ValueAlgebra.Proofs.WellMadeResults

/-!
# Conversions come to rest

A conversion to a type makes values at rest for the type, if the variants of its unions leave nothing
open and have no optional attributes. Where the elements of a collection come out with different
types, they are converted once more, to what their types have in common. By then they are at rest
for the element type, and they stay so, since the common type keeps open what any of them has left
open.

So the invariant is about two types (`Ty.Goal`): the type `e` that is wanted in the end, and a target
`t` that fills it. Either they are the same, or the value is at rest for `e` already and `t` leaves
open what the value has left open (`Value.Near`).

Main statements:

* `Conversion.run_arrives`: a run toward the target arrives at rest for the wanted type.
-/

namespace ValueAlgebra

open Entries Text

/-! ## Targets on the way to a type -/

namespace Ty

/-- A target on the way to a type that it fills. -/
structure Goal (e t : Ty) : Prop where
  target : t.WellFormed
  free : t.CapsuleFree
  wanted : e.WellFormed
  closed : e.Everywhere VariantsClosed
  fills : t.Fills e

namespace Goal

variable {e t : Ty}

theorem eq_collection {kind : CollectionKind} (h : Goal e (kind.type t)) (open_ : e ≠ .dynamic) :
    ∃ a, e = kind.type a := by
  have fills := h.fills
  cases kind <;> cases fills <;> first | exact absurd rfl open_ | exact ⟨_, rfl⟩

theorem element {kind : CollectionKind} (h : Goal (kind.type e) (kind.type t)) : Goal e t where
  target := (everywhere_collection.1 h.target).2
  free := (everywhere_collection.1 h.free).2
  wanted := (everywhere_collection.1 h.wanted).2
  closed := (everywhere_collection.1 h.closed).2
  fills := by
    have fills := h.fills
    cases kind <;> cases fills <;> assumption

theorem eq_object {ts : List (String × Ty)} {qs : List String} (h : Goal e (.object ts qs))
    (open_ : e ≠ .dynamic) : ∃ es os, e = .object es os ∧ names ts = names es := by
  cases h.fills with
  | dynamic => exact absurd rfl open_
  | object hn => exact ⟨_, _, rfl, hn⟩

theorem ofAttribute {es ts : List (String × Ty)} {os qs : List String} {name : String}
    (h : Goal (.object es os) (.object ts qs)) (he : (name, e) ∈ es) (ht : (name, t) ∈ ts) :
    Goal e t where
  target := h.target.ofAttribute ht
  free := h.free.ofAttribute ht
  wanted := h.wanted.ofAttribute he
  closed := h.closed.ofAttribute he
  fills := by
    cases h.fills with
    | object _ parts => exact parts name t e ht he

theorem eq_tuple {ts : List Ty} (h : Goal e (.tuple ts)) (open_ : e ≠ .dynamic) :
    ∃ es, e = .tuple es ∧ ts.length = es.length := by
  cases h.fills with
  | dynamic => exact absurd rfl open_
  | tuple hl => exact ⟨_, rfl, hl⟩

theorem ofItem {es ts : List Ty} {i : Nat} (h : Goal (.tuple es) (.tuple ts)) (he : es[i]? = some e)
    (ht : ts[i]? = some t) : Goal e t where
  target := h.target.ofItem (List.mem_of_getElem? ht)
  free := h.free.ofItem (List.mem_of_getElem? ht)
  wanted := h.wanted.ofItem (List.mem_of_getElem? he)
  closed := h.closed.ofItem (List.mem_of_getElem? he)
  fills := by
    cases h.fills with
    | tuple _ parts => exact parts i t e ht he

end Goal

end Ty

/-! ## Values on the way -/

namespace Value

/-- A value without capsules, as it is built. -/
structure Tame (v : Value) : Prop where
  within : v.Within .capsuleFree
  sterile : v.Sterile

theorem Tame.unmark {v : Value} (h : v.Tame) : v.unmark.Tame :=
  ⟨h.within.unmark, h.sterile.unmark⟩

section

variable [Host]

/-- A value that has a type, or is at rest for it. -/
def AtHome (e : Ty) (v : Value) : Prop :=
  v.Rests e ∨ v.ty = e

/-- A value on the way to a type `e`, before it is converted to a target `t`. -/
def Near (e t : Ty) (v : Value) : Prop :=
  e = t ∨ Ty.KeepsOpen e v.ty t ∧ v.AtHome e

/-- What comes of a conversion to a target `t` on the way to a type `e`. -/
structure Arrives (e t : Ty) (v : Value) : Prop where
  tame : v.Tame
  rests : v.Rests e
  fills : v.ty.Fills t

variable {e s t : Ty} {m : MarkSet} {v x : Value} {items : List Value}

theorem AtHome.of_content {w : Value} (h : v.AtHome e) (hc : w.content = v.content) : w.AtHome e :=
  h.imp (·.of_content hc) fun typed => (ty_of_content hc).trans typed

theorem Near.unmark (h : v.Near e t) : v.unmark.Near e t :=
  h.imp_right fun ⟨keeps, home⟩ => ⟨(ty_unmark v).symm ▸ keeps, home.of_content rfl⟩

/-- The elements of a collection that is at home, and its element type where there are none. -/
theorem AtHome.elements {kind : CollectionKind} (h : v.AtHome (kind.type e))
    (known : v.isKnown = true) (notNull : v.isNull = false) (typed : v.ty = kind.type s) :
    s = e ∨ (∀ x ∈ v.content.parts, x.Rests e) ∧ (v.content.parts = [] → EmptyAs e s) := by
  rcases h with h | h
  · generalize he : kind.type e = e' at h
    cases h with
    | dynamic => cases kind <;> cases he
    | exact _ _ typed' =>
      have same := typed.symm.trans (typed'.trans he.symm)
      exact .inl (Conversion.collection_injective same).2
    | null => cases notNull
    | unknown => cases known
    | list empty parts | set empty parts =>
      simp only [ty] at typed
      cases kind <;> cases he
      cases typed
      exact .inr ⟨parts, empty⟩
    | map empty parts =>
      simp only [ty] at typed
      cases kind <;> cases he
      cases typed
      exact .inr ⟨parts, fun none => empty (List.map_eq_nil_iff.1 none)⟩
    | object | tuple => cases kind <;> cases he
  · exact .inl (Conversion.collection_injective (typed.symm.trans h)).2

/-- The elements of a collection are on the way to the element type. An empty one has nothing more to
fill in. -/
theorem Near.elements {kind l : CollectionKind} (h : v.Near (kind.type e) (kind.type t))
    (he : e.WellFormed) (known : v.isKnown = true) (notNull : v.isNull = false)
    (typed : v.ty = l.type s) (types : ∀ x ∈ v.content.parts, x.ty = s) :
    (∀ x ∈ v.content.parts, x.Near e t) ∧
      (v.content.parts = [] → e = .dynamic ∨ t.withoutOptional = e.withoutOptional) := by
  rcases h with same | ⟨keeps, home⟩
  · obtain ⟨-, rfl⟩ := Conversion.collection_injective same
    exact ⟨fun x hx => .inl rfl, fun _ => .inr rfl⟩
  · obtain ⟨a, b, ha, hb, keeps⟩ := keeps.of_collection
    obtain ⟨-, rfl⟩ := Conversion.collection_injective hb
    obtain ⟨rfl, rfl⟩ := Conversion.collection_injective (typed.symm.trans ha)
    rcases home.elements known notNull typed with rfl | ⟨rest, empty⟩
    · exact ⟨fun x hx => .inr ⟨(types x hx).symm ▸ keeps, .inr (types x hx)⟩,
        fun _ => .inr (keeps.withoutOptional_eq he rfl)⟩
    · refine ⟨fun x hx => .inr ⟨(types x hx).symm ▸ keeps, .inl (rest x hx)⟩, fun none => ?_⟩
      refine (empty none).imp_right fun eq => keeps.withoutOptional_eq he ?_
      rw [eq, (Ty.optionalFree_withoutOptional e).withoutOptional_eq]

theorem Near.ofAttribute {es ts : List (String × Ty)} {os qs : List String} {name : String}
    {attributes : List (String × Value)}
    (h : (bare (.object attributes)).Near (.object es os) (.object ts qs)) (nodup : (names es).Nodup)
    (hx : (name, x) ∈ attributes) (he : (name, e) ∈ es) (ht : (name, t) ∈ ts) : x.Near e t := by
  have typed : (bare (.object attributes)).ty = .object (entryTypes attributes) [] := by
    simp only [bare, ty]
  have part : (name, x.ty) ∈ entryTypes attributes := mem_entryTypes.2 ⟨x, hx, rfl⟩
  rcases h with same | ⟨keeps, home⟩
  · cases same
    exact .inl (eq_of_mem nodup he ht)
  · obtain ⟨ss, ps, ts', qs', hs, ht', -, parts⟩ := keeps.of_object
    rw [typed] at hs
    cases hs
    cases ht'
    refine .inr ⟨parts name e x.ty t he part ht, ?_⟩
    rcases home with home | home
    · cases home with
      | exact _ _ typed' =>
        cases typed.symm.trans typed'
        exact .inr (eq_of_mem nodup part he)
      | object _ parts => exact .inl (parts name x e hx he)
    · cases typed.symm.trans home
      exact .inr (eq_of_mem nodup part he)

theorem Near.ofItem {es ts : List Ty} {i : Nat}
    (h : (bare (.tuple items)).Near (.tuple es) (.tuple ts)) (hx : items[i]? = some x) (he : es[i]? = some e) (ht : ts[i]? = some t) : x.Near e t := by
  have typed : (bare (.tuple items)).ty = .tuple (types items) := by simp only [bare, ty]
  have part : (types items)[i]? = some x.ty := by
    rw [types_eq_map, List.getElem?_map, hx, Option.map_some]
  rcases h with same | ⟨keeps, home⟩
  · cases same
    exact .inl (Option.some.inj (he.symm.trans ht))
  · obtain ⟨ss, ts', hs, ht', -, parts⟩ := keeps.of_tuple
    rw [typed] at hs
    cases hs
    cases ht'
    refine .inr ⟨parts i e x.ty t he part ht, ?_⟩
    rcases home with home | home
    · cases home with
      | exact _ _ typed' =>
        cases typed.symm.trans typed'
        exact .inr (Option.some.inj (part.symm.trans he))
      | tuple _ parts => exact .inl (parts i x e hx he)
    · cases typed.symm.trans home
      exact .inr (Option.some.inj (part.symm.trans he))

/-! ## What constructors make of values at rest -/

theorem Arrives.mono (h : v.Arrives e s) (fills : s.Fills t) : v.Arrives e t :=
  ⟨h.tame, h.rests, h.fills.trans fills⟩

/-- The elements of a new collection. Only where any type will do does one take another type. -/
theorem rests_conformTo {vs : List Value} {u : Ty} (hv : ∀ x ∈ vs, x.Rests e ∧ x.ty.Fills e)
    (hc : commonType? vs = some u) : ∀ x ∈ vs.map (conformTo u), x.Rests e := by
  refine List.forall_mem_map.2 fun x hx => ?_
  obtain ⟨rests, fills⟩ := hv x hx
  rcases ty_of_commonType? hc hx with open_ | typed
  · rw [open_] at fills
    cases fills
    exact .dynamic _
  · rwa [conformTo_of_ty typed]

theorem rests_list {vs : List Value} (hv : ∀ x ∈ vs, x.Rests e ∧ x.ty.Fills e)
    (h : Value.list vs = .ok v) : v.Rests (.list e) := by
  obtain ⟨u, hne, hc, rfl⟩ := list_eq_ok h
  exact .list (fun none => absurd (List.map_eq_nil_iff.1 none) hne) (rests_conformTo hv hc)

theorem rests_set {vs : List Value} (hv : ∀ x ∈ vs, x.Rests e ∧ x.ty.Fills e)
    (h : Value.set vs = .ok v) : v.Rests (.set e) := by
  have listed := listed_set h
  obtain ⟨u, hne, hc, rfl⟩ := set_eq_ok h
  rw [content_setOf] at listed
  have rests : (bare (.set u (RuleSet.ofList (ValueRules.mk u)
      ((vs.map (conformTo u)).map Value.unmarkDeep)).values)).Rests (.set e) := by
    refine .set (fun none => ?_) (fun x hx => ?_) listed
    · have some : (vs.map (conformTo u)).map Value.unmarkDeep ≠ [] := by simpa using hne
      exact absurd none (RuleSet.values_ofList_ne_nil _ some)
    · obtain ⟨y, hy, rfl⟩ := List.mem_map.1 (RuleSet.mem_of_mem_ofList hx)
      exact (rests_conformTo hv hc y hy).unmarkDeep
  exact rests.of_content (content_setOf u vs)

theorem rests_map {entries : List (String × Value)} (proper : Names.Proper (names entries))
    (hv : ∀ x ∈ values entries, x.Rests e ∧ x.ty.Fills e) (h : Value.map entries = .ok v) :
    v.Rests (.map e) := by
  obtain ⟨u, hne, hc, rfl⟩ := map_eq_ok proper h
  refine .map (fun none => ?_) ?_
  · rw [List.map_eq_nil_iff.1 none] at hne
    exact absurd rfl hne
  · rw [values_mapValues]
    exact rests_conformTo hv hc

theorem rests_collection {kind : CollectionKind} {vs : List Value} (hk : kind ≠ .map)
    (hv : ∀ x ∈ vs, x.Rests e ∧ x.ty.Fills e)
    (h : (if kind = .set then Value.set vs else Value.list vs) = .ok v) : v.Rests (kind.type e) := by
  cases kind with
  | list => exact rests_list hv h
  | set => exact rests_set hv h
  | map => exact absurd rfl hk

theorem EmptyAs.rests (kind : CollectionKind)
    (h : EmptyAs e (if t = .dynamic then s else t.withoutOptional)) :
    (emptyCollection kind t s).Rests (kind.type e) := by
  cases kind with
  | list => exact .list (fun _ => h) (by simp)
  | set => exact .set (fun _ => h) (by simp) (listed_emptySet _)
  | map => exact .map (fun _ => h) (by simp)

theorem rests_emptyCollection (kind : CollectionKind)
    (h : e = .dynamic ∨ t.withoutOptional = e.withoutOptional) :
    (emptyCollection kind t s).Rests (kind.type e) := by
  refine EmptyAs.rests kind ?_
  rcases h with open_ | same
  · exact .inl open_
  by_cases ht : t = .dynamic
  · subst ht
    cases e <;> simp only [Ty.withoutOptional, reduceCtorEq] at same
    exact .inl rfl
  · exact .inr (by rw [if_neg ht, same])

theorem rests_object {entries : List (String × Value)} {es : List (String × Ty)} {os : List String}
    (proper : Names.Proper (names es)) (hn : ∀ name, name ∈ names entries ↔ name ∈ names es)
    (hv : ∀ name y e, (name, y) ∈ entries → (name, e) ∈ es → y.Rests e) :
    (Value.object entries).Rests (.object es os) := by
  have canonical : ∀ name ∈ names entries, normalize name = name := fun name h =>
    proper.2 name ((hn name).1 h)
  rw [Value.object, namedParts_of_canonical canonical]
  refine .object ?_ fun name y e hy he => hv name y e (mem_ofList hy) he
  exact names_eq_of_sorted (sorted_ofList entries) proper.1 fun name => mem_names_ofList.trans (hn name)

end

end Value

variable [Host] {mode : Mode} {run : Runner} {path : Path} {site : List Nat} {e t : Ty} {v w : Value}

/-! ## Parts that are converted -/

/-- The runs of parts toward their targets arrive at rest. -/
def Runner.Settles (mode : Mode) (run : Runner) : Prop :=
  ∀ {e t : Ty} {v w : Value} {c : Conversion} {path : Path} {site : List Nat}, Ty.Goal e t →
    v.Near e t → v.Tame → Conversion.Leads mode v.ty t c → run c v path site = .ok w → w.Arrives e t

/-- What the types of values that arrived have in common is a target on the way, too. -/
theorem Unification.goal {vs : List Value} {u : Unification} (goal : Ty.Goal e t) (hne : vs ≠ [])
    (hv : ∀ x ∈ vs, x.Arrives e e) (hu : Unification.plan? mode (Value.types vs) = some u) :
    Ty.Goal e u.target ∧ ∀ x ∈ vs, x.Near e u.target := by
  have types : ∀ s ∈ Value.types vs, s.Everywhere Scope.capsuleFree.types ∧ s.Fills e := by
    intro s hs
    obtain ⟨x, hx, rfl⟩ := Value.mem_types.1 hs
    exact ⟨(hv x hx).tame.within.ty Scope.closed_capsuleFree, (hv x hx).fills⟩
  have some : Value.types vs ≠ [] := by
    rw [Value.types_eq_map]
    exact fun none => hne (List.map_eq_nil_iff.1 none)
  have common := Unification.common_target hu
  have everywhere := common.everywhere Scope.closed_capsuleFree.structural
    (fun none => absurd none some) fun s hs => (types s hs).1
  refine ⟨⟨everywhere.mono fun _ h => h.1, everywhere.mono fun _ h => h.2, goal.wanted, goal.closed,
    common.fills some fun s hs => (types s hs).2⟩, fun x hx => .inr ⟨?_, .inl (hv x hx).rests⟩⟩
  have target : Unification.target? mode (Value.types vs) = u.target := by
    rw [Unification.target?, hu]
    rfl
  exact Unification.keepsOpen goal.wanted goal.closed (fun s hs => (types s hs).2)
    (Value.mem_types.2 ⟨x, hx, rfl⟩) target

theorem homogenize_length {kind : CollectionKind} {vs ws : List Value}
    (h : homogenize run kind mode path site vs = .ok ws) : ws.length = vs.length := by
  obtain ⟨-, rfl | ⟨u, -, hu, paired⟩⟩ := homogenize_ok h
  · rfl
  · have conversions := (Unification.plan?_conversions hu).length_eq
    rw [Value.length_types] at conversions
    rw [← paired.length_eq, List.length_zip, ← conversions, Nat.min_self]

/-- Elements that arrived are at rest after they are made elements of one type, too. -/
theorem homogenize_rests (hrun : run.Settles mode) {kind : CollectionKind} {vs ws : List Value}
    (goal : Ty.Goal e t) (hne : vs ≠ []) (hv : e = .dynamic ∨ ∀ x ∈ vs, x.Arrives e e)
    (h : homogenize run kind mode path site vs = .ok ws) : ∀ x ∈ ws, x.Rests e ∧ x.ty.Fills e := by
  rcases hv with rfl | hv
  · exact fun x _ => ⟨.dynamic x, .dynamic _⟩
  obtain ⟨-, rfl | ⟨u, -, hu, paired⟩⟩ := homogenize_ok h
  · exact fun x hx => ⟨(hv x hx).rests, (hv x hx).fills⟩
  obtain ⟨onward, near⟩ := Unification.goal goal hne hv hu
  have conversions := Unification.plan?_conversions hu
  rw [Value.types_eq_map, List.forall₂_map_left_iff] at conversions
  intro x hx
  obtain ⟨⟨y, c?⟩, hm, ran⟩ := exists_left_of_forall₂ paired hx
  have hy := (List.of_mem_zip hm).1
  rcases ran with ⟨-, eq⟩ | ⟨c, site, rfl, ran⟩
  · exact eq ▸ ⟨(hv y hy).rests, (hv y hy).fills⟩
  · cases List.forall₂_zip conversions hm with
    | convert leads =>
      have arrives := hrun onward (near y hy) (hv y hy).tame leads ran
      exact ⟨arrives.rests, arrives.fills.trans onward.fills⟩

/-! ## Collections -/

theorem convertItems_rests (hrun : run.Settles mode) {kind : CollectionKind} (hk : kind ≠ .map)
    {s : Ty} {c : Conversion} {items : List Value} (goal : Ty.Goal e t)
    (he : v.elements = .ok (Value.numbered 0 items)) (hc : Conversion.plan? mode s t = some c)
    (hv : ∀ x ∈ items, x.Near e t ∧ x.Tame ∧ x.ty = s)
    (empty : items = [] → e = .dynamic ∨ t.withoutOptional = e.withoutOptional)
    (h : convertItems run kind mode c t v path site = .ok w) : w.Rests (kind.type e) := by
  obtain ⟨ys, paired, result⟩ := convertItems_ok he h
  rw [Value.map_snd_numbered] at paired
  rcases result with ⟨rfl, source, -, rfl⟩ | ⟨hne, zs, hz, hw⟩
  · cases paired
    exact Value.rests_emptyCollection kind (empty rfl)
  · refine Value.rests_collection hk (homogenize_rests hrun goal hne (.inr fun y hy => ?_) hz) hw
    obtain ⟨x, hx, path, site, ran⟩ := exists_left_of_forall₂ paired hy
    obtain ⟨near, tame, typed⟩ := hv x hx
    exact (hrun goal near tame (.planned (typed ▸ hc)) ran).mono goal.fills

theorem convertEntries_rests (hrun : run.Settles mode) {s : Ty} {c : Conversion}
    {entries : List (String × Value)} (proper : Names.Proper (names entries)) (goal : Ty.Goal e t)
    (he : v.elements = .ok (Value.keyed entries)) (hc : Conversion.plan? mode s t = some c)
    (hv : ∀ x ∈ values entries, x.Near e t ∧ x.Tame ∧ x.ty = s)
    (empty : values entries = [] → e = .dynamic ∨ t.withoutOptional = e.withoutOptional)
    (h : convertEntries run mode c t v path site = .ok w) : w.Rests (.map e) := by
  obtain ⟨ys, paired, result⟩ := convertEntries_ok proper.2 he h
  rcases result with ⟨rfl, source, -, rfl⟩ | ⟨hne, zs, hz, hw⟩
  · exact @Value.rests_emptyCollection _ e source t .map (empty (List.forall₂_nil_right_iff.1 paired))
  · have arrives : ∀ y ∈ ys, y.Arrives e e := fun y hy => by
      obtain ⟨x, hx, path, site, ran⟩ := exists_left_of_forall₂ paired hy
      obtain ⟨near, tame, typed⟩ := hv x hx
      exact (hrun goal near tame (.planned (typed ▸ hc)) ran).mono goal.fills
    have hl : (names entries).length = zs.length := by
      rw [homogenize_length hz, ← paired.length_eq, names, values, List.length_map, List.length_map]
    refine Value.rests_map (by rwa [names_zip hl]) ?_ hw
    rw [values_zip hl]
    exact homogenize_rests hrun goal hne (.inr arrives) hz

/-! ## Values that rules are applied to -/

namespace Value

variable {s : Ty}

omit [Host] in
theorem Tame.items {l : CollectionKind} (hl : l ≠ .map) (tame : v.Tame) (hd : v.Decided)
    (typed : v.ty = l.type s) : v.elements = .ok (numbered 0 v.content.parts) ∧
      ∀ x ∈ v.content.parts, x.ty = s ∧ x.Tame := by
  have sterile := tame.sterile
  have within := tame.within
  obtain ⟨m, c⟩ := v
  cases hd.unmarked
  cases c with
  | null => cases hd.notNull
  | unknown => cases hd.known
  | list =>
    simp only [ty] at typed
    cases l <;> cases typed
    cases within with
    | list _ types inside =>
      exact ⟨rfl, fun x hx => ⟨types x hx, inside x hx, sterile.inside hx⟩⟩
  | set =>
    simp only [ty] at typed
    cases l <;> cases typed
    cases within with
    | set _ types inside =>
      exact ⟨rfl, fun x hx => ⟨types x hx, inside x hx, sterile.inside hx⟩⟩
  | map =>
    simp only [ty] at typed
    cases l <;> cases typed
    exact absurd rfl hl
  | _ =>
    simp only [ty] at typed
    cases l <;> cases typed

omit [Host] in
theorem Tame.entries (tame : v.Tame) (hd : v.Decided) (typed : v.ty = .map s) :
    ∃ parts, v = bare (.map s parts) ∧ Names.Proper (names parts) ∧
      ∀ x ∈ values parts, x.ty = s ∧ x.Tame := by
  have sterile := tame.sterile
  have within := tame.within
  obtain ⟨m, c⟩ := v
  cases hd.unmarked
  cases c with
  | null => cases hd.notNull
  | unknown => cases hd.known
  | map e parts =>
    simp only [ty] at typed
    cases typed
    cases within with
    | map _ proper types inside =>
      exact ⟨parts, rfl, proper, fun x hx => ⟨types x hx, inside x hx, sterile.inside hx⟩⟩
  | _ =>
    simp only [ty] at typed
    cases typed

omit [Host] in
theorem Tame.attributes {ss : List (String × Ty)} {os : List String} (tame : v.Tame)
    (hd : v.Decided) (typed : v.ty = .object ss os) :
    ∃ parts, v = bare (.object parts) ∧ ss = entryTypes parts ∧ Names.Proper (names parts) ∧
      ∀ x ∈ values parts, x.Tame := by
  have sterile := tame.sterile
  have within := tame.within
  obtain ⟨m, c⟩ := v
  cases hd.unmarked
  cases c with
  | null => cases hd.notNull
  | unknown => cases hd.known
  | object parts =>
    simp only [ty] at typed
    cases typed
    cases within with
    | object _ inside =>
      exact ⟨parts, rfl, rfl, Names.Normal.proper sterile.wellMade.here,
        fun x hx => ⟨inside x hx, sterile.inside hx⟩⟩
  | _ =>
    simp only [ty] at typed
    cases typed

omit [Host] in
theorem Tame.tuple {ss : List Ty} (tame : v.Tame) (hd : v.Decided) (typed : v.ty = .tuple ss) :
    ∃ items, v = bare (.tuple items) ∧ ss = types items ∧ ∀ x ∈ items, x.Tame := by
  have sterile := tame.sterile
  have within := tame.within
  obtain ⟨m, c⟩ := v
  cases hd.unmarked
  cases c with
  | null => cases hd.notNull
  | unknown => cases hd.known
  | tuple items =>
    simp only [ty] at typed
    cases typed
    cases within with
    | tuple _ inside => exact ⟨items, rfl, rfl, fun x hx => ⟨inside x hx, sterile.inside hx⟩⟩
  | _ =>
    simp only [ty] at typed
    cases typed

/-- Where the value is not built like the target, the target is the type that is wanted. -/
theorem Near.eq_of_reshaped {kind : CollectionKind} (h : v.Near e (kind.type t))
    (goal : Ty.Goal e (kind.type t)) (open_ : e ≠ .dynamic) (shape : ∀ s, v.ty ≠ kind.type s) : e = kind.type t := by
  rcases h with same | ⟨keeps, -⟩
  · exact same
  · obtain ⟨a, rfl⟩ := goal.eq_collection open_
    obtain ⟨b, c, hv, -⟩ := keeps.of_collection
    exact absurd hv (shape b)

end Value

/-! ## Rules -/

namespace Rule

theorem items_rest (hrun : run.Settles mode) {kind : CollectionKind} {s a : Ty} {c : Conversion}
    (hk : kind ≠ .map) (hs : v.ty = .list s ∨ v.ty = .set s)
    (hc : Conversion.plan? mode s t = some c) (goal : Ty.Goal (kind.type a) (kind.type t))
    (near : v.Near (kind.type a) (kind.type t)) (tame : v.Tame) (hd : v.Decided)
    (h : Rule.apply run (.collection kind mode c t) (kind.type t) v path site = .ok w) :
    w.Rests (kind.type a) := by
  obtain ⟨l, hl, typed⟩ : ∃ l : CollectionKind, l ≠ .map ∧ v.ty = l.type s := by
    rcases hs with hs | hs
    · exact ⟨.list, by simp, hs⟩
    · exact ⟨.set, by simp, hs⟩
  rw [Rule.apply] at h
  obtain ⟨-, -, h⟩ := bind_eq_ok h
  rw [if_neg hk] at h
  obtain ⟨elements, parts⟩ := tame.items hl hd typed
  obtain ⟨nearParts, empty⟩ := near.elements goal.element.wanted hd.known hd.notNull typed
    fun x hx => (parts x hx).1
  exact convertItems_rests hrun hk goal.element elements hc
    (fun x hx => ⟨nearParts x hx, (parts x hx).2, (parts x hx).1⟩) empty h

theorem mapItems_rest (hrun : run.Settles mode) {s a : Ty} {c : Conversion} (hs : v.ty = .map s)
    (hc : Conversion.plan? mode s t = some c) (goal : Ty.Goal (.map a) (.map t))
    (near : v.Near (.map a) (.map t)) (tame : v.Tame) (hd : v.Decided)
    (h : Rule.apply run (.collection .map mode c t) (.map t) v path site = .ok w) :
    w.Rests (.map a) := by
  rw [Rule.apply] at h
  obtain ⟨-, -, h⟩ := bind_eq_ok h
  rw [if_pos rfl] at h
  have element := @Ty.Goal.element _ _ .map goal
  obtain ⟨parts, rfl, proper, tameParts⟩ := tame.entries hd hs
  obtain ⟨nearParts, empty⟩ := @Value.Near.elements _ _ _ _ _ .map .map near element.wanted hd.known
    hd.notNull hs fun x hx => (tameParts x hx).1
  exact convertEntries_rests hrun proper element rfl hc
    (fun x hx => ⟨nearParts x hx, (tameParts x hx).2, (tameParts x hx).1⟩) empty h

theorem attributes_rest (hrun : run.Settles mode) {es targets : List (String × Ty)}
    {ps optional : List String} {parts entries : List (String × Value)} {types : String → Ty → Prop}
    (goal : Ty.Goal (.object es ps) (.object targets optional)) (hn : names targets = names es)
    (hp : ∀ name x s a t, (name, x) ∈ parts → types name s → (name, a) ∈ es → (name, t) ∈ targets →
      x.Near a t ∧ x.Tame ∧ x.ty = s)
    (hne : ∀ name, name ∈ names entries ↔ name ∈ names targets)
    (hv : ∀ name y t, (name, y) ∈ entries → (name, t) ∈ targets →
      Attribute run mode parts types name t y) :
    (Value.object entries).Rests (.object es ps) := by
  refine Value.rests_object goal.wanted.names_object (fun name => hn ▸ hne name)
    fun name y a hy ha => ?_
  obtain ⟨t, ht⟩ := exists_of_mem_names (hn ▸ mem_names ha)
  have onward := goal.ofAttribute ha ht
  rcases hv name y t hy ht with ⟨-, rfl⟩ | ⟨x, s, c, path, site, hx, hs, hc, ran⟩
  · exact .null (Ty.optionalFree_withoutOptional t)
      ((Ty.Fills.withoutOptional onward.target).trans onward.fills)
  · obtain ⟨near, tame, typed⟩ := hp name x s a t hx hs ha ht
    exact (hrun onward near tame (.planned (typed ▸ hc)) ran).rests

theorem object_rest (hrun : run.Settles mode) {sources targets absent : List (String × Ty)}
    {os optional : List String} {plans : List (String × Conversion)} (hs : v.ty = .object sources os)
    (plan : Conversion.ObjectPlan mode sources optional targets plans absent)
    (goal : Ty.Goal e (.object targets optional)) (open_ : e ≠ .dynamic)
    (near : v.Near e (.object targets optional)) (tame : v.Tame) (hd : v.Decided)
    (h : Rule.apply run (.object plans absent) (.object targets optional) v path site = .ok w) :
    w.Rests e := by
  obtain ⟨es, ps, rfl, hn⟩ := goal.eq_object open_
  obtain ⟨parts, rfl, rfl, proper, tameParts⟩ := tame.attributes hd hs
  obtain ⟨entries, rfl, hne, result⟩ := object_result plan (Value.names_entryTypes parts).symm proper
    goal.target.names_object.nodup h
  refine attributes_rest hrun goal hn (fun name x s a t hx hs ha ht => ⟨?_, ?_, ?_⟩) hne result
  · exact near.ofAttribute goal.wanted.names_object.nodup hx ha ht
  · exact tameParts x (mem_values hx)
  · have nodup : (names (Value.entryTypes parts)).Nodup := by
      rw [Value.names_entryTypes]
      exact proper.nodup
    exact eq_of_mem nodup (Value.mem_entryTypes.2 ⟨x, hx, rfl⟩) hs

theorem pick_rest (hrun : run.Settles .lenient) {s : Ty} {targets : List (String × Ty)}
    {optional : List String} {plans : List (String × Conversion)} (hs : v.ty = .map s)
    (plan : Paired (fun _ t c => Conversion.plan? .lenient s t = some c) targets plans)
    (goal : Ty.Goal e (.object targets optional)) (open_ : e ≠ .dynamic)
    (near : v.Near e (.object targets optional)) (tame : v.Tame) (hd : v.Decided)
    (h : Rule.apply run (.pick plans targets optional) (.object targets optional) v path site =
      .ok w) : w.Rests e := by
  obtain ⟨es, ps, rfl, hn⟩ := goal.eq_object open_
  obtain ⟨parts, rfl, proper, tameParts⟩ := tame.entries hd hs
  obtain ⟨entries, rfl, hne, result⟩ := pick_result plan proper goal.target.names_object.nodup h
  refine attributes_rest hrun goal hn (fun name x s' a t hx hs' ha ht => ⟨?_, ?_, ?_⟩) hne result
  · rcases near with same | ⟨keeps, -⟩
    · cases same
      exact .inl (eq_of_mem goal.wanted.names_object.nodup ha ht)
    · obtain ⟨ss, _, -, -, typed, -⟩ := keeps.of_object
      cases hs.symm.trans typed
  · exact (tameParts x (mem_values hx)).2
  · rw [hs']
    exact (tameParts x (mem_values hx)).1

theorem tuple_rest (hrun : run.Settles mode) {sources targets : List Ty} {plans : List Conversion}
    (hs : v.ty = .tuple sources) (hl : sources.length = targets.length)
    (plan : List.Forall₂ (fun p c => Conversion.plan? mode p.1 p.2 = some c) (sources.zip targets)
      plans) (goal : Ty.Goal e (.tuple targets)) (open_ : e ≠ .dynamic) (near : v.Near e (.tuple targets))
    (tame : v.Tame) (hd : v.Decided)
    (h : Rule.apply run (.tuple plans) (.tuple targets) v path site = .ok w) : w.Rests e := by
  obtain ⟨es, rfl, length⟩ := goal.eq_tuple open_
  obtain ⟨items, rfl, rfl, tameParts⟩ := tame.tuple hd hs
  obtain ⟨results, rfl, hn, result⟩ :=
    tuple_result hl plan (Value.length_types items).symm h
  refine .tuple (hn.trans length) fun i y a hy ha => ?_
  have lt : i < targets.length := length ▸ (List.getElem?_eq_some_iff.1 ha).1
  have ht := List.getElem?_eq_getElem lt
  obtain ⟨x, s, c, path, site, hx, hs, hc, ran⟩ := result i y _ hy ht
  rw [Value.types_eq_map, List.getElem?_map, hx, Option.map_some] at hs
  cases hs
  exact (hrun (goal.ofItem ha ht) (near.ofItem hx ha ht) (tameParts x (List.mem_of_getElem? hx))
    (.planned hc) ran).rests

/-- Parts that become elements are converted to the element type that is wanted, or any type will
do. -/
theorem Gathers.eq_wanted {sources : List Ty} {a : Ty} (h : Gathers mode sources t a)
    (open_ : t ≠ .dynamic) : a = t := by
  cases h with
  | wanted => rfl
  | common => exact absurd rfl open_

theorem gather_rest (hrun : run.Settles mode) {kind : CollectionKind} {sources : List Ty} {a : Ty}
    {plans : List Conversion} (hk : kind ≠ .map) (hs : v.ty = .tuple sources)
    (gathers : Gathers mode sources t a)
    (plan : List.Forall₂ (fun s c => Conversion.plan? mode s a = some c) sources plans)
    (goal : Ty.Goal t t) (tame : v.Tame) (hd : v.Decided)
    (h : Rule.apply run (.gather kind mode plans a) (kind.type t) v path site = .ok w) :
    w.Rests (kind.type t) := by
  obtain ⟨items, rfl, rfl, tameParts⟩ := tame.tuple hd hs
  rw [Rule.apply] at h
  obtain ⟨results, hc, h⟩ := bind_eq_ok h
  have runs := convertTuple_ok rfl hc
  rw [Value.map_snd_numbered] at runs
  have arrive : t = .dynamic ∨ ∀ y ∈ results, y.Arrives t t := by
    refine or_iff_not_imp_left.2 fun open_ y hy => ?_
    obtain rfl := gathers.eq_wanted open_
    obtain ⟨i, hi⟩ := List.mem_iff_getElem?.1 hy
    obtain ⟨x, c, hx, hc, path, site, ran⟩ := getElem?_of_zip runs hi
    have typed : (Value.types items)[i]? = some x.ty := by
      rw [Value.types_eq_map, List.getElem?_map, hx, Option.map_some]
    have hp := getElem?_of_forall₂ plan typed hc
    exact hrun goal (.inl rfl) (tameParts x (List.mem_of_getElem? hx)) (.planned hp) ran
  split at h
  · cases h
    refine Value.rests_emptyCollection kind ?_
    exact or_iff_not_imp_left.2 fun open_ => congrArg _ (gathers.eq_wanted open_)
  · rename_i some
    obtain ⟨zs, hz, h⟩ := bind_eq_ok h
    have hne : results ≠ [] := fun none => some (none ▸ rfl)
    refine Value.rests_collection hk (homogenize_rests hrun goal hne arrive hz) ?_
    split at h <;> rename_i hk
    · rw [if_pos hk]
      exact orFailure_eq_ok h
    · rw [if_neg hk]
      exact orFailure_eq_ok h

theorem entries_rest (hrun : run.Settles mode) {sources : List (String × Ty)} {os : List String}
    {a : Ty} {plans : List (String × Conversion)} (hne : sources ≠ []) (hs : v.ty = .object sources os)
    (gathers : Gathers mode (values sources) t a)
    (plan : Paired (fun _ s c => Conversion.plan? mode s a = some c) sources plans)
    (goal : Ty.Goal t t) (tame : v.Tame) (hd : v.Decided)
    (h : Rule.apply run (.entries mode plans) (.map t) v path site = .ok w) : w.Rests (.map t) := by
  obtain ⟨parts, rfl, rfl, proper, tameParts⟩ := tame.attributes hd hs
  rw [Rule.apply] at h
  obtain ⟨converted, hc, h⟩ := bind_eq_ok h
  obtain ⟨zs, hz, h⟩ := bind_eq_ok h
  have paired := convertNamed_ok (Value.namedElements_of_content proper.2 rfl) hc
  rw [covered_eq_self plan (Value.names_entryTypes parts).symm] at paired
  have arrive : t = .dynamic ∨ ∀ y ∈ values converted, y.Arrives t t := by
    refine or_iff_not_imp_left.2 fun open_ y hy => ?_
    obtain rfl := gathers.eq_wanted open_
    obtain ⟨name, hy⟩ := exists_of_mem_values hy
    obtain ⟨x, hx, c, path, site, hl, ran⟩ := paired.mem_right hy
    obtain ⟨s, hs, hp⟩ := plan.mem_right (mem_of_lookup hl)
    have nodup : (names (Value.entryTypes parts)).Nodup := by
      rw [Value.names_entryTypes]
      exact proper.nodup
    obtain rfl : x.ty = s := eq_of_mem nodup (Value.mem_entryTypes.2 ⟨x, hx, rfl⟩) hs
    exact hrun goal (.inl rfl) (tameParts x (mem_values hx)) (.planned hp) ran
  have some : values converted ≠ [] := fun none => by
    have eq := paired.names_eq
    rw [List.map_eq_nil_iff.1 none, ← Value.names_entryTypes] at eq
    exact hne (List.map_eq_nil_iff.1 eq)
  have hl : (names converted).length = zs.length := by
    rw [homogenize_length hz, names, values, List.length_map, List.length_map]
  refine Value.rests_map ?_ ?_ (orFailure_eq_ok h)
  · rwa [names_zip hl, ← paired.names_eq]
  · rw [values_zip hl]
    exact homogenize_rests hrun goal some arrive hz

omit [Host] in
/-- A target with closed variants is the type that is wanted. -/
theorem union_eq {targets : List (String × Ty)} (goal : Ty.Goal e (.union targets))
    (open_ : e ≠ .dynamic) : Ty.union targets = e := by
  have fills := goal.fills
  cases fills with
  | dynamic => exact absurd rfl open_
  | union hn parts => exact goal.closed.here.eq_of_fills (.union hn parts)

theorem convertVariant_rest {plans : List (String × Conversion)} {name : String} {part : Value}
    {complaint : Complaint}
    (h : convertVariant run plans e name part complaint path site = .ok w) : w.Rests e := by
  unfold convertVariant at h
  split at h
  · cases h
  · obtain ⟨y, -, h⟩ := bind_eq_ok h
    obtain ⟨variants, wanted, rfl, -, -, rfl⟩ := Value.eq_of_union_ok (orFailure_eq_ok h)
    exact .exact rfl rfl (by simp only [Value.bare, Value.ty])

theorem select_rest {targets : List (String × Ty)} {plans : List (String × Conversion)}
    (goal : Ty.Goal e (.union targets)) (open_ : e ≠ .dynamic)
    (h : Rule.apply run (.select plans) (.union targets) v path site = .ok w) : w.Rests e := by
  obtain rfl := union_eq goal open_
  rw [Rule.apply, convertSelection] at h
  obtain ⟨elements, -, h⟩ := bind_eq_ok h
  obtain ⟨selection, -, h⟩ := bind_eq_ok h
  cases selection with
  | undecided =>
    have free : (Ty.union targets).OptionalFree :=
      Ty.everywhere_union.2 ⟨rfl, fun u hu => (goal.closed.here targets rfl u hu).2⟩
    have h := orFailure_eq_ok h
    rw [Value.refineNotNull, Value.refine_unknown (by simp)] at h
    cases h
    exact .unknown free (.refl goal.wanted) rfl
  | variant name part => exact convertVariant_rest h

omit [Host] in
/-- Primitive results are known and of the target type. -/
theorem primitive_exact {s : Ty} {rule : PrimitiveRule} (fills : v.ty.Fills s) (hd : v.Decided)
    (hp : PrimitiveRule.between? mode s t = some rule) (h : rule.apply v path = .ok w) :
    w.isKnown = true ∧ w.isNull = false ∧ w.ty = t := by
  unfold PrimitiveRule.between? at hp
  split at hp
  · cases hp
    obtain ⟨n, rfl⟩ := hd.number fills
    cases h
    exact ⟨rfl, rfl, by simp only [Value.string, Value.bare, Value.ty]⟩
  · cases hp
    obtain ⟨b, rfl⟩ := hd.bool fills
    cases h
    exact ⟨rfl, rfl, by simp only [Value.string, Value.bare, Value.ty]⟩
  · split at hp <;> cases hp
    obtain ⟨text, rfl⟩ := hd.string fills
    change numberOfText text path = .ok w at h
    rw [numberOfText, Value.parseNumber] at h
    cases hn : Number.parse text with
    | error e =>
      rw [hn] at h
      cases e <;> cases h
    | ok n =>
      rw [hn] at h
      cases h
      exact ⟨rfl, rfl, by simp only [Value.number, Value.bare, Value.ty]⟩
  · split at hp <;> cases hp
    obtain ⟨text, rfl⟩ := hd.string fills
    change boolOfText text path = .ok w at h
    unfold boolOfText at h
    split at h
    · cases h
      exact ⟨rfl, rfl, by simp only [Value.bool, Value.bare, Value.ty]⟩
    split at h
    · cases h
      exact ⟨rfl, rfl, by simp only [Value.bool, Value.bare, Value.ty]⟩
    all_goals
      repeat' split at h
      all_goals cases h
  · cases hp

omit [Host] in
/-- Only itself is filled by a primitive type, unless any type will do. -/
theorem eq_of_primitive {s : Ty} {rule : PrimitiveRule}
    (hp : PrimitiveRule.between? mode s t = some rule) (fills : t.Fills e) (open_ : e ≠ .dynamic) :
    e = t := by
  unfold PrimitiveRule.between? at hp
  split at hp
  case h_5 => cases hp
  all_goals
    cases fills
    · exact absurd rfl open_
    · rfl

/-- A planned rule makes a value at rest, if the runs of parts do. -/
theorem Planned.rests (hrun : run.Settles mode) {rule : Rule Conversion} (h : Planned mode v.ty t rule)
    (goal : Ty.Goal e t) (open_ : e ≠ .dynamic) (near : v.Near e t) (tame : v.Tame) (hd : v.Decided)
    (hw : rule.apply run t v path site = .ok w) : w.Rests e := by
  have fills : v.ty.Fills v.ty := .refl (tame.within.wellFormed_ty Scope.closed_capsuleFree)
  have source := tame.sterile.free.here.here
  have target := goal.free.here
  generalize hs : v.ty = s at h fills source
  cases h with
  | toDynamic =>
    cases goal.fills
    exact absurd rfl open_
  | later => exact absurd hs hd.ty_ne_dynamic
  | same =>
    cases hw
    rcases near with rfl | ⟨-, home⟩
    · exact .exact hd.known hd.notNull hs
    · rcases home with home | home
      · exact home
      · exact .exact hd.known hd.notNull home
  | object plan => exact object_rest hrun hs plan goal open_ near tame hd hw
  | tuple hl plan => exact tuple_rest hrun hs hl plan goal open_ near tame hd hw
  | @items source wanted s kind c hk from_ hc =>
    obtain ⟨a, rfl⟩ := goal.eq_collection open_
    exact items_rest hrun hk (by rwa [hs]) hc goal near tame hd hw
  | @mapItems wanted s c hc =>
    obtain ⟨a, rfl⟩ := @Ty.Goal.eq_collection _ _ .map goal open_
    exact mapItems_rest hrun hs hc goal near tame hd hw
  | @gather sources wanted a kind plans hk gathers plan =>
    obtain rfl := near.eq_of_reshaped goal open_ fun s => by
      rw [hs]
      cases kind <;> simp [CollectionKind.type]
    exact gather_rest hrun hk hs gathers plan goal.element tame hd hw
  | @emptyMap os wanted =>
    obtain rfl := @Value.Near.eq_of_reshaped _ _ _ _ .map near goal open_ fun s => by
      rw [hs]
      simp [CollectionKind.type]
    cases hw
    exact .map (fun _ => .inr rfl) (by simp)
  | @entries sources os wanted a plans hne gathers plan =>
    obtain rfl := @Value.Near.eq_of_reshaped _ _ _ _ .map near goal open_ fun s => by
      rw [hs]
      simp [CollectionKind.type]
    exact entries_rest hrun hne hs gathers plan (@Ty.Goal.element _ _ .map goal) tame hd hw
  | @pick s targets optional plans hm plan =>
    subst hm
    exact pick_rest hrun hs plan goal open_ near tame hd hw
  | union plan =>
    obtain rfl := union_eq goal open_
    rw [Rule.apply] at hw
    obtain ⟨⟨name, part⟩, -, hw⟩ := bind_eq_ok hw
    exact convertVariant_rest hw
  | select => exact select_rest goal open_ hw
  | primitive hp =>
    obtain ⟨known, notNull, typed⟩ := primitive_exact (hs.symm ▸ fills) hd hp hw
    exact .exact known notNull (typed.trans (eq_of_primitive hp goal.fills open_).symm)
  | ofCapsules _ capsule =>
    rcases capsule with capsule | capsule
    · rw [source] at capsule
      cases capsule
    · rw [target] at capsule
      cases capsule

end Rule

/-! ## Unknowns -/

/-- What an empty structure becomes tells nothing of elements. -/
theorem Ty.converted_collection_of_empty {kind : CollectionKind} {s a : Ty}
    (none : s = .tuple [] ∨ ∃ os, s = .object [] os) :
    s.converted (kind.type a) = kind.type a.withoutOptional := by
  rcases none with rfl | ⟨os, rfl⟩ <;> cases kind <;>
    simp [converted, CollectionKind.type, filledFrom, itemSource, entrySource, values,
      Ty.common_nil, filledFrom_dynamic, withoutOptional]

/-- Converted unknowns are at rest. -/
theorem Value.convertUnknown_rests {s : Ty} {r : Refinement} (goal : Ty.Goal e t)
    (near : (bare (.unknown s r)).Near e t) (made : (bare (.unknown s r)).WellMade)
    (h : (bare (.unknown s r)).convertUnknown t = .ok w) : w.Rests e := by
  by_cases open_ : e = .dynamic
  · exact open_ ▸ .dynamic _
  have free : (s.converted t).OptionalFree := Ty.optionalFree_withoutOptional _
  have fills : (s.converted t).Fills e := (Ty.filledFrom_fills goal.target _).trans goal.fills
  have outcome := outcome_convertUnknown made h
  generalize hu : s.converted t = u at outcome free fills
  -- the elements that come of an unknown are unknown themselves
  have part {a b : Ty} (free : a.OptionalFree) (fills : a.Fills b) : (Value.unknown a).Rests b :=
    .unknown free fills (Refinement.kept_unconstrained _)
  cases outcome with
  | told kept => exact .unknown free fills kept
  | @list a n eq some =>
    subst eq
    cases fills with
    | dynamic => exact absurd rfl open_
    | list fills =>
      refine .list (fun none => absurd ((List.replicate_eq_nil_iff _).1 none) some) fun x hx => ?_
      rw [List.eq_of_mem_replicate hx]
      exact part (Ty.everywhere_list.1 free).2 fills
  | @set a eq =>
    subst eq
    cases fills with
    | dynamic => exact absurd rfl open_
    | set fills =>
      refine .set nofun (fun x hx => ?_) (listed_only (.set a))
      rw [List.mem_singleton.1 hx]
      exact part (Ty.everywhere_set.1 free).2 fills
  | @empty kind a eq none =>
    obtain ⟨b, rfl⟩ : ∃ b, e = kind.type b := by
      subst eq
      cases kind <;> cases fills <;> first | exact absurd rfl open_ | exact ⟨_, rfl⟩
    rcases near with rfl | ⟨keeps, -⟩
    · rw [Ty.converted_collection_of_empty none, eq] at hu
      obtain ⟨-, rfl⟩ := Conversion.collection_injective hu
      exact EmptyAs.rests kind (.inr rfl)
    · -- an empty structure is no collection
      obtain ⟨c, -, typed, -⟩ := keeps.of_collection
      simp only [bare, ty] at typed
      rcases none with rfl | ⟨os, rfl⟩ <;> cases kind <;> cases typed

/-! ## Runs -/

namespace Conversion

/-- One step of a run arrives at rest, if the runs of parts do. -/
theorem runWith_rests (hrun : run.Settles mode) {c : Conversion} (goal : Ty.Goal e t)
    (near : v.Near e t) (tame : v.Tame) (hc : Conversion.Leads mode v.ty t c)
    (hw : c.runWith run v path site = .ok w) : w.Rests e := by
  by_cases open_ : e = .dynamic
  · exact open_ ▸ .dynamic _
  have closed : t ≠ .dynamic := fun eq => by
    have fills := goal.fills
    rw [eq] at fills
    cases fills
    exact open_ rfl
  cases hc with
  | forget ht => exact absurd ht closed
  | planned hp =>
    obtain ⟨rule, rfl, planned⟩ := planned_of_plan? hp
    cases known : v.isKnown with
    | false =>
      rw [runWith_unknown closed known] at hw
      obtain ⟨x, hx, rfl⟩ := map_eq_ok hw
      obtain ⟨r, hr⟩ := Value.unmark_of_unknown known
      have hx := orFailure_eq_ok hx
      rw [hr] at hx
      exact (Value.convertUnknown_rests goal (hr ▸ near.unmark)
        (hr ▸ tame.unmark.sterile.wellMade) hx).withMarks _
    | true =>
      cases null : v.isNull with
      | true =>
        rw [runWith_null closed null] at hw
        cases hw
        exact .null (Ty.optionalFree_withoutOptional _)
          ((Ty.filledFrom_fills goal.target _).trans goal.fills)
      | false =>
        rw [runWith_decided closed known null] at hw
        obtain ⟨x, hx, rfl⟩ := map_eq_ok hw
        have hd := Value.decided_unmark known null
        have planned : Rule.Planned mode v.unmark.ty t rule := by rwa [Value.ty_unmark]
        rcases Rule.applyDecided_ok hx with ⟨-, hx⟩ | ⟨rfl, -⟩
        · exact (planned.rests hrun goal open_ near.unmark tame.unmark hd hx).withMarks _
        · have source := tame.unmark.sterile.free.here.here
          have target := goal.free.here
          refine absurd rfl (planned.ne_decideLater hd.ty_ne_dynamic ?_)
          rintro (capsule | capsule)
          · rw [source] at capsule
            cases capsule
          · rw [target] at capsule
            cases capsule

/-- A run toward the target arrives at rest for the wanted type. -/
theorem run_arrives {c : Conversion} (goal : Ty.Goal e t) (near : v.Near e t) (tame : v.Tame)
    (hc : Conversion.Leads mode v.ty t c) (hw : c.run v path site = .ok w) : w.Arrives e t := by
  induction hn : v.height using Nat.strong_induction_on generalizing e t v c path site w with
  | _ n ih =>
    subst hn
    have source := tame.within.ty Scope.closed_capsuleFree
    have lands := run_lands Scope.closed_capsuleFree (fun _ => Scope.noCapsule_capsuleFree) hc source
      (goal.target.aims goal.free) tame.within
      (.refl (tame.within.wellFormed_ty Scope.closed_capsuleFree)) hw
    have sterile := run_sterile ⟨mode, v.ty, t, hc, tame.sterile.free.here, goal.free⟩ tame.sterile hw
    refine ⟨⟨lands.within, sterile⟩, ?_, lands.fills⟩
    rw [run_eq] at hw
    refine runWith_rests (fun goal near tame hc hw => ?_) goal near tame hc hw
    obtain ⟨lower, hw⟩ := runPart_ok hw
    exact ih _ lower goal near tame hc hw rfl

end Conversion

end ValueAlgebra
