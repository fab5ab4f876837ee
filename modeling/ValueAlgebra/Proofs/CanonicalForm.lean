import Mathlib
import ValueAlgebra.Text.Normalize

/-!
# The canonical form of a canonical form

A text in canonical composed form is its own canonical form. What is composed comes apart again into
what it was composed of: each character that two characters compose to comes apart into what the two
come apart into, and a mark that is composed past others belongs before them in the order of marks.

That characters come apart in this way is a matter of the tables. They are read once by a check of
all their rows (`Row.check`), and what it promises is stated for rows in general (`Row.Sound`).

Main statements:

* `Row.sound_table`: what the tables promise.
* `decomposition_of_compose?`: what is composed comes apart again.
* `sortMarks_parts_compose`: taking a composed text apart gives back what was composed.
* `normalize_normalize`: canonical forms are canonical.
-/

namespace ValueAlgebra.Text

/-! ## Sorting marks -/

/-- Each mark has at least the class of the character before it. The first number is the class
before the first character. -/
def InOrder : Nat → List (Char × Nat) → Prop
  | _, [] => True
  | low, c :: cs => (c.2 = 0 ∨ low ≤ c.2) ∧ InOrder c.2 cs

section

variable {low low' : Nat} {c m n : Char × Nat} {cs run kept xs ys : List (Char × Nat)}

theorem InOrder.mono (h : InOrder low cs) (le : low' ≤ low) : InOrder low' cs := by
  cases cs with
  | nil => trivial
  | cons c cs => exact ⟨h.1.imp_right (Nat.le_trans le), h.2⟩

theorem InOrder.insertMark (h : InOrder low run) (le : low ≤ c.2) :
    InOrder low (insertMark c run) := by
  induction run generalizing low with
  | nil => exact ⟨.inr le, trivial⟩
  | cons n run ih =>
    unfold Text.insertMark
    split
    · rename_i below
      exact ⟨h.1, ih h.2 below⟩
    · rename_i above
      exact ⟨.inr le, .inr (by omega), h.2⟩

theorem InOrder.append_starter (h : InOrder low run) (starter : c.2 = 0) (rest : InOrder 0 cs) :
    InOrder low (run ++ c :: cs) := by
  induction run generalizing low with
  | nil => exact ⟨.inl starter, starter ▸ rest⟩
  | cons n run ih => exact ⟨h.1, ih h.2⟩

theorem inOrder_sortMarks (h : InOrder 0 run) (cs : List (Char × Nat)) :
    InOrder 0 (sortMarks run cs) := by
  induction cs generalizing run with
  | nil => exact h
  | cons c cs ih =>
    unfold sortMarks
    split
    · rename_i starter
      exact h.append_starter starter (ih trivial)
    · exact ih (h.insertMark (Nat.zero_le _))

theorem insertMark_of_le (h : ∀ m ∈ run, m.2 ≤ c.2) : insertMark c run = run ++ [c] := by
  induction run with
  | nil => rfl
  | cons m run ih =>
    rw [insertMark, if_pos (h m List.mem_cons_self), ih fun n hn => h n (List.mem_cons_of_mem _ hn)]
    rfl

/-- Marks that are in order stay as they are. -/
theorem sortMarks_of_inOrder (hr : ∀ m ∈ run, m.2 ≤ low) (h : InOrder low cs) :
    sortMarks run cs = run ++ cs := by
  induction cs generalizing run low with
  | nil => simp [sortMarks]
  | cons c cs ih =>
    unfold sortMarks
    split
    · rw [ih (List.forall_mem_nil _) h.2, List.nil_append]
    · rename_i mark
      have le : low ≤ c.2 := h.1.resolve_left mark
      have below : ∀ m ∈ run, m.2 ≤ c.2 := fun m hm => Nat.le_trans (hr m hm) le
      rw [insertMark_of_le below, ih _ h.2, List.append_assoc, List.singleton_append]
      intro m hm
      rcases List.mem_append.1 hm with hm | hm
      · exact below m hm
      · rw [List.mem_singleton.1 hm]

theorem insertMark_comm (h : m.2 ≠ n.2) (run : List (Char × Nat)) :
    insertMark m (insertMark n run) = insertMark n (insertMark m run) := by
  induction run with
  | nil =>
    simp only [insertMark]
    split <;> split <;> first | rfl | omega
  | cons x run ih =>
    by_cases hm : x.2 ≤ m.2 <;> by_cases hn : x.2 ≤ n.2 <;> by_cases hmn : m.2 ≤ n.2 <;>
      by_cases hnm : n.2 ≤ m.2 <;>
      first | omega | simp [insertMark, hm, hn, hmn, hnm, ih]

/-- A mark can change places with marks of lower classes before the marks are sorted. -/
theorem sortMarks_move (hk : ∀ k ∈ kept, k.2 ≠ 0 ∧ k.2 < c.2) (run rest : List (Char × Nat)) :
    sortMarks run (c :: (kept ++ rest)) = sortMarks run (kept ++ c :: rest) := by
  induction kept generalizing run with
  | nil => rfl
  | cons k kept ih =>
    obtain ⟨mark, lt⟩ := hk k List.mem_cons_self
    have ih := ih fun k' hk' => hk k' (List.mem_cons_of_mem _ hk')
    have mark' : c.2 ≠ 0 := by omega
    have step := ih (insertMark k run)
    rw [sortMarks, if_neg mark'] at step
    rw [List.cons_append, List.cons_append, sortMarks, if_neg mark', sortMarks, if_neg mark,
      sortMarks, if_neg mark, ← step, insertMark_comm (Nat.ne_of_lt lt)]

/-- What is sorted alike is sorted alike behind other characters. -/
theorem sortMarks_append_congr (h : ∀ run, sortMarks run xs = sortMarks run ys)
    (before run : List (Char × Nat)) :
    sortMarks run (before ++ xs) = sortMarks run (before ++ ys) := by
  induction before generalizing run with
  | nil => exact h run
  | cons b before ih => simp only [List.cons_append, sortMarks, ih]

end

/-! ## Rows of the tables -/

/-- A code point with the code points that its character comes apart into. -/
abbrev Row := Nat × List Nat

namespace Row

/-- The rows of the three tables, in the order in which they are looked through. -/
def rows (single : List (Nat × Nat)) (composed decomposed : List (Nat × Nat × Nat)) : List Row :=
  single.map (fun r => (r.1, [r.2])) ++ (composed ++ decomposed).map fun r => (r.1, [r.2.1, r.2.2])

/-- The code points of characters. -/
def isScalar (n : Nat) : Bool :=
  n < 0xD800 || (0xDFFF < n && n < 0x110000)

/-- The code points of Hangul syllables. -/
def isSyllable (n : Nat) : Bool :=
  0xAC00 ≤ n && n < 0xAC00 + 11172

/-- The code points of the letters that make up Hangul syllables. -/
def isLetter (n : Nat) : Bool :=
  (0x1100 ≤ n && n < 0x1100 + 19) || (0x1161 ≤ n && n < 0x1161 + 21) ||
    (0x11A7 < n && n < 0x11A7 + 28)

/-- A number with a bit for each number of a list. -/
def bits : List Nat → Nat
  | [] => 0
  | n :: ns => bits ns ||| 1 <<< n

/-- Whether all numbers are different. -/
def distinct : List Nat → Bool
  | [] => true
  | n :: ns => !(bits ns).testBit n && distinct ns

/-- The rows with a part that is the character of a row too. -/
def descend (rs : List Row) : List Row :=
  rs.filter fun r => r.2.any (bits (rs.map (·.1))).testBit

/-- The check of a single row. -/
def checkRow (r : Row) : Bool :=
  0xC0 ≤ r.1 && isScalar r.1 && !isSyllable r.1 && !isLetter r.1 &&
    r.2.all fun n => isScalar n && !isSyllable n

/-- The check of all rows: no character has two rows, and none comes apart in more than four
steps. -/
def check (rs : List Row) : Bool :=
  rs.all checkRow && distinct (rs.map (·.1)) &&
    (descend (descend (descend (descend rs)))).isEmpty

/-! ### What the check promises -/

theorem testBit_bits {ns : List Nat} {n : Nat} : (bits ns).testBit n = true ↔ n ∈ ns := by
  induction ns with
  | nil => simp [bits]
  | cons m ns ih =>
    have one : (1 <<< m).testBit n = decide (m = n) := by
      rw [Nat.one_shiftLeft, Nat.testBit_two_pow]
    rw [bits, Nat.testBit_or, Bool.or_eq_true, ih, one, decide_eq_true_eq, List.mem_cons, or_comm,
      eq_comm]

theorem nodup_of_distinct {ns : List Nat} (h : distinct ns = true) : ns.Nodup := by
  induction ns with
  | nil => exact List.nodup_nil
  | cons n ns ih =>
    rw [distinct, Bool.and_eq_true, Bool.not_eq_true', ← Bool.not_eq_true, testBit_bits] at h
    exact List.nodup_cons.2 ⟨h.1, ih h.2⟩

theorem mem_descend {rs : List Row} {r : Row} :
    r ∈ descend rs ↔ r ∈ rs ∧ ∃ n ∈ r.2, n ∈ rs.map (·.1) := by
  simp only [descend, List.mem_filter, List.any_eq_true, testBit_bits]

/-- The character of a code point comes apart in at most so many steps. -/
def Within (rs : List Row) : Nat → Nat → Prop
  | 0, n => ∀ r ∈ rs, r.1 ≠ n
  | steps + 1, n => ∀ r ∈ rs, r.1 = n → ∀ p ∈ r.2, Within rs steps p

theorem Within.succ {rs : List Row} {steps n : Nat} (h : Within rs steps n) :
    Within rs (steps + 1) n := by
  induction steps generalizing n with
  | zero => exact fun r hr hn => absurd hn (h r hr)
  | succ steps ih => exact fun r hr hn p hp => ih (h r hr hn p hp)

theorem within_of_not_mem_descend {rs : List Row} {r : Row} (hr : r ∈ rs) (h : r ∉ descend rs) :
    ∀ p ∈ r.2, Within rs 0 p := fun p hp r' hr' hn =>
  h (mem_descend.2 ⟨hr, p, hp, List.mem_map.2 ⟨r', hr', hn⟩⟩)

/-- A row that is left out only later comes apart in one more step. -/
theorem within_succ_of_not_mem_descend {rs left : List Row} {steps : Nat}
    (h : ∀ r ∈ rs, r ∉ left → ∀ p ∈ r.2, Within rs steps p) :
    ∀ r ∈ rs, r ∉ descend left → ∀ p ∈ r.2, Within rs (steps + 1) p := by
  intro r hr out p hp
  by_cases inside : r ∈ left
  · intro r' hr' hn
    refine h r' hr' fun inside' => out (mem_descend.2 ⟨inside, p, hp, ?_⟩)
    exact List.mem_map.2 ⟨r', inside', hn⟩
  · exact (h r hr inside p hp).succ

/-- What the rows of the tables promise. -/
structure Sound (rs : List Row) : Prop where
  key : ∀ r ∈ rs, 0xC0 ≤ r.1 ∧ isScalar r.1 = true ∧ isSyllable r.1 = false ∧ isLetter r.1 = false
  part : ∀ r ∈ rs, ∀ p ∈ r.2, isScalar p = true ∧ isSyllable p = false
  nodup : (rs.map (·.1)).Nodup
  within : ∀ r ∈ rs, ∀ p ∈ r.2, Within rs 3 p

theorem sound_of_check {rs : List Row} (h : check rs = true) : Sound rs := by
  rw [check, Bool.and_eq_true, Bool.and_eq_true, List.all_eq_true, List.isEmpty_iff] at h
  obtain ⟨⟨each, different⟩, none⟩ := h
  have each : ∀ r ∈ rs, ((((0xC0 ≤ r.1 ∧ isScalar r.1 = true) ∧ isSyllable r.1 = false) ∧
      isLetter r.1 = false) ∧ ∀ p ∈ r.2, isScalar p = true ∧ isSyllable p = false) := by
    simpa only [checkRow, Bool.and_eq_true, Bool.not_eq_true', decide_eq_true_eq,
      List.all_eq_true] using each
  refine ⟨fun r hr => ?_, fun r hr => (each r hr).2, nodup_of_distinct different, fun r hr => ?_⟩
  · obtain ⟨⟨⟨⟨low, scalar⟩, syllable⟩, letter⟩, -⟩ := each r hr
    exact ⟨low, scalar, syllable, letter⟩
  have one := fun r (hr : r ∈ rs) => within_of_not_mem_descend hr
  have two := within_succ_of_not_mem_descend one
  have three := within_succ_of_not_mem_descend two
  have four := within_succ_of_not_mem_descend three
  exact four r hr (none ▸ List.not_mem_nil)

/-! ### The tables -/

/-- The rows of the tables that characters are taken apart by. -/
def table : List Row :=
  rows singletons composites onlyDecomposed

theorem hexWords_ofList (cs : List Char) : hexWords (String.ofList cs) = hexWords.go none cs := by
  rw [hexWords, String.toList_ofList]

/-- Tables are read character by character. -/
theorem check_ofList {a b c : List Char} (h : check (rows (pairs (hexWords.go none a))
      (triples (hexWords.go none b)) (triples (hexWords.go none c))) = true) :
    check (rows (pairs (hexWords (String.ofList a))) (triples (hexWords (String.ofList b)))
      (triples (hexWords (String.ofList c)))) = true := by
  rw [hexWords_ofList, hexWords_ofList, hexWords_ofList]
  exact h

set_option maxRecDepth 200000 in
theorem check_table : check table = true := by
  unfold table singletons composites onlyDecomposed
  apply check_ofList
  decide +kernel

theorem sound_table : Sound table :=
  sound_of_check check_table

attribute [irreducible] table

end Row

/-! ## Taking characters apart -/

open Row

variable {a b c d : Char} {steps : Nat}

theorem splitBy_eq (single : List (Nat × Nat)) (composed decomposed : List (Nat × Nat × Nat))
    (c : Char) : splitBy single composed decomposed c =
      ((rows single composed decomposed).find? (·.1 == c.toNat)).map
        fun r => r.2.map Char.ofNat := by
  rw [rows, List.find?_append, List.find?_map, List.find?_map, List.find?_append, splitBy]
  change _ = (((single.find? (·.1 == c.toNat)).map _).or
    (((composed.find? (·.1 == c.toNat)).or (decomposed.find? (·.1 == c.toNat))).map _)).map _
  cases single.find? (·.1 == c.toNat) with
  | some r => rfl
  | none =>
    cases (composed.find? (·.1 == c.toNat)).or (decomposed.find? (·.1 == c.toNat)) <;> rfl

theorem split?_eq (c : Char) :
    split? c = (table.find? (·.1 == c.toNat)).map fun r => r.2.map Char.ofNat := by
  rw [split?, splitBy_eq, table]

theorem toNat_ofNat {n : Nat} (h : isScalar n = true) : (Char.ofNat n).toNat = n := by
  have valid : n.isValidChar := by
    simp only [isScalar, Bool.or_eq_true, Bool.and_eq_true, decide_eq_true_eq] at h
    exact h
  rw [Char.ofNat, dif_pos valid]
  rfl

/-- What a character comes apart into stands in its row. -/
theorem split?_eq_some {ps : List Char} (h : split? c = some ps) :
    ∃ r ∈ table, r.1 = c.toNat ∧ ps = r.2.map Char.ofNat := by
  rw [split?_eq, Option.map_eq_some_iff] at h
  obtain ⟨r, found, rfl⟩ := h
  have key := List.find?_some found
  exact ⟨r, List.mem_of_find?_eq_some found, beq_iff_eq.1 key, rfl⟩

theorem split?_of_mem {r : Row} (hr : r ∈ table) (hc : r.1 = c.toNat) :
    split? c = some (r.2.map Char.ofNat) := by
  rw [split?_eq]
  cases found : table.find? (·.1 == c.toNat) with
  | none => exact absurd (beq_iff_eq.2 hc) (List.find?_eq_none.1 found r hr)
  | some r' =>
    have key := List.find?_some found
    rw [beq_iff_eq, ← hc] at key
    rw [List.inj_on_of_nodup_map sound_table.nodup (List.mem_of_find?_eq_some found) hr key]
    rfl

theorem split?_eq_none (h : ∀ r ∈ table, r.1 ≠ c.toNat) : split? c = none := by
  cases found : split? c with
  | none => rfl
  | some ps =>
    obtain ⟨r, hr, hc, -⟩ := split?_eq_some found
    exact absurd hc (h r hr)

/-- A character that no table takes apart and that is no syllable. -/
def Whole (c : Char) : Prop :=
  split? c = none ∧ isSyllable c.toNat = false

theorem hangulLetters?_eq_none (h : isSyllable c.toNat = false) : hangulLetters? c = none := by
  have out : ¬(0xAC00 ≤ c.toNat ∧ c.toNat < 0xAC00 + 11172) := by
    rw [isSyllable, Bool.and_eq_false_imp, decide_eq_true_eq, decide_eq_false_iff_not] at h
    exact fun inside => h inside.1 inside.2
  exact if_neg out

theorem split?_eq_none_of_lt (h : c.toNat < 0xC0) : split? c = none :=
  split?_eq_none fun r hr eq => absurd (sound_table.key r hr).1 (by omega)

theorem whole_of_isLetter (h : isLetter c.toNat = true) : Whole c := by
  refine ⟨split?_eq_none fun r hr eq => ?_, ?_⟩
  · have letter := (sound_table.key r hr).2.2.2
    rw [eq, h] at letter
    cases letter
  · simp only [isLetter, Bool.or_eq_true, Bool.and_eq_true, decide_eq_true_eq] at h
    rw [isSyllable, Bool.and_eq_false_imp, decide_eq_true_eq, decide_eq_false_iff_not]
    omega

theorem takeApart_of_none (h : split? c = none) (steps : Nat) :
    takeApart split? steps c = [c] := by
  cases steps with
  | zero => rfl
  | succ steps => rw [takeApart, h]

/-- Apart from syllables, characters are taken apart by the tables. -/
theorem decomposition_of_not_isSyllable (h : isSyllable c.toNat = false) :
    decomposition c = takeApart split? 4 c := by
  unfold decomposition
  split
  · rename_i lt
    rw [takeApart_of_none (split?_eq_none_of_lt lt)]
  · rw [hangulLetters?_eq_none h, Option.getD_none]

theorem Whole.decomposition (h : Whole c) : decomposition c = [c] := by
  rw [decomposition_of_not_isSyllable h.2, takeApart_of_none h.1]

theorem takeApart_succ (h : Within table steps c.toNat) :
    takeApart split? (steps + 1) c = takeApart split? steps c := by
  induction steps generalizing c with
  | zero => exact takeApart_of_none (split?_eq_none h) 1
  | succ steps ih =>
    rw [takeApart]
    conv_rhs => rw [takeApart]
    cases found : split? c with
    | none => rfl
    | some ps =>
      obtain ⟨r, hr, key, rfl⟩ := split?_eq_some found
      simp only [List.flatMap_map]
      refine List.flatMap_congr fun p hp => ih ?_
      rw [toNat_ofNat (sound_table.part r hr p hp).1]
      exact h r hr key p hp

theorem whole_of_mem_takeApart (within : Within table steps c.toNat)
    (plain : isSyllable c.toNat = false) (h : d ∈ takeApart split? steps c) : Whole d := by
  induction steps generalizing c with
  | zero =>
    cases List.mem_singleton.1 h
    exact ⟨split?_eq_none within, plain⟩
  | succ steps ih =>
    rw [takeApart] at h
    cases found : split? c with
    | none =>
      rw [found] at h
      cases List.mem_singleton.1 h
      exact ⟨found, plain⟩
    | some ps =>
      obtain ⟨r, hr, key, rfl⟩ := split?_eq_some found
      rw [found] at h
      obtain ⟨e, he, hd⟩ := List.mem_flatMap.1 h
      obtain ⟨p, hp, rfl⟩ := List.mem_map.1 he
      obtain ⟨scalar, part⟩ := sound_table.part r hr p hp
      refine ih ?_ ?_ hd
      · rw [toNat_ofNat scalar]
        exact within r hr key p hp
      · rw [toNat_ofNat scalar]
        exact part

/-! ### Syllables -/

/-- The letters of a syllable, of which the last one may be missing. -/
def syllableLetters (l v t : Nat) : List Char :=
  [Char.ofNat (0x1100 + l), Char.ofNat (0x1161 + v)] ++
    if t = 0 then [] else [Char.ofNat (0x11A7 + t)]

theorem decomposition_syllable {l v t : Nat} (hl : l < 19) (hv : v < 21) (ht : t < 28)
    (h : c.toNat = 0xAC00 + (l * 21 + v) * 28 + t) : decomposition c = syllableLetters l v t := by
  have inside : 0xAC00 ≤ c.toNat ∧ c.toNat < 0xAC00 + 11172 := by omega
  have leading : (c.toNat - 0xAC00) / 588 = l := by omega
  have vowel : (c.toNat - 0xAC00) % 588 / 28 = v := by omega
  have trailing : (c.toNat - 0xAC00) % 28 = t := by omega
  have letters : hangulLetters? c = some (if (c.toNat - 0xAC00) % 28 = 0 then
      [Char.ofNat (0x1100 + (c.toNat - 0xAC00) / 588),
        Char.ofNat (0x1161 + (c.toNat - 0xAC00) % 588 / 28)]
    else [Char.ofNat (0x1100 + (c.toNat - 0xAC00) / 588),
        Char.ofNat (0x1161 + (c.toNat - 0xAC00) % 588 / 28)] ++
          [Char.ofNat (0x11A7 + (c.toNat - 0xAC00) % 28)]) := if_pos inside
  rw [decomposition, if_neg (by omega), letters, leading, vowel, trailing, Option.getD_some,
    syllableLetters]
  split <;> rfl

theorem exists_of_isSyllable {n : Nat} (h : isSyllable n = true) :
    ∃ l v t, l < 19 ∧ v < 21 ∧ t < 28 ∧ n = 0xAC00 + (l * 21 + v) * 28 + t := by
  simp only [isSyllable, Bool.and_eq_true, decide_eq_true_eq] at h
  exact ⟨(n - 0xAC00) / 588, (n - 0xAC00) % 588 / 28, (n - 0xAC00) % 28, by omega, by omega,
    by omega, by omega⟩

theorem isLetter_iff {n : Nat} : isLetter n = true ↔ (0x1100 ≤ n ∧ n < 0x1100 + 19) ∨
    (0x1161 ≤ n ∧ n < 0x1161 + 21) ∨ 0x11A7 < n ∧ n < 0x11A7 + 28 := by
  simp only [isLetter, Bool.or_eq_true, Bool.and_eq_true, decide_eq_true_eq, or_assoc]

theorem whole_ofNat_letter {n : Nat} (h : isLetter n = true) : Whole (Char.ofNat n) := by
  refine whole_of_isLetter ?_
  rw [toNat_ofNat]
  · exact h
  · rw [isLetter_iff] at h
    rw [isScalar, Bool.or_eq_true, decide_eq_true_eq]
    omega

theorem whole_of_mem_syllableLetters {l v t : Nat} (hl : l < 19) (hv : v < 21) (ht : t < 28)
    (h : d ∈ syllableLetters l v t) : Whole d := by
  rw [syllableLetters, List.mem_append, List.mem_cons, List.mem_singleton] at h
  rcases h with (rfl | rfl) | h
  · exact whole_ofNat_letter (isLetter_iff.2 (by omega))
  · exact whole_ofNat_letter (isLetter_iff.2 (by omega))
  · split at h
    · cases h
    · rw [List.mem_singleton.1 h]
      exact whole_ofNat_letter (isLetter_iff.2 (by omega))

/-- No character comes apart in more than four steps. -/
theorem within_four (n : Nat) : Within table 4 n :=
  fun r hr _ p hp => sound_table.within r hr p hp

/-- What characters come apart into does not come apart. -/
theorem whole_of_mem_decomposition (h : d ∈ decomposition c) : Whole d := by
  cases syllable : isSyllable c.toNat with
  | false =>
    rw [decomposition_of_not_isSyllable syllable] at h
    exact whole_of_mem_takeApart (within_four _) syllable h
  | true =>
    obtain ⟨l, v, t, hl, hv, ht, eq⟩ := exists_of_isSyllable syllable
    rw [decomposition_syllable hl hv ht eq] at h
    exact whole_of_mem_syllableLetters hl hv ht h

/-! ### What is composed comes apart again -/

/-- The syllable of a leading consonant and a vowel, or of such a syllable and a trailing
consonant, comes apart into its letters. -/
theorem decomposition_of_hangulSyllable? (h : hangulSyllable? a b = some c) :
    decomposition c = decomposition a ++ decomposition b := by
  change (if 0x1100 ≤ a.toNat ∧ a.toNat < 0x1100 + 19 ∧ 0x1161 ≤ b.toNat ∧ b.toNat < 0x1161 + 21
    then some (Char.ofNat (0xAC00 + ((a.toNat - 0x1100) * 21 + (b.toNat - 0x1161)) * 28))
    else if 0xAC00 ≤ a.toNat ∧ a.toNat < 0xAC00 + 11172 ∧ (a.toNat - 0xAC00) % 28 = 0 ∧
      0x11A7 < b.toNat ∧ b.toNat < 0x11A7 + 28 then
      some (Char.ofNat (a.toNat + (b.toNat - 0x11A7))) else none) = some c at h
  have scalar {n : Nat} (hn : 0xAC00 ≤ n ∧ n < 0xAC00 + 11172) : isScalar n = true := by
    rw [isScalar, Bool.or_eq_true, decide_eq_true_eq]
    omega
  split at h
  · obtain rfl := Option.some.inj h
    have whole_a : Whole a := whole_of_isLetter (isLetter_iff.2 (by omega))
    have whole_b : Whole b := whole_of_isLetter (isLetter_iff.2 (by omega))
    have left : 0x1100 + (a.toNat - 0x1100) = a.toNat := by omega
    have right : 0x1161 + (b.toNat - 0x1161) = b.toNat := by omega
    have value : (Char.ofNat (0xAC00 + ((a.toNat - 0x1100) * 21 + (b.toNat - 0x1161)) * 28)).toNat =
        0xAC00 + ((a.toNat - 0x1100) * 21 + (b.toNat - 0x1161)) * 28 + 0 := by
      rw [toNat_ofNat (scalar (by omega)), Nat.add_zero]
    rw [whole_a.decomposition, whole_b.decomposition,
      decomposition_syllable (by omega) (by omega) (by omega) value, syllableLetters, left, right,
      Char.ofNat_toNat, Char.ofNat_toNat]
    rfl
  split at h
  · obtain rfl := Option.some.inj h
    have syllable : isSyllable a.toNat = true := by
      rw [isSyllable, Bool.and_eq_true, decide_eq_true_eq, decide_eq_true_eq]
      omega
    obtain ⟨l, v, t, hl, hv, ht, eq⟩ := exists_of_isSyllable syllable
    obtain rfl : t = 0 := by omega
    have whole_b : Whole b := whole_of_isLetter (isLetter_iff.2 (by omega))
    have trailing : 0x11A7 + (b.toNat - 0x11A7) = b.toNat := by omega
    have some : b.toNat - 0x11A7 ≠ 0 := by omega
    have sum : (Char.ofNat (a.toNat + (b.toNat - 0x11A7))).toNat =
        0xAC00 + (l * 21 + v) * 28 + (b.toNat - 0x11A7) := by
      rw [toNat_ofNat (scalar (by omega))]
      omega
    rw [whole_b.decomposition, decomposition_syllable hl hv ht eq,
      decomposition_syllable hl hv (by omega) sum, syllableLetters, syllableLetters, if_neg some,
      trailing, Char.ofNat_toNat]
    rfl
  · cases h

/-- The two characters of a row come apart as they do in one step less. -/
theorem decomposition_of_composites {r : Nat × Nat × Nat} (hr : r ∈ composites)
    (ha : r.2.1 = a.toNat) (hb : r.2.2 = b.toNat) :
    decomposition (Char.ofNat r.1) = decomposition a ++ decomposition b := by
  have row : ((r.1, [r.2.1, r.2.2]) : Row) ∈ table := by
    rw [table, rows]
    exact List.mem_append_right _ (List.mem_map.2 ⟨r, List.mem_append_left _ hr, rfl⟩)
  obtain ⟨-, scalar, syllable, -⟩ := sound_table.key _ row
  have key : (Char.ofNat r.1).toNat = r.1 := toNat_ofNat scalar
  have part {d : Char} (hd : d.toNat ∈ [r.2.1, r.2.2]) : takeApart split? 3 d = decomposition d := by
    rw [decomposition_of_not_isSyllable (sound_table.part _ row _ hd).2,
      takeApart_succ (sound_table.within _ row _ hd)]
  rw [decomposition_of_not_isSyllable (key.symm ▸ syllable), takeApart, split?_of_mem row key.symm]
  simp only [List.map_cons, List.map_nil, List.flatMap_cons, List.flatMap_nil, List.append_nil, ha,
    hb, Char.ofNat_toNat]
  rw [part (by simp [ha]), part (by simp [hb])]

/-- What two characters compose to comes apart into what they come apart into. -/
theorem decomposition_of_compose? (h : compose? a b = some c) :
    decomposition c = decomposition a ++ decomposition b := by
  rw [compose?, Option.or_eq_some_iff] at h
  rcases h with syllable | ⟨-, h⟩
  · exact decomposition_of_hangulSyllable? syllable
  · rw [Option.map_eq_some_iff] at h
    obtain ⟨r, found, rfl⟩ := h
    have key := List.find?_some found
    rw [Bool.and_eq_true, beq_iff_eq, beq_iff_eq] at key
    exact decomposition_of_composites (List.mem_of_find?_eq_some found) key.1 key.2

/-! ## Canonical forms -/

/-- The characters that characters come apart into, with their classes. -/
def parts (cs : List Char) : List (Char × Nat) :=
  (cs.flatMap decomposition).map fun c => (c, combiningClass c)

/-- A character with its class that does not come apart. -/
def Settled (p : Char × Nat) : Prop :=
  Whole p.1 ∧ p.2 = combiningClass p.1

section

variable {starter : Char} {kept ps cs : List (Char × Nat)} {low : Nat}

theorem parts_append (as bs : List Char) : parts (as ++ bs) = parts as ++ parts bs := by
  rw [parts, List.flatMap_append, List.map_append]
  rfl

theorem parts_cons (c : Char) (cs : List Char) : parts (c :: cs) = parts [c] ++ parts cs :=
  parts_append [c] cs

theorem Settled.parts {p : Char × Nat} (h : Settled p) : parts [p.1] = [p] := by
  rw [Text.parts, List.flatMap_singleton, h.1.decomposition, List.map_singleton, ← h.2]

theorem parts_of_settled (h : ∀ p ∈ ps, Settled p) : parts (ps.map (·.1)) = ps := by
  induction ps with
  | nil => rfl
  | cons p ps ih =>
    rw [List.map_cons, parts_cons, (h p List.mem_cons_self).parts,
      ih fun q hq => h q (List.mem_cons_of_mem _ hq)]
    rfl

theorem settled_of_mem_parts {p : Char × Nat} {cs : List Char} (h : p ∈ parts cs) : Settled p := by
  obtain ⟨c, hc, rfl⟩ := List.mem_map.1 h
  obtain ⟨a, -, hc⟩ := List.mem_flatMap.1 hc
  refine ⟨whole_of_mem_decomposition hc, ?_⟩
  dsimp only

theorem insertMark_perm (m : Char × Nat) (run : List (Char × Nat)) :
    (insertMark m run).Perm (m :: run) := by
  induction run with
  | nil => exact .refl _
  | cons n run ih =>
    unfold insertMark
    split
    · exact (ih.cons n).trans (.swap m n run)
    · exact .refl _

theorem sortMarks_perm (run cs : List (Char × Nat)) : (sortMarks run cs).Perm (run ++ cs) := by
  induction cs generalizing run with
  | nil =>
    rw [List.append_nil]
    exact .refl _
  | cons c cs ih =>
    unfold sortMarks
    split
    · exact ((ih []).cons c).append_left run
    · exact (ih _).trans (((insertMark_perm c run).append_right cs).trans List.perm_middle.symm)

/-- The class of the last character that is kept, the latest of which comes first. -/
def lastClass : List (Char × Nat) → Nat
  | [] => 0
  | k :: _ => k.2

/-- A character is composed with the starter, begins anew as a starter or is kept. -/
theorem composeFrom_cons (starter : Char) (kept : List (Char × Nat)) (c : Char × Nat)
    (cs : List (Char × Nat)) :
    (∃ composed, (kept = [] ∨ lastClass kept < c.2) ∧ compose? starter c.1 = some composed ∧
      composeFrom starter kept (c :: cs) = composeFrom composed kept cs) ∨
    composeFrom starter kept (c :: cs) =
      if c.2 = 0 then starter :: (kept.reverse.map (·.1)) ++ composeFrom c.1 [] cs
      else composeFrom starter (c :: kept) cs := by
  have eq := composeFrom.eq_def starter kept (c :: cs)
  dsimp only at eq
  rw [eq]
  cases composes : compose? starter c.1 with
  | none =>
    refine .inr ?_
    simp only [ite_self]
  | some composed =>
    cases kept with
    | nil => exact .inl ⟨composed, .inl rfl, rfl, rfl⟩
    | cons k kept =>
      by_cases lt : k.2 < c.2
      · refine .inl ⟨composed, .inr lt, rfl, ?_⟩
        simp only [lt, decide_true, if_true]
      · refine .inr ?_
        simp only [lt, decide_false, Bool.false_eq_true, if_false]

/-- Taking apart what is composed from a starter, marks that were kept behind it and characters that
follow gives back all of these, once it is sorted. The marks that a composed one is moved past have
lower classes, so sorting moves it back. -/
theorem sortMarks_parts_composeFrom
    (hk : ∀ k ∈ kept, Settled k ∧ k.2 ≠ 0 ∧ k.2 ≤ lastClass kept) (hc : ∀ c ∈ cs, Settled c)
    (ordered : InOrder (lastClass kept) cs) (run : List (Char × Nat)) :
    sortMarks run (parts (composeFrom starter kept cs)) =
      sortMarks run (parts [starter] ++ (kept.reverse ++ cs)) := by
  have settled : ∀ p ∈ kept.reverse, Settled p := fun p hp => (hk p (List.mem_reverse.1 hp)).1
  induction cs generalizing starter kept run with
  | nil => rw [composeFrom, parts_cons, parts_of_settled settled, List.append_nil]
  | cons c cs ih =>
    have own := hc c List.mem_cons_self
    have rest : ∀ p ∈ cs, Settled p := fun p hp => hc p (List.mem_cons_of_mem _ hp)
    rcases composeFrom_cons starter kept c cs with ⟨composed, free, composes, eq⟩ | eq
    · have lower : ∀ k ∈ kept.reverse, k.2 ≠ 0 ∧ k.2 < c.2 := by
        intro k hmem
        obtain ⟨-, mark, le⟩ := hk k (List.mem_reverse.1 hmem)
        rcases free with rfl | lt
        · cases hmem
        · exact ⟨mark, Nat.lt_of_le_of_lt le lt⟩
      have le : lastClass kept ≤ c.2 := by
        rcases free with rfl | lt
        · exact Nat.zero_le _
        · exact Nat.le_of_lt lt
      have apart : parts [composed] = parts [starter] ++ [c] := by
        rw [← own.parts, parts, parts, parts, List.flatMap_singleton, List.flatMap_singleton,
          List.flatMap_singleton, decomposition_of_compose? composes, List.map_append]
      rw [eq, ih hk rest (ordered.2.mono le) run settled, apart, List.append_assoc]
      exact sortMarks_append_congr (fun run => sortMarks_move lower run cs) _ _
    · rw [eq]
      split
      · rename_i starts
        have tail : InOrder (lastClass []) cs := ordered.2.mono (Nat.zero_le _)
        have later (run : List (Char × Nat)) :
            sortMarks run (parts (composeFrom c.1 [] cs)) = sortMarks run (c :: cs) := by
          rw [ih (List.forall_mem_nil _) rest tail run (List.forall_mem_nil _), own.parts]
          rfl
        rw [parts_append, parts_cons, parts_of_settled settled, List.append_assoc]
        refine sortMarks_append_congr (fun run => ?_) _ _
        exact sortMarks_append_congr later _ _
      · rename_i mark
        have le : lastClass kept ≤ c.2 := ordered.1.resolve_left mark
        have held : ∀ k ∈ c :: kept, Settled k ∧ k.2 ≠ 0 ∧ k.2 ≤ lastClass (c :: kept) := by
          intro k hmem
          rcases List.mem_cons.1 hmem with rfl | hmem
          · exact ⟨own, mark, Nat.le_refl _⟩
          · obtain ⟨settled, mark, below⟩ := hk k hmem
            exact ⟨settled, mark, Nat.le_trans below le⟩
        rw [ih held rest ordered.2 run fun p hp => (held p (List.mem_reverse.1 hp)).1,
          List.reverse_cons, List.append_assoc, List.singleton_append]

/-- Taking apart what is composed of characters in order gives back these characters, once it is
sorted. -/
theorem sortMarks_parts_compose (hc : ∀ c ∈ cs, Settled c) (ordered : InOrder low cs)
    (run : List (Char × Nat)) : sortMarks run (parts (compose cs)) = sortMarks run cs := by
  induction cs generalizing low run with
  | nil => rfl
  | cons c cs ih =>
    have own := hc c List.mem_cons_self
    have rest : ∀ p ∈ cs, Settled p := fun p hp => hc p (List.mem_cons_of_mem _ hp)
    rw [compose]
    split
    · rename_i starts
      have tail : InOrder (lastClass []) cs := ordered.2.mono (Nat.zero_le _)
      rw [sortMarks_parts_composeFrom (List.forall_mem_nil _) rest tail run, own.parts]
      rfl
    · rename_i mark
      rw [parts_cons, own.parts, List.singleton_append, sortMarks, if_neg mark,
        ih rest ordered.2, sortMarks, if_neg mark]

end

/-- A canonical form is its own canonical form. -/
theorem normalize_normalize (s : String) : normalize (normalize s) = normalize s := by
  by_cases low : s.toList.all (·.toNat < 0x300) = true
  · rw [normalize_of_all_lt low, normalize_of_all_lt low]
  have form : normalize s = String.ofList (compose (sortMarks [] (parts s.toList))) := if_neg low
  have settled : ∀ p ∈ sortMarks [] (parts s.toList), Settled p := fun p hp =>
    settled_of_mem_parts ((sortMarks_perm [] _).mem_iff.1 hp)
  have none : InOrder 0 [] := trivial
  have ordered : InOrder 0 (sortMarks [] (parts s.toList)) := inOrder_sortMarks none _
  by_cases low' : (normalize s).toList.all (·.toNat < 0x300) = true
  · exact normalize_of_all_lt low'
  have again : normalize (normalize s) =
      String.ofList (compose (sortMarks [] (parts (normalize s).toList))) := if_neg low'
  rw [again, form, String.toList_ofList, sortMarks_parts_compose settled ordered,
    sortMarks_of_inOrder (List.forall_mem_nil _) ordered, List.nil_append]

end ValueAlgebra.Text
