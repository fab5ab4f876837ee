import ValueAlgebra.Text.CanonicalTable

/-!
# The canonical composed form of a text

Two texts that differ only in how accented letters are put together have the same canonical
composed form. `normalize` computes it in three passes: characters come apart as far as they can,
runs of combining marks are sorted by combining class, and characters are put together again.

Every text below U+0300 is its own canonical form, which `normalize` tells first.
-/

namespace ValueAlgebra.Text

/-- The canonical combining class of a character. -/
def combiningClass (c : Char) : Nat :=
  match combiningRanges.find? fun r => r.1 ≤ c.toNat && c.toNat ≤ r.2.1 with
  | some r => r.2.2
  | none => 0

/-! ## Hangul syllables

A syllable is composed of a leading consonant, a vowel and at most one trailing consonant by
arithmetic on code points.
-/

/-- The first syllable, leading consonant, vowel, and the code point before the first trailing
consonant. -/
def hangulBase : Nat × Nat × Nat × Nat := (0xAC00, 0x1100, 0x1161, 0x11A7)

/-- The letters of a Hangul syllable. -/
def hangulLetters? (c : Char) : Option (List Char) :=
  let (s, l, v, t) := hangulBase
  if s ≤ c.toNat ∧ c.toNat < s + 11172 then
    let i := c.toNat - s
    let leading := [Char.ofNat (l + i / 588), Char.ofNat (v + i % 588 / 28)]
    some (if i % 28 = 0 then leading else leading ++ [Char.ofNat (t + i % 28)])
  else
    none

/-- The syllable of two adjacent parts. -/
def hangulSyllable? (a b : Char) : Option Char :=
  let (s, l, v, t) := hangulBase
  if l ≤ a.toNat ∧ a.toNat < l + 19 ∧ v ≤ b.toNat ∧ b.toNat < v + 21 then
    some (Char.ofNat (s + ((a.toNat - l) * 21 + (b.toNat - v)) * 28))
  else if s ≤ a.toNat ∧ a.toNat < s + 11172 ∧ (a.toNat - s) % 28 = 0 ∧
      t < b.toNat ∧ b.toNat < t + 28 then
    some (Char.ofNat (a.toNat + (b.toNat - t)))
  else
    none

/-! ## Taking characters apart -/

/-- The character or characters that a character comes apart into in one step, by tables of single
characters and of pairs. -/
def splitBy (single : List (Nat × Nat)) (composed decomposed : List (Nat × Nat × Nat)) (c : Char) :
    Option (List Char) :=
  match single.find? (·.1 == c.toNat) with
  | some (_, a) => some [Char.ofNat a]
  | none =>
    match (composed.find? (·.1 == c.toNat)).or (decomposed.find? (·.1 == c.toNat)) with
    | some (_, a, b) => some [Char.ofNat a, Char.ofNat b]
    | none => none

/-- The character or characters that a character comes apart into in one step. -/
def split? (c : Char) : Option (List Char) :=
  splitBy singletons composites onlyDecomposed c

/-- Takes a character apart as far as it goes, with a function for a single step. -/
def takeApart (split : Char → Option (List Char)) : Nat → Char → List Char
  | 0, c => [c]
  | n + 1, c =>
    match split c with
    | some parts => parts.flatMap (takeApart split n)
    | none => [c]

/-- The full canonical decomposition of one character. No chain of steps is longer than four. -/
def decomposition (c : Char) : List Char :=
  if c.toNat < 0xC0 then [c] else (hangulLetters? c).getD (takeApart split? 4 c)

/-! ## Sorting marks -/

/-- Inserts a mark into a sorted run of marks, after those of its own class. -/
def insertMark (m : Char × Nat) : List (Char × Nat) → List (Char × Nat)
  | [] => [m]
  | n :: run => if n.2 ≤ m.2 then n :: insertMark m run else m :: n :: run

/-- Sorts each run of characters of nonzero class by class and keeps all else in place. -/
def sortMarks : List (Char × Nat) → List (Char × Nat) → List (Char × Nat)
  | run, [] => run
  | run, c :: cs => if c.2 = 0 then run ++ c :: sortMarks [] cs else sortMarks (insertMark c run) cs

/-! ## Putting characters together -/

/-- The character that two characters compose to. -/
def compose? (a b : Char) : Option Char :=
  (hangulSyllable? a b).or <|
    (composites.find? fun r => r.2.1 == a.toNat && r.2.2 == b.toNat).map fun r => Char.ofNat r.1

/--
Composes each character with the last starter before it, unless a character between the two has
the same or a higher class. The starter and the characters kept after it, latest first, are
carried along.
-/
def composeFrom (starter : Char) : List (Char × Nat) → List (Char × Nat) → List Char
  | kept, [] => starter :: (kept.reverse.map (·.1))
  | kept, c :: cs =>
    let free := match kept with
      | [] => true
      | last :: _ => last.2 < c.2
    match if free then compose? starter c.1 else none with
    | some composed => composeFrom composed kept cs
    | none =>
      if c.2 = 0 then starter :: (kept.reverse.map (·.1)) ++ composeFrom c.1 [] cs
      else composeFrom starter (c :: kept) cs

/-- Composes a sorted decomposition. Marks before the first starter stay as they are. -/
def compose : List (Char × Nat) → List Char
  | [] => []
  | c :: cs => if c.2 = 0 then composeFrom c.1 [] cs else c.1 :: compose cs

/-! ## The canonical form -/

/-- The canonical composed form of a text. -/
def normalize (s : String) : String :=
  if s.toList.all (·.toNat < 0x300) then s
  else
    let parts := s.toList.flatMap decomposition
    String.ofList (compose (sortMarks [] (parts.map fun c => (c, combiningClass c))))

/-- A text below U+0300 is its own canonical form. -/
theorem normalize_of_all_lt {s : String} (h : s.toList.all (·.toNat < 0x300) = true) :
    normalize s = s := by
  rw [normalize, if_pos h]

end ValueAlgebra.Text
