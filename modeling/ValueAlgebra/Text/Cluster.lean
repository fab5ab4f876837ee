import ValueAlgebra.Text.ClusterTable

/-!
# Clusters of characters

A text divides into clusters that a reader takes for single characters: a letter with its accents,
a Hangul syllable, a flag, a family of emoji. `dropLastCluster` takes the last one away, since
characters that follow a text can still join it.
-/

namespace ValueAlgebra.Text

/-- What a character does to the boundary of clusters around it. -/
inductive ClusterKind where
  | other | carriageReturn | lineFeed | control | extend | joiner | spacingMark | prepend
  | regional | pictograph | hangulL | hangulV | hangulT | hangulLV | hangulLVT
deriving DecidableEq, Repr

/-- The kind of a character. -/
def clusterKind (c : Char) : ClusterKind :=
  let n := c.toNat
  if n = 0x0D then .carriageReturn
  else if n = 0x0A then .lineFeed
  else if 0x20 ≤ n ∧ n < 0x7F then .other
  else if n = 0x200D then .joiner
  else if 0x1F1E6 ≤ n ∧ n ≤ 0x1F1FF then .regional
  else if 0x1F3FB ≤ n ∧ n ≤ 0x1F3FF then .extend
  else if 0x1100 ≤ n ∧ n ≤ 0x115F ∨ 0xA960 ≤ n ∧ n ≤ 0xA97C then .hangulL
  else if 0x1160 ≤ n ∧ n ≤ 0x11A7 ∨ 0xD7B0 ≤ n ∧ n ≤ 0xD7C6 then .hangulV
  else if n = 0x16D63 ∨ 0x16D67 ≤ n ∧ n ≤ 0x16D6A then .hangulV
  else if 0x11A8 ≤ n ∧ n ≤ 0x11FF ∨ 0xD7CB ≤ n ∧ n ≤ 0xD7FB then .hangulT
  else if 0xAC00 ≤ n ∧ n ≤ 0xD7A3 then if (n - 0xAC00) % 28 = 0 then .hangulLV else .hangulLVT
  else if inRanges controlRanges n then .control
  else if inRanges extendRanges n then .extend
  else if inRanges spacingMarkRanges n then .spacingMark
  else if inRanges prependRanges n then .prepend
  else if inRanges pictographRanges n then .pictograph
  else .other

/-- How far a conjunct of consonants has come. -/
inductive Conjunct where
  /-- No consonant to build on. -/
  | none
  /-- A consonant, perhaps with marks. -/
  | consonant
  /-- A consonant and a linker, perhaps with marks. -/
  | linked
deriving DecidableEq, Repr

/-- What the characters before a boundary say about it. -/
structure ClusterState where
  /-- The kind of the last character. -/
  last : ClusterKind
  /-- The number of regional indicators at the end is odd. -/
  oddRegional : Bool
  /-- A pictograph with marks stands at the end, perhaps before a joiner. -/
  pictograph : Bool
  /-- The conjunct at the end. -/
  conjunct : Conjunct

/-- The state after a character, given the state before it, if there is one. -/
def ClusterState.after (before : Option ClusterState) (c : Char) : ClusterState :=
  let kind := clusterKind c
  let wasOdd := match before with | some s => s.oddRegional | none => false
  let wasPictograph := match before with | some s => s.pictograph | none => false
  let wasConjunct := match before with | some s => s.conjunct | none => .none
  let afterJoiner := match before with | some s => s.last == .joiner | none => false
  { last := kind
    oddRegional := kind == .regional && !wasOdd
    pictograph := kind == .pictograph ||
      ((kind == .extend || kind == .joiner) && wasPictograph && !afterJoiner)
    conjunct :=
      if inRanges conjunctConsonantRanges c.toNat then .consonant
      else if wasConjunct == .none then .none
      else if inRanges conjunctLinkerRanges c.toNat then .linked
      else if (kind == .extend && c.toNat != 0x200C) || kind == .joiner then wasConjunct
      else .none }

/-- Whether a boundary stands between a state and the character that follows. -/
def ClusterState.breaksBefore (s : ClusterState) (c : Char) : Bool :=
  let kind := clusterKind c
  match s.last, kind with
  | .carriageReturn, .lineFeed => false
  | .carriageReturn, _ | .lineFeed, _ | .control, _ => true
  | _, .carriageReturn | _, .lineFeed | _, .control => true
  | .hangulL, .hangulL | .hangulL, .hangulV | .hangulL, .hangulLV | .hangulL, .hangulLVT => false
  | .hangulLV, .hangulV | .hangulLV, .hangulT | .hangulV, .hangulV | .hangulV, .hangulT => false
  | .hangulLVT, .hangulT | .hangulT, .hangulT => false
  | _, .extend | _, .joiner | _, .spacingMark => false
  | .prepend, _ => false
  | .joiner, .pictograph => !s.pictograph
  | .regional, .regional => !s.oddRegional
  | _, _ => !(s.conjunct == .linked && inRanges conjunctConsonantRanges c.toNat)

/-- The characters before the last cluster, given those of earlier clusters and those of the
current one, both latest first. -/
def beforeLastCluster (earlier current : List Char) (state : Option ClusterState) :
    List Char → List Char
  | [] => earlier.reverse
  | c :: cs =>
    let starts := match state with
      | some s => s.breaksBefore c
      | none => false
    if starts then beforeLastCluster (current ++ earlier) [c] (some (.after state c)) cs
    else beforeLastCluster earlier (c :: current) (some (.after state c)) cs

/-- A text without its last cluster. -/
def dropLastCluster (s : String) : String :=
  String.ofList (beforeLastCluster [] [] none s.toList)

end ValueAlgebra.Text
