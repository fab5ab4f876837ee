import ValueAlgebra.Value.Build

/-!
# Where marks are

`Value.markedPaths` tells for each marked part of a value where it is and which marks it has.
`Value.markAlong` puts such marks back.
-/

namespace ValueAlgebra

/-- Marks and the path to the part that has them. -/
structure MarkedPath where
  path : Path
  marks : MarkSet

namespace Value

mutual

/-- The marked parts of a value found at a path, a value before its parts. -/
def markedPathsAt (path : Path) : Value → List MarkedPath
  | ⟨marks, content⟩ =>
    (if marks.isEmpty then [] else [⟨path, marks⟩]) ++
    match content with
    | .list _ items | .tuple items => markedPathsItems path 0 items
    | .map _ entries => markedPathsEntries path entries
    | .object attributes => markedPathsAttributes path attributes
    | .union _ variant inner => markedPathsAt (path.attr variant) inner
    | _ => []

/-- The marked parts of elements numbered from `start` on. -/
def markedPathsItems (path : Path) (start : Nat) : List Value → List MarkedPath
  | [] => []
  | v :: vs => markedPathsAt (path.index (ofNat start)) v ++ markedPathsItems path (start + 1) vs

/-- The marked parts of the entries of a map. -/
def markedPathsEntries (path : Path) : List (String × Value) → List MarkedPath
  | [] => []
  | (key, v) :: vs => markedPathsAt (path.index (string key)) v ++ markedPathsEntries path vs

/-- The marked parts of the attributes of an object. -/
def markedPathsAttributes (path : Path) : List (String × Value) → List MarkedPath
  | [] => []
  | (name, v) :: vs => markedPathsAt (path.attr name) v ++ markedPathsAttributes path vs

end

/-- The marked parts of a value. -/
def markedPaths (v : Value) : List MarkedPath :=
  v.markedPathsAt .root

/-- Changes the part of a content that a step leads to. A step that leads nowhere changes
nothing. -/
def modifyPart (f : Value → Value) (step : Step) : Content → Content
  | .list e items =>
    .list e (match step with
      | .index key => modifyItem key items
      | _ => items)
  | .tuple items =>
    .tuple (match step with
      | .index key => modifyItem key items
      | _ => items)
  | .map e entries =>
    .map e (match step with
      | .index key => match key.string? with
        | some k => modifyEntry k entries
        | none => entries
      | _ => entries)
  | .object attributes =>
    .object (match step with
      | .attr name => modifyEntry name attributes
      | _ => attributes)
  | .union variants variant inner =>
    .union variants variant (match step with
      | .attr name => if name = variant then f inner else inner
      | _ => inner)
  | content => content
where
  /-- Changes the element at a number. -/
  modifyItem (key : Value) (items : List Value) : List Value :=
    match key.number?.bind Number.toWord? with
    | some i => items.modify i f
    | none => items
  /-- Changes the entry of a name. -/
  modifyEntry (name : String) (entries : List (String × Value)) : List (String × Value) :=
    entries.map fun entry => if entry.1 = name then (entry.1, f entry.2) else entry

/-- Adds marks to the part of a value that some steps lead to. -/
def markAt (marks : MarkSet) : List Step → Value → Value
  | [], v => v.withMarks marks
  | step :: rest, v => ⟨v.marks, modifyPart (markAt marks rest) step v.content⟩

/-- Adds marks to the parts of a value that paths lead to. -/
def markAlong (v : Value) (marked : List MarkedPath) : Value :=
  marked.foldl (fun v m => markAt m.marks m.path.steps v) v

end Value

end ValueAlgebra
