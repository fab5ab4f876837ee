import ValueAlgebra.Entries
import ValueAlgebra.Text.Quoted
import ValueAlgebra.Ty.Name

/-!
# Marks

A mark is a name that rides along with a value through every operation, such as "sensitive". The
marks of one value are a set, kept as a sorted list, so that equal sets are equal lists.
-/

namespace ValueAlgebra

/-- The marks of one value. -/
structure MarkSet where
  /-- The names of the marks, in order. -/
  names : List String
  sorted : names.Pairwise (· < ·)
deriving DecidableEq

namespace MarkSet

def empty : MarkSet :=
  ⟨[], .nil⟩

instance : Inhabited MarkSet := ⟨empty⟩

def isEmpty (marks : MarkSet) : Bool :=
  marks.names.isEmpty

def size (marks : MarkSet) : Nat :=
  marks.names.length

def contains (marks : MarkSet) (name : String) : Bool :=
  marks.names.contains name

def insert (marks : MarkSet) (name : String) : MarkSet :=
  ⟨Names.insert name marks.names, Names.sorted_insert marks.sorted⟩

/-- The set of some marks. -/
def ofList (names : List String) : MarkSet :=
  names.foldl insert empty

/-- The marks of either set. -/
def union (a b : MarkSet) : MarkSet :=
  b.names.foldl insert a

/-- The marks of all sets of a list. -/
def unions (sets : List MarkSet) : MarkSet :=
  sets.foldl union empty

/-- The marks between braces. -/
def describe (marks : MarkSet) : String :=
  Ty.braced (marks.names.map Text.quoted)

end MarkSet

end ValueAlgebra
