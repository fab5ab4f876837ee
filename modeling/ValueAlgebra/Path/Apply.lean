import ValueAlgebra.Value.Access

/-!
# Following and comparing paths

`Path.apply` follows a path from a value. Where a step leads nowhere, the error has the path up to
that step. Two paths are equal when their steps are, with keys compared by their representation.
-/

namespace ValueAlgebra

open Text

namespace Step

/-- What a step that leads nowhere complains of, or the part that it leads to. -/
inductive Outcome where
  | part (v : Value)
  | nowhere (problem : StepProblem)

/-- Takes a step to an attribute. -/
def applyAttr (v : Value) (name : String) : Except Fault Outcome :=
  if v.isNull then .ok (.nowhere .attributeOfNull)
  else
    let names? := match v.ty with
      | .object attributes _ => some (Entries.names attributes)
      | .union variants => some (Entries.names variants)
      | _ => none
    match names? with
    | none => .ok (.nowhere .notAnObject)
    | some names =>
      if names.contains name then (v.attr name).map .part
      else .ok (.nowhere (.noAttribute name))

/-- Takes a step to an element whose key fits the type of the value. -/
def applyKey (v key : Value) : Except Fault Outcome := do
  let found := (← v.hasIndex key).unmark
  if !found.isKnown then
    return .part (← v.index key)
  else if ← found.asBool then
    return .part (← v.index key)
  else
    return .nowhere .noElement

/-- Takes a step to an element. -/
def applyIndex (v key : Value) : Except Fault Outcome :=
  if v.isNull then .ok (.nowhere .indexOfNull)
  else
    match key.ty with
    | .number => if v.ty.isList || v.ty.isTuple then applyKey v key else .ok (.nowhere .notAList)
    | .string => if v.ty.isMap then applyKey v key else .ok (.nowhere .notAMap)
    | _ => .ok (.nowhere .keyType)

/-- Takes a step from a value. -/
def apply (v : Value) : Step → Except Fault Outcome
  | .attr name => applyAttr v name
  | .index key => applyIndex v key

variable [Host]

/-- Whether two steps are the same, with or without regard to the marks of keys. -/
def same (regardMarks : Bool) : Step → Step → Bool
  | .attr a, .attr b => a == b
  | .index a, .index b => Value.same regardMarks a b
  | _, _ => false

/-- A step in a message. -/
def render : Step → Except Fault String
  | .attr name => .ok ("." ++ name)
  | .index key =>
    match key.content with
    | .unknown _ _ => .ok "[?]"
    | .null _ => .ok "[null]"
    | .string s => .ok ("[" ++ quoted s ++ "]")
    | .number n => .ok ("[" ++ n.render ++ "]")
    | _ => key.unmark.describe.map fun text => "[" ++ text ++ "]"

/-- What counts for the hash of a step. -/
def hashTokens : Step → List HashToken
  | .attr name => [.tag 0, .text name]
  | .index key => [.tag 1, .word key.hash]

end Step

namespace Path

/-- Follows steps from a value. The steps before them are carried along. -/
def applyFrom (before : List Step) (v : Value) : List Step → Except Failure Value
  | [] => .ok v
  | step :: rest =>
    match step.apply v with
    | .error cause => .error (.fault cause)
    | .ok (.part w) => applyFrom (before ++ [step]) w rest
    | .ok (.nowhere problem) => Path.fail ⟨before⟩ (.step before.length problem)

/-- Follows a path from a value. -/
def apply (path : Path) (v : Value) : Except Failure Value :=
  applyFrom [] v path.steps

variable [Host]

/-- Whether steps are the same one by one. -/
def sameSteps (regardMarks : Bool) : List Step → List Step → Bool
  | [], [] => true
  | a :: as, b :: bs => a.same regardMarks b && sameSteps regardMarks as bs
  | _, _ => false

/-- Whether two paths have the same steps, apart from the marks of keys. -/
def equals (a b : Path) : Bool :=
  sameSteps false a.steps b.steps

/-- Whether two paths have the same steps, with the same marks of keys. -/
def identical (a b : Path) : Bool :=
  sameSteps true a.steps b.steps

/-- Whether a path starts with the steps of another one. -/
def startsWith (path start : Path) : Bool :=
  start.length ≤ path.length && sameSteps false (path.steps.take start.length) start.steps

/-- A path in a message. -/
def render (path : Path) : Except Fault String :=
  (path.steps.mapM Step.render).map String.join

/-- The hash of a path. -/
def hash (path : Path) : UInt64 :=
  Host.digest (path.steps.flatMap Step.hashTokens)

end Path

end ValueAlgebra
