import ValueAlgebra.Capsule

/-!
# The text of a value

`Value.describe` writes a value with all its parts, for messages. It fails where a capsule type
cannot write its own value.
-/

namespace ValueAlgebra.Value

open Text Ty

variable [Host]

mutual

/-- A value with all its parts. -/
def describe : Value → Except Fault String
  | ⟨marks, content⟩ => do
    let text ← match content with
      | .null t => pure ("Null(" ++ t.structureText ++ ")")
      | .unknown t r =>
        pure ("Unknown(" ++ t.structureText
          ++ (if r = .unconstrained then "" else ", " ++ r.describe) ++ ")")
      | .number n => pure ("Number(" ++ n.render ++ ")")
      | .string s => pure ("String(" ++ quoted s ++ ")")
      | .bool b => pure ("Bool(" ++ (if b then "true" else "false") ++ ")")
      | .list _ items => do pure ("List([" ++ commaSeparated (← describeAll items) ++ "])")
      | .set _ items => do pure ("Set([" ++ commaSeparated (← describeAll items) ++ "])")
      | .tuple items => do pure ("Tuple([" ++ commaSeparated (← describeAll items) ++ "])")
      | .map _ entries => do pure ("Map(" ++ braced (← describeEntries entries) ++ ")")
      | .object entries => do pure ("Object(" ++ braced (← describeEntries entries) ++ ")")
      | .union _ variant inner => do
        pure ("Union(" ++ quoted variant ++ ", " ++ (← inner.describe) ++ ")")
      | .capsule c p => do pure ("Capsule(" ++ (← c.render p) ++ ")")
    pure (if marks.isEmpty then text else text ++ ".mark(" ++ marks.describe ++ ")")

/-- The texts of some values. -/
def describeAll : List Value → Except Fault (List String)
  | [] => pure []
  | v :: vs => do
    let text ← v.describe
    let texts ← describeAll vs
    pure (text :: texts)

/-- The texts of some named values, each with its name. -/
def describeEntries : List (String × Value) → Except Fault (List String)
  | [] => pure []
  | (name, v) :: vs => do
    let text ← v.describe
    let texts ← describeEntries vs
    pure ((quoted name ++ ": " ++ text) :: texts)

end

end ValueAlgebra.Value
