import ValueAlgebra.Text.Quoted
import ValueAlgebra.Ty.Basic

/-!
# Names of types

`Ty.name` is a short name for messages about values, `Ty.constraintName` one for messages about what
a value has to be, and `Ty.structureText` writes a type down to its last part.
-/

namespace ValueAlgebra.Ty

open Text

/-- A short name for messages about values. -/
def name : Ty → String
  | .number => "number"
  | .string => "string"
  | .bool => "bool"
  | .dynamic => "dynamic"
  | .list e => "list of " ++ e.name
  | .set e => "set of " ++ e.name
  | .map e => "map of " ++ e.name
  | .object _ _ => "object"
  | .tuple _ => "tuple"
  | .union _ => "union"
  | .capsule c => c.name

instance : ToString Ty := ⟨name⟩

/-- A short name for messages about what a value has to be. The elements of one collection share a
type, also where it is left open. -/
def constraintName : Ty → String
  | .dynamic => "any type"
  | .list e => "list of " ++ if e = .dynamic then "any single type" else e.constraintName
  | .set e => "set of " ++ if e = .dynamic then "any single type" else e.constraintName
  | .map e => "map of " ++ if e = .dynamic then "any single type" else e.constraintName
  | t => t.name

/-- Parts of a text with commas between them. -/
def commaSeparated (parts : List String) : String :=
  ", ".intercalate parts

/-- Parts of a text between braces. -/
def braced (parts : List String) : String :=
  "\x7b" ++ commaSeparated parts ++ "\x7d"

mutual

/-- A type with all its parts. -/
def structureText : Ty → String
  | .number => "Number"
  | .string => "String"
  | .bool => "Bool"
  | .dynamic => "DynamicPseudoType"
  | .list e => "List(" ++ e.structureText ++ ")"
  | .set e => "Set(" ++ e.structureText ++ ")"
  | .map e => "Map(" ++ e.structureText ++ ")"
  | .object attributes optional =>
    let names := if optional.isEmpty then "" else ", " ++ braced (optional.map quoted)
    "Object(" ++ braced (namedTexts attributes) ++ names ++ ")"
  | .tuple elements => "Tuple([" ++ commaSeparated (structureTexts elements) ++ "])"
  | .union variants => "Union(" ++ braced (namedTexts variants) ++ ")"
  | .capsule c => "Capsule(" ++ quoted c.name ++ ")"

/-- The texts of some types. -/
def structureTexts : List Ty → List String
  | [] => []
  | t :: ts => t.structureText :: structureTexts ts

/-- The texts of some named types, each with its name. -/
def namedTexts : List (String × Ty) → List String
  | [] => []
  | (name, t) :: ts => (quoted name ++ ": " ++ t.structureText) :: namedTexts ts

end

end ValueAlgebra.Ty
