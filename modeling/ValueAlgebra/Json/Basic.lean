import ValueAlgebra.Number.Binary64
import ValueAlgebra.Text.Quoted

/-!
# JSON data

The form in which type constraints are stored. Whole numbers and floating point numbers are told
apart. The fields of an object are sorted by name, each name once.
-/

namespace ValueAlgebra

open Text

/-- A JSON datum. -/
inductive Json where
  | null
  | bool (b : Bool)
  | integer (n : Int)
  | float (x : Binary64)
  | string (s : String)
  | array (items : List Json)
  | object (fields : List (String × Json))
deriving Repr

namespace Json

instance : Inhabited Json := ⟨.null⟩

/-- Writes digits of a number whose first digit stands at `10 ^ first`. Digits from `10 ^ 15` down
to `10 ^ -5` are written with a point, others with a signed exponent. -/
def renderDigits (digits : List Char) (first : Int) : List Char :=
  if 0 ≤ first ∧ first ≤ 15 then
    let whole := digits.take (first.toNat + 1)
    let padding := List.replicate (first.toNat + 1 - digits.length) '0'
    let fraction := digits.drop (first.toNat + 1)
    whole ++ padding ++ ['.'] ++ (if fraction.isEmpty then ['0'] else fraction)
  else if -5 ≤ first ∧ first < 0 then
    ['0', '.'] ++ List.replicate (-first - 1).toNat '0' ++ digits
  else
    let point := match digits with
      | [d] => [d]
      | d :: more => d :: '.' :: more
      | [] => []
    point ++ ['e', if first < 0 then '-' else '+'] ++ Nat.toDigits 10 first.natAbs

/-- The text of a finite floating point number, in the fewest digits that read back. -/
def renderFloat (x : Binary64) : String :=
  let (value, k) := x.shortest .toEven
  let digits := Nat.toDigits 10 value
  let significant := (digits.reverse.dropWhile (· == '0')).reverse
  let significant := if significant.isEmpty then ['0'] else significant
  let first := if value = 0 then 0 else k + (digits.length - 1 : Nat)
  let sign := if x.isNegative then ['-'] else []
  String.ofList (sign ++ renderDigits significant first)

/-- What kind of datum stands where another one was expected. -/
def describe : Json → String
  | .null => "null"
  | .bool b => "boolean `" ++ (if b then "true" else "false") ++ "`"
  | .integer n => "integer `" ++ toString n ++ "`"
  | .float x => "floating point `" ++ renderFloat x ++ "`"
  | .string s => "string " ++ quoted s
  | .array _ => "sequence"
  | .object _ => "map"

end Json

end ValueAlgebra
