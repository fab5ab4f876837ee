import ValueAlgebra.Entries
import ValueAlgebra.Json.Number

/-!
# JSON text

`Json.read?` reads a datum from a text and `Json.compact` writes one without blanks. The fields of
an object are sorted by name, and of several fields of one name the last one stays.
-/

namespace ValueAlgebra.Json

/-! ## Reading -/

/-- A blank between the tokens of a text. -/
def isBlank (c : Char) : Bool :=
  c == ' ' || c == '\n' || c == '\t' || c == '\r'

/-- The value of a digit in base sixteen. -/
def hexDigit? (c : Char) : Option Nat :=
  if '0' ≤ c ∧ c ≤ '9' then some (c.toNat - '0'.toNat)
  else if 'a' ≤ c ∧ c ≤ 'f' then some (c.toNat - 'a'.toNat + 10)
  else if 'A' ≤ c ∧ c ≤ 'F' then some (c.toNat - 'A'.toNat + 10)
  else none

/-- The number that digits in base sixteen write. -/
def hexValue? (digits : List Char) : Option Nat :=
  digits.foldlM (fun n c => (hexDigit? c).map fun d => 16 * n + d) 0

/-- The character that a letter after a backslash stands for. -/
def escapedChar (c : Char) : Char :=
  match c with
  | 'n' => '\n'
  | 't' => '\t'
  | 'r' => '\r'
  | 'b' => '\x08'
  | 'f' => '\x0c'
  | c => c

/-- The character that two halves of a surrogate pair stand for. -/
def joinSurrogates (high low : Nat) : Char :=
  Char.ofNat (0x10000 + (high - 0xD800) * 0x400 + (low - 0xDC00))

/-- Reads a text up to its closing quote. The first half of a surrogate pair waits for the second
one. -/
def readText : Option Nat → List Char → Option (List Char × List Char)
  | _, '"' :: rest => some ([], rest)
  | high, '\\' :: 'u' :: a :: b :: c :: d :: rest => do
    let n ← hexValue? [a, b, c, d]
    match high with
    | some high =>
      let (text, rest) ← readText none rest
      some (joinSurrogates high n :: text, rest)
    | none =>
      if 0xD800 ≤ n ∧ n < 0xDC00 then
        readText (some n) rest
      else
        let (text, rest) ← readText none rest
        some (Char.ofNat n :: text, rest)
  | _, '\\' :: c :: rest => do
    let (text, rest) ← readText none rest
    some (escapedChar c :: text, rest)
  | _, c :: rest => do
    let (text, rest) ← readText none rest
    some (c :: text, rest)
  | _, [] => none

/-- What is left after a word. -/
def afterWord? (word : String) (cs : List Char) : Option (List Char) :=
  if word.toList.isPrefixOf cs then some (cs.drop word.length) else none

mutual

/-- Reads one datum, and gives the rest of the text without blanks before it. The first argument
bounds the depth of the work. -/
def readDatum : Nat → List Char → Option (Json × List Char)
  | 0, _ => none
  | fuel + 1, cs => do
    let cs := cs.dropWhile isBlank
    let (datum, rest) ← match cs with
      | '"' :: rest => (readText none rest).map fun (text, rest) =>
        (Json.string (String.ofList text), rest)
      | '[' :: rest => do
        match rest.dropWhile isBlank with
        | ']' :: rest => some (.array [], rest)
        | rest => (readItems fuel rest).map fun (items, rest) => (.array items, rest)
      | '\x7b' :: rest => do
        match rest.dropWhile isBlank with
        | '\x7d' :: rest => some (.object [], rest)
        | rest => (readFields fuel rest).map fun (fields, rest) =>
          (.object (Entries.ofList fields), rest)
      | 't' :: _ => (afterWord? "true" cs).map fun rest => (.bool true, rest)
      | 'f' :: _ => (afterWord? "false" cs).map fun rest => (.bool false, rest)
      | 'n' :: _ => (afterWord? "null" cs).map fun rest => (.null, rest)
      | cs => (number? (cs.takeWhile isNumberChar)).map fun n => (n, cs.dropWhile isNumberChar)
    some (datum, rest.dropWhile isBlank)

/-- Reads the items of an array up to its end. -/
def readItems : Nat → List Char → Option (List Json × List Char)
  | 0, _ => none
  | fuel + 1, cs => do
    let (item, rest) ← readDatum fuel cs
    match rest with
    | ']' :: rest => some ([item], rest)
    | ',' :: rest => (readItems fuel rest).map fun (items, rest) => (item :: items, rest)
    | _ => none

/-- Reads the fields of an object up to its end. -/
def readFields : Nat → List Char → Option (List (String × Json) × List Char)
  | 0, _ => none
  | fuel + 1, cs => do
    match cs.dropWhile isBlank with
    | '"' :: rest =>
      let (name, rest) ← readText none rest
      match rest.dropWhile isBlank with
      | ':' :: rest =>
        let (value, rest) ← readDatum fuel rest
        let field := (String.ofList name, value)
        match rest with
        | '\x7d' :: rest => some ([field], rest)
        | ',' :: rest => (readFields fuel rest).map fun (fields, rest) => (field :: fields, rest)
        | _ => none
      | _ => none
    | _ => none

end

/-- The datum that a text writes, if it writes one. -/
def read? (text : String) : Option Json :=
  let cs := text.toList
  match readDatum (2 * cs.length + 2) cs with
  | some (datum, []) => some datum
  | _ => none

/-! ## Writing -/

/-- Digits in base sixteen, filled up with zeros. -/
def hexDigits (width n : Nat) : List Char :=
  let digits := Nat.toDigits 16 n
  List.replicate (width - digits.length) '0' ++ digits

/-- A character as it stands between quotes. -/
def writeChar (c : Char) : List Char :=
  match c with
  | '"' => ['\\', '"']
  | '\\' => ['\\', '\\']
  | '\n' => ['\\', 'n']
  | '\r' => ['\\', 'r']
  | '\t' => ['\\', 't']
  | '\x08' => ['\\', 'b']
  | '\x0c' => ['\\', 'f']
  | c => if c.toNat < 32 then ['\\', 'u'] ++ hexDigits 4 c.toNat else [c]

/-- A text between quotes. -/
def writeText (s : String) : String :=
  String.ofList (['"'] ++ s.toList.flatMap writeChar ++ ['"'])

mutual

/-- A datum without blanks. -/
def compact : Json → String
  | .null => "null"
  | .bool b => if b then "true" else "false"
  | .integer n => toString n
  | .float x => renderFloat x
  | .string s => writeText s
  | .array items => "[" ++ ",".intercalate (compactAll items) ++ "]"
  | .object fields => "\x7b" ++ ",".intercalate (compactFields fields) ++ "\x7d"

/-- Data without blanks. -/
def compactAll : List Json → List String
  | [] => []
  | item :: items => item.compact :: compactAll items

/-- Fields without blanks. -/
def compactFields : List (String × Json) → List String
  | [] => []
  | (name, value) :: fields => (writeText name ++ ":" ++ value.compact) :: compactFields fields

end

end ValueAlgebra.Json
