import ValueAlgebra.Text.ClusterTable
import ValueAlgebra.Text.PrintTable

/-!
# Quoted text

A text in a message stands between double quotes. A quote, a backslash, a tab and the ends of lines
are written with a backslash and a letter; a character that has no printed form, or that would join
the character before it, is written as its code point in base sixteen.
-/

namespace ValueAlgebra.Text

/-- Whether a character has a printed form of its own. -/
def isPrintable (c : Char) : Bool :=
  if c.toNat < 0x7F then 0x20 ≤ c.toNat else !inRanges unprintableRanges c.toNat

/-- Whether a character is a mark that joins the character before it. The two halfwidth sound marks
of Katakana join it too, but they are letters. -/
def isExtending (c : Char) : Bool :=
  0x300 ≤ c.toNat && c.toNat != 0xFF9E && c.toNat != 0xFF9F && inRanges extendRanges c.toNat

/-- A character as it stands between quotes. -/
def quotedChar (c : Char) : List Char :=
  match c with
  | '"' => ['\\', '"']
  | '\\' => ['\\', '\\']
  | '\n' => ['\\', 'n']
  | '\r' => ['\\', 'r']
  | '\t' => ['\\', 't']
  | '\x00' => ['\\', '0']
  | c =>
    if isExtending c || !isPrintable c then
      ['\\', 'u', '\x7b'] ++ Nat.toDigits 16 c.toNat ++ ['\x7d']
    else
      [c]

/-- A text between quotes. -/
def quoted (s : String) : String :=
  String.ofList (['"'] ++ s.toList.flatMap quotedChar ++ ['"'])

end ValueAlgebra.Text
