import TestReach.Text.Unprinted

/-!
# Quoted text

Error messages quote names and paths: double quotes around the text, a backslash before a quote or
a backslash, letters for tab, line feed, carriage return and NUL, and the number in hexadecimal
for every other character without a glyph of its own.
-/

namespace TestReach.Text

/-! ## Hexadecimal digits -/

/-- The value of a hexadecimal digit, in either case. -/
def hexValue? (c : Char) : Option Nat :=
  if c.isDigit then some (c.toNat - '0'.toNat)
  else if 'a' ≤ c ∧ c ≤ 'f' then some (c.toNat - 'a'.toNat + 10)
  else if 'A' ≤ c ∧ c ≤ 'F' then some (c.toNat - 'A'.toNat + 10)
  else none

/-- The hexadecimal digits of a number, lower case, without leading zeros. -/
def hexDigits (n : Nat) : String :=
  String.ofList (Nat.toDigits 16 n)

/-! ## Quotes -/

/-- How one character is written inside quotes. -/
def quotedChar (c : Char) : String :=
  match c with
  | '"' => "\\\""
  | '\\' => "\\\\"
  | '\t' => "\\t"
  | '\n' => "\\n"
  | '\r' => "\\r"
  | '\x00' => "\\0"
  | c => if isUnprinted c then "\\u\x7b" ++ hexDigits c.toNat ++ "\x7d" else c.toString

/-- A text in quotes. -/
def quoted (s : String) : String :=
  "\"" ++ String.join (s.toList.map quotedChar) ++ "\""

end TestReach.Text
