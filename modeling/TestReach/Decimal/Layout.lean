import TestReach.Decimal.Shortest

/-!
# Layouts of numbers

The three ways in which doubles are written: plainly in messages, as numbers of a JSON text, and as
percentages with one place.
-/

namespace TestReach.Decimal

/-- A sign for negative numbers. -/
def sign (negative : Bool) : String :=
  if negative then "-" else ""

/-- The digits before and after the point, when all are written out. -/
def Digits.parts (d : Digits) : List Char × List Char :=
  if d.point ≤ 0 then (['0'], List.replicate (-d.point).toNat '0' ++ d.digits)
  else
    let n := d.point.toNat
    (d.digits.take n ++ List.replicate (n - d.digits.length) '0', d.digits.drop n)

/-- All digits written out, with a point only if digits follow it. -/
def Digits.plain (d : Digits) : String :=
  match d.parts with
  | (whole, []) => String.ofList whole
  | (whole, fraction) => String.ofList whole ++ "." ++ String.ofList fraction

/-- All digits written out, with at least one after the point. -/
def Digits.pointed (d : Digits) : String :=
  match d.parts with
  | (whole, []) => String.ofList whole ++ ".0"
  | (whole, fraction) => String.ofList whole ++ "." ++ String.ofList fraction

/-- One digit before the point, and an exponent with its sign. -/
def Digits.scientific (d : Digits) : String :=
  let exponent := d.point - 1
  let tail := if exponent < 0 then "e" ++ toString exponent else "e+" ++ toString exponent
  match d.digits with
  | [] => "0" ++ tail
  | [c] => String.ofList [c] ++ tail
  | c :: rest => String.ofList [c] ++ "." ++ String.ofList rest ++ tail

/-- A number in a message: all digits, no exponent, and no point in a whole number. Of two equally
near shortest numbers the larger in magnitude is written. -/
def plain (x : Float) : String :=
  match valueOf x with
  | .nan => "NaN"
  | .infinite negative => sign negative ++ "inf"
  | .finite negative m e => sign negative ++ (shortest .up m e).plain

/-- A number in a JSON text: digits are written out if the first of them stands from five places
after to sixteen places before the point, a whole number gets `.0`, and what is not finite is
`null`. Of two equally near shortest numbers the one with the even last digit is written. -/
def json (x : Float) : String :=
  match valueOf x with
  | .nan => "null"
  | .infinite _ => "null"
  | .finite negative m e =>
    let d := shortest .even m e
    sign negative ++ if -5 < d.point && d.point ≤ 16 then d.pointed else d.scientific

/-- A number with one place, rounded from its exact value; a half goes to the even digit. -/
def onePlace (x : Float) : String :=
  match valueOf x with
  | .nan => "NaN"
  | .infinite negative => sign negative ++ "inf"
  | .finite negative m e =>
    let (num, den) := scaleTwo (10 * m) 1 e
    let tenths := roundDiv .even num den
    sign negative ++ toString (tenths / 10) ++ "." ++ toString (tenths % 10)

end TestReach.Decimal
