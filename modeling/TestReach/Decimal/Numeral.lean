import TestReach.Decimal.Rounding

/-!
# Numerals

A numeral is a number as it is written: a sign, digits before and after a point, and an exponent.
It is read as a double in one of two ways. `exact` gives the nearest double. `scaled`, which is how
numbers of JSON texts are read, takes the leading digits that fit 64 bits as a double and multiplies
or divides it once by a power of ten; that is the nearest double whenever both are exact.
-/

namespace TestReach.Decimal

/-- A number as it is written. -/
structure Numeral where
  negative : Bool
  whole : List Char
  fraction : List Char
  exponent : Int
  /-- Neither a point nor an exponent is written. -/
  isWhole : Bool
  deriving DecidableEq, Repr

/-- The value of a digit. -/
def digitValue (c : Char) : Nat :=
  c.toNat - '0'.toNat

/-- The number that decimal digits stand for. -/
def natOfDigits (digits : List Char) : Nat :=
  digits.foldl (fun n c => 10 * n + digitValue c) 0

/-- The largest number of 64 bits. -/
def maxWord : Nat :=
  UInt64.size - 1

/-- A double with a sign. -/
def withSign (negative : Bool) (x : Float) : Float :=
  if negative then -x else x

namespace Numeral

/-- The whole number of a numeral without sign, point and exponent, if it fits 64 bits. -/
def unsigned? (n : Numeral) : Option Nat :=
  let value := natOfDigits n.whole
  if n.isWhole && !n.negative && value ≤ maxWord then some value else none

/-- The nearest double; infinity if it is out of range. An exponent far out of range is cut. -/
def exact (n : Numeral) : Float :=
  let digits := (n.whole ++ n.fraction).dropWhile (· = '0')
  let mantissa := natOfDigits digits
  let e := n.exponent - n.fraction.length
  let magnitude : Float :=
    if mantissa = 0 then 0.0
    else if 400 < e + digits.length then infinity
    else if e + digits.length < -400 then 0.0
    else
      let (num, den) := scaleTen mantissa 1 e
      nearest num den
  withSign n.negative magnitude

/-- The leading digits before the point that fit 64 bits, and how many digits are left. -/
def takeWhole (significand : Nat) : List Char → Nat × Nat
  | [] => (significand, 0)
  | c :: cs =>
    let next := 10 * significand + digitValue c
    if maxWord < next then (significand, cs.length + 1) else takeWhole next cs

/-- The digits after the point that fit 64 bits as well, and how many there are. -/
def takeFraction (significand : Nat) : List Char → Nat × Nat
  | [] => (significand, 0)
  | c :: cs =>
    let next := 10 * significand + digitValue c
    if maxWord < next then (significand, 0)
    else
      let (significand, taken) := takeFraction next cs
      (significand, taken + 1)

/-- A double times a power of ten, by one multiplication or division; a large negative power takes
some more divisions, and at most `n`. There is no result if it is out of range. -/
def timesTen (x : Float) (e : Int) : Nat → Option Float
  | 0 => some 0.0
  | n + 1 =>
    if e.natAbs ≤ 308 then
      let power := nearest (Nat.pow 10 e.natAbs) 1
      if 0 ≤ e then
        let y := x * power
        if y.isInf then none else some y
      else some (x / power)
    else if x == 0.0 then some x
    else if 0 ≤ e then none
    else timesTen (x / nearest (Nat.pow 10 308) 1) (e + 308) n

/-- The double that the leading digits, scaled once, give; none if it is out of range. -/
def scaled? (n : Numeral) : Option Float :=
  let (significand, left) := takeWhole 0 n.whole
  let (significand, taken) := takeFraction significand n.fraction
  let e : Int := n.exponent + left - taken
  (timesTen significand.toUInt64.toFloat e 8).map (withSign n.negative)

/-- Decimal digits at the start of a text, and the rest of it. -/
def spanDigits (cs : List Char) : List Char × List Char :=
  cs.span (·.isDigit)

/-- An exponent that makes up a whole text, after its mark. -/
def exponent? (cs : List Char) : Option Int :=
  let (negative, digits) :=
    match cs with
    | '-' :: rest => (true, rest)
    | '+' :: rest => (false, rest)
    | _ => (false, cs)
  if digits.isEmpty || !digits.all (·.isDigit) then none
  else
    let value : Int := natOfDigits digits
    some (if negative then -value else value)

/-- Read an unsigned numeral with at least one digit on either side of the point, which may be
missing, and perhaps an exponent. -/
def parseUnsigned? (negative : Bool) (cs : List Char) : Option Numeral :=
  let (whole, rest) := spanDigits cs
  let (pointed, fraction, rest) :=
    match rest with
    | '.' :: rest => (true, spanDigits rest)
    | _ => (false, [], rest)
  if whole.isEmpty && fraction.isEmpty then none
  else
    match rest with
    | [] => some { negative, whole, fraction, exponent := 0, isWhole := !pointed }
    | c :: rest =>
      if c = 'e' ∨ c = 'E' then
        (exponent? rest).map fun exponent =>
          { negative, whole, fraction, exponent, isWhole := false }
      else none

end Numeral

/-- A double from a text: a sign, then a numeral or the word for infinity or for no number, in any
case. -/
def parseFloat? (text : String) : Option Float :=
  let (negative, cs) :=
    match text.toList with
    | '-' :: rest => (true, rest)
    | '+' :: rest => (false, rest)
    | cs => (false, cs)
  let word := String.ofList (cs.map (·.toLower))
  if word = "inf" ∨ word = "infinity" then
    some (withSign negative infinity)
  else if word = "nan" then some notANumber
  else (Numeral.parseUnsigned? negative cs).map Numeral.exact

/-- A number of 64 bits from a text: decimal digits, perhaps after a plus sign. -/
def parseWord? (text : String) : Option Nat :=
  let digits :=
    match text.toList with
    | '+' :: rest => rest
    | cs => cs
  if digits.isEmpty || !digits.all (·.isDigit) then none
  else
    let value := natOfDigits digits
    if value ≤ maxWord then some value else none

end TestReach.Decimal
