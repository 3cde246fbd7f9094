import TestReach.Decimal.Rounding

/-!
# Shortest digits

The decimal digits by which a double is written: the fewest digits that read back as the same
double, and of those the nearest to it. Which of two equally near ones is taken is the writer's
choice.

The reals that read back as `m · 2 ^ e` form an interval around it, with its ends if `m` is even.
For one digit, two digits and so on, the two neighbours of the value on the grid of that many digits
are tried; the first grid with a neighbour in the interval gives the digits. Seventeen digits always
do.
-/

namespace TestReach.Decimal

/-- What a double stands for; a finite one is `mantissa · 2 ^ exponent` in magnitude. -/
inductive Value where
  | nan
  | infinite (negative : Bool)
  | finite (negative : Bool) (mantissa : Nat) (exponent : Int)
  deriving DecidableEq, Repr

/-- The value of a double, from its bits. -/
def valueOf (x : Float) : Value :=
  let bits := x.toBits.toNat
  let negative := bits / Nat.pow 2 63 == 1
  let biased : Nat := bits / Nat.pow 2 52 % Nat.pow 2 11
  let fraction := bits % Nat.pow 2 52
  if biased = 2047 then if fraction = 0 then .infinite negative else .nan
  else if biased = 0 then .finite negative fraction (-1074)
  else .finite negative (fraction + Nat.pow 2 52) ((biased : Int) - 1075)

/-- Digits, and the place of the point: the number is `0.digits` times ten to the power of
`point`. -/
structure Digits where
  digits : List Char
  point : Int
  deriving DecidableEq, Repr

/-- A whole number of units of `10 ^ unit`, without zeros at its end. -/
def Digits.ofUnits (count : Nat) (unit : Int) : Digits :=
  let digits := Nat.toDigits 10 count
  { digits := (digits.reverse.dropWhile (· = '0')).reverse, point := unit + digits.length }

/-- How many zeros follow the point of `num / den < 1`, at most `n`. -/
def leadingZeros : Nat → Nat → Nat → Nat
  | 0, _, _ => 0
  | n + 1, num, den => if den ≤ 10 * num then 0 else leadingZeros n (10 * num) den + 1

/-- The place of the point in the digits of `num / den`. -/
def pointOf (num den : Nat) : Int :=
  if den ≤ num then (Nat.toDigits 10 (num / den)).length else -(leadingZeros 400 num den : Int)

/-- The interval around a value, as three numerators over one denominator: its lower end, the value,
its upper end. The gap below a power of two is half the gap above. -/
structure Interval where
  low : Nat
  value : Nat
  high : Nat
  den : Nat
  closed : Bool

def Interval.around (m : Nat) (e : Int) : Interval :=
  let below := if m = Nat.pow 2 52 ∧ -1074 < e then 1 else 2
  let (num, den) := scaleTwo 1 1 (e - 2)
  { low := (4 * m - below) * num, value := 4 * m * num, high := (4 * m + 2) * num, den
    closed := m % 2 == 0 }

/-- Whether `count` units of `10 ^ unit` lie in the interval. -/
def Interval.contains (i : Interval) (count : Nat) (unit : Int) : Bool :=
  let (num, den) := scaleTen count 1 unit
  let x := num * i.den
  if i.closed then i.low * den ≤ x && x ≤ i.high * den
  else i.low * den < x && x < i.high * den

/-- The neighbour of the value on the grid of `10 ^ unit` that lies in the interval; of two the
nearer, and the one that `tie` says if they are equally near. -/
def Interval.pick (i : Interval) (tie : Tie) (unit : Int) : Option Nat :=
  let (num, den) := scaleTen i.value i.den (-unit)
  let count := num / den
  match i.contains count unit, i.contains (count + 1) unit with
  | true, true => some (roundDiv tie num den)
  | true, false => some count
  | false, true => some (count + 1)
  | false, false => none

/-- Try grids of `n` digits and more; `left` bounds how many grids are tried. -/
def Interval.digitsFrom (i : Interval) (tie : Tie) (point : Int) (n : Nat) : Nat → Digits
  | 0 =>
    let unit := point - n
    let (num, den) := scaleTen i.value i.den (-unit)
    Digits.ofUnits (roundDiv tie num den) unit
  | left + 1 =>
    match i.pick tie (point - n) with
    | some count => Digits.ofUnits count (point - n)
    | none => digitsFrom i tie point (n + 1) left

/-- The shortest digits of `m · 2 ^ e`. -/
def shortest (tie : Tie) (m : Nat) (e : Int) : Digits :=
  if m = 0 then ⟨['0'], 1⟩
  else
    let i := Interval.around m e
    i.digitsFrom tie (pointOf i.value i.den) 1 16

end TestReach.Decimal
