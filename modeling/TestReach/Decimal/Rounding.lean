/-!
# Rounding

Rounding quotients of natural numbers to the nearest whole number, where a half goes to the even
neighbour or up, and to the nearest double, where it goes to the even one.
-/

namespace TestReach.Decimal

/-- Which of two equally near neighbours is taken. -/
inductive Tie where
  | even
  | up
  deriving DecidableEq, Repr

/-- The whole number nearest to `num / den`; of two, the one that `tie` says. -/
def roundDiv (tie : Tie) (num den : Nat) : Nat :=
  let q := num / den
  let twice := 2 * (num % den)
  if twice < den then q
  else if den < twice then q + 1
  else if tie = .even ∧ q % 2 = 0 then q else q + 1

/-- `num / den` times a power of two. -/
def scaleTwo (num den : Nat) (e : Int) : Nat × Nat :=
  if 0 ≤ e then (num * Nat.pow 2 e.toNat, den) else (num, den * Nat.pow 2 (-e).toNat)

/-- `num / den` times a power of ten. -/
def scaleTen (num den : Nat) (e : Int) : Nat × Nat :=
  if 0 ≤ e then (num * Nat.pow 10 e.toNat, den) else (num, den * Nat.pow 10 (-e).toNat)

/-- The exponent of the last binary place of the doubles around `num / den`: 53 places are kept, but
none below `2 ^ (-1074)`. -/
def lastPlace (num den : Nat) : Int :=
  let guess : Int := num.log2 - den.log2 - 52
  let (n, d) := scaleTwo num den (-guess)
  max (-1074) (if n < d * Nat.pow 2 52 then guess - 1 else guess)

/-- Infinity. -/
def infinity : Float :=
  Float.ofBits (2047 * Nat.pow 2 52).toUInt64

/-- What is no number. -/
def notANumber : Float :=
  Float.ofBits (4095 * Nat.pow 2 51).toUInt64

/-- The double nearest to `num / den`, infinity if it is out of range. -/
def nearest (num den : Nat) : Float :=
  if num = 0 then 0.0
  else
    let e := lastPlace num den
    let (n, d) := scaleTwo num den (-e)
    let q := roundDiv .even n d
    let (q, e) := if q = Nat.pow 2 53 then (Nat.pow 2 52, e + 1) else (q, e)
    if 971 < e then infinity
    else
      let bits : Nat := if q < Nat.pow 2 52 then q else (e + 1074).toNat * Nat.pow 2 52 + q
      Float.ofBits bits.toUInt64

end TestReach.Decimal
