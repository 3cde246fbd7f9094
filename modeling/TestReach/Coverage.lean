import TestReach.Outcome

/-!
# Coverage

The share of the classified methods that are tested, in percent, rounded down to one place, and
whether it reaches a threshold.
-/

namespace TestReach

/-- A summary of an outcome. -/
structure Coverage where
  tested : Nat
  untested : Nat
  total : Nat
  percent : Float
  threshold : Option Float
  passed : Bool
  deriving Repr

namespace Coverage

/-- The share of `tested` in `total` in percent, in double precision; all of nothing is tested. -/
def percentOf (tested total : Nat) : Float :=
  if total = 0 then 100.0
  else (tested.toFloat / total.toFloat * 1000.0).floor / 10.0

/-- The summary of counts. Without a threshold every share passes. -/
def ofCounts (tested untested : Nat) (threshold : Option Float) : Coverage :=
  let percent := percentOf tested (tested + untested)
  { tested
    untested
    total := tested + untested
    percent
    threshold
    passed := threshold.all fun t => percent ≥ t }

/-- The summary of an outcome. -/
def ofOutcome (o : Outcome) (threshold : Option Float) : Coverage :=
  ofCounts o.tested.length o.untested.length threshold

end Coverage

end TestReach
