import TestReach.Text.Quoted

/-!
# Tokens

Questions to a program are asked under a token. Tokens derived from one another form a family:
cancelling one of them cancels all. A derived token can also expire: its deadline is the earlier of
its own and that of the token it was derived from.

The clock is a count of nanoseconds whose seconds have to fit a signed 64-bit number.
-/

namespace TestReach

/-- A reading of the clock, in nanoseconds. -/
abbrev Instant := Nat

/-- A length of time, in nanoseconds. -/
abbrev Duration := Nat

/-- So many seconds. -/
def Duration.ofSeconds (seconds : Nat) : Duration :=
  seconds * 1000000000

/-- A number of nanoseconds in words: the largest unit of which there is at least one, and the rest
as a decimal fraction. -/
def elapsedText (ns : Nat) : String :=
  let inUnit (unit digits : Nat) (name : String) : String :=
    let fraction := Nat.toDigits 10 (unit + ns % unit)
    let fraction := ((fraction.drop 1).reverse.dropWhile (· = '0')).reverse
    let whole := toString (ns / unit)
    if digits = 0 || fraction.isEmpty then whole ++ name
    else whole ++ "." ++ String.ofList fraction ++ name
  if ns ≥ 1000000000 then inUnit 1000000000 9 "s"
  else if ns ≥ 1000000 then inUnit 1000000 6 "ms"
  else if ns ≥ 1000 then inUnit 1000 3 "µs"
  else inUnit 1 0 "ns"

/-- Why a question to a program was not answered. -/
inductive QueryError where
  | unavailable (project reason : String)
  | cancelled
  | timedOut (elapsed : Nat)
  deriving DecidableEq, Repr

/-- The message for a question that was not answered. -/
def QueryError.message : QueryError → String
  | .unavailable project reason =>
    "project " ++ Text.quoted project ++ " is unavailable: " ++ reason
  | .cancelled => "analysis cancelled"
  | .timedOut elapsed => "analysis timed out after " ++ elapsedText elapsed

/-- A deadline that the clock cannot show. -/
structure ClockOverflow where
  deriving DecidableEq, Repr

/-- The message for a deadline that the clock cannot show. -/
def ClockOverflow.message (_ : ClockOverflow) : String :=
  "overflow when adding duration to instant"

/-- Whether the clock can show an instant. -/
def Instant.Shown (instant : Instant) : Prop :=
  instant / 1000000000 < Nat.pow 2 63

instance (instant : Instant) : Decidable (Instant.Shown instant) :=
  inferInstanceAs (Decidable (instant / 1000000000 < Nat.pow 2 63))

/-- The instant some time after another, if the clock can show it. -/
def Instant.after (now : Instant) (wait : Duration) : Except ClockOverflow Instant :=
  if Instant.Shown (now + wait) then .ok (now + wait) else .error ⟨⟩

/-- The right to ask, until the family is cancelled or the deadline has come. -/
structure Token where
  /-- Tokens of one family are cancelled together. -/
  family : Nat
  started : Instant
  deadline : Option Instant
  deriving DecidableEq, Repr, Inhabited

namespace Token

/-- A token of the same family that also expires when the timeout from now on is over. -/
def limited (t : Token) (now : Instant) (timeout : Duration) : Except ClockOverflow Token :=
  match now.after timeout with
  | .error e => .error e
  | .ok own =>
    let deadline :=
      match t.deadline with
      | some earlier => if earlier < own then earlier else own
      | none => own
    .ok { family := t.family, started := now, deadline := some deadline }

/-- A token of the same family that also expires some seconds from now. -/
def expiring (t : Token) (now : Instant) (seconds : Nat) : Except ClockOverflow Token :=
  t.limited now (.ofSeconds seconds)

/-- Whether the token still holds. Cancellation is reported before expiry. -/
def status (t : Token) (now : Instant) (cancelled : Bool) : Except QueryError Unit :=
  if cancelled then .error .cancelled
  else
    match t.deadline with
    | none => .ok ()
    | some deadline => if deadline ≤ now then .error (.timedOut (now - t.started)) else .ok ()

end Token

/-- What a token is checked against: the clock, and the families that are cancelled. -/
structure Watch (m : Type → Type) where
  now : m Instant
  cancelled : Nat → m Bool

/-- Check a token now. -/
def Watch.check {m : Type → Type} [Monad m] (w : Watch m) (t : Token) :
    m (Except QueryError Unit) := do
  let cancelled ← w.cancelled t.family
  let now ← w.now
  return t.status now cancelled

/-! ## Sessions -/

/-- A clock and the families of tokens handed out so far. -/
structure Session where
  clock : Instant := 0
  families : Nat := 0
  cancelled : List Nat := []
  deriving DecidableEq, Repr, Inhabited

namespace Session

/-- A token of a new family. -/
def newToken (s : Session) : Token × Session :=
  ({ family := s.families, started := s.clock, deadline := none },
    { s with families := s.families + 1 })

/-- Cancel a token and with it its whole family. -/
def cancel (s : Session) (t : Token) : Session :=
  { s with cancelled := t.family :: s.cancelled }

def isCancelled (s : Session) (t : Token) : Bool :=
  s.cancelled.contains t.family

/-- A token derived from another, which also expires when the timeout is over. -/
def limited (s : Session) (t : Token) (timeout : Duration) : Except ClockOverflow Token :=
  t.limited s.clock timeout

/-- A token derived from another, which also expires some seconds from now. -/
def expiring (s : Session) (t : Token) (seconds : Nat) : Except ClockOverflow Token :=
  t.expiring s.clock seconds

/-- Check a token at the session's time. -/
def check (s : Session) (t : Token) : Except QueryError Unit :=
  t.status s.clock (s.isCancelled t)

/-- Tokens are checked against the session itself. -/
def watch : Watch (StateM Session) where
  now := do return (← get).clock
  cancelled family := do return (← get).cancelled.contains family

end Session

end TestReach
