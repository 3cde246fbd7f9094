import TestReach.Outcome
import TestReach.Verdict

/-!
# Runs

A run goes through the projects of a front end in order. Each project is asked for its methods,
those that no earlier project has claimed are classified, and only when all of them are does the
project claim them and its part of the outcome count. A project that fails on the way is left out
with the reason, and the run goes on.

The methods of a project may be classified side by side and in any order; the way is a parameter
(`Criteria.Classifier`). A run takes them one after the other, as they are listed.
-/

namespace TestReach

/-- What a run has done so far. -/
structure RunState where
  outcome : Outcome
  /-- The methods claimed by the projects that are finished. -/
  claimed : List SymbolId := []
  findings : Findings := {}
  deriving DecidableEq, Repr

namespace Criteria

/-- A method as it is reported. -/
def describe (c : Criteria) (ref : ProjectRef) (id : SymbolId) : Entry :=
  let t := c.program.table
  { project := ref.name
    typeName := ((t.containingType id).map t.qualifiedName).getD ""
    name := ((t.symbol? id).map (·.name)).getD ""
    parameters := ((t.symbol? id).map (·.parameters)).getD [] }

/-- The part of the outcome that a finished project contributes. -/
def partOf (c : Criteria) (ref : ProjectRef) (methods : List SymbolId) (verdicts : List Bool) :
    Outcome :=
  let o := (methods.zip verdicts).foldl (fun o mv => o.add (c.describe ref mv.1) mv.2)
    (Outcome.empty c.propagation)
  { o with projectsAnalyzed := 1 }

variable {m : Type → Type} [Monad m]

/-- A way to classify the methods of a project, given whom to ask for callers. -/
abbrev Classifier (m : Type → Type) :=
  ProjectRef → (SymbolId → m (Except QueryError (List SymbolId))) → List SymbolId → Findings →
    m (Except QueryError (List Bool) × Findings)

/-- Analyse one project under a token. -/
def runProjectBy (c : Criteria) (classifier : Classifier m) (front : FrontEnd m) (token : Token)
    (ref : ProjectRef) (s : RunState) : m RunState := do
  match ← front.methods token ref with
  | .error e => return { s with outcome := s.outcome.skip ref.name e.message }
  | .ok methods =>
    let fresh := firstNew s.claimed methods
    match ← classifier ref (front.callers token) fresh s.findings with
    | (.error e, f) =>
      return { s with outcome := s.outcome.skip ref.name e.message, findings := f }
    | (.ok verdicts, f) =>
      let outcome := s.outcome.merge (c.partOf ref fresh verdicts)
      return { outcome, claimed := s.claimed ++ fresh, findings := f }

/-- The token for one project: it expires after the timeout, if there is one. -/
def projectToken (w : Watch m) (timeout : Option Nat) (token : Token) :
    m (Except ClockOverflow Token) := do
  match timeout with
  | none => return .ok token
  | some seconds =>
    let now ← w.now
    return token.expiring now seconds

/-- Analyse projects one after the other. -/
def runProjectsBy (c : Criteria) (classifier : Classifier m) (w : Watch m) (front : FrontEnd m)
    (timeout : Option Nat) (token : Token) :
    List ProjectRef → RunState → m (Except ClockOverflow RunState)
  | [], s => return .ok s
  | ref :: rest, s => do
    match ← projectToken w timeout token with
    | .error e => return .error e
    | .ok projectToken =>
      let s ← c.runProjectBy classifier front projectToken ref s
      runProjectsBy c classifier w front timeout token rest s

/-- The outcome with what the detector has noted. -/
def finish (s : RunState) : Outcome :=
  { s.outcome with
    unresolvedAttributes := s.findings.detector.unresolved
    malformedTypes := s.findings.detector.malformed }

/-- Analyse all projects of a front end, each for at most `timeout` seconds. -/
def runBy (c : Criteria) (classifier : Classifier m) (w : Watch m) (front : FrontEnd m)
    (timeout : Option Nat) (token : Token) : m (Except ClockOverflow Outcome) := do
  match ← c.runProjectsBy classifier w front timeout token front.projects
      { outcome := Outcome.empty c.propagation } with
  | .error e => return .error e
  | .ok s => return .ok (finish s)

/-! ## Methods one after the other -/

/-- Analyse one project, its methods one after the other. -/
def runProject (c : Criteria) (front : FrontEnd m) (token : Token) (ref : ProjectRef)
    (s : RunState) : m RunState :=
  c.runProjectBy (fun _ => c.classifyAll) front token ref s

/-- Analyse projects, the methods of each one after the other. -/
def runProjects (c : Criteria) (w : Watch m) (front : FrontEnd m) (timeout : Option Nat)
    (token : Token) (refs : List ProjectRef) (s : RunState) :
    m (Except ClockOverflow RunState) :=
  c.runProjectsBy (fun _ => c.classifyAll) w front timeout token refs s

/-- Analyse all projects of a front end, the methods of each one after the other. -/
def run (c : Criteria) (w : Watch m) (front : FrontEnd m) (timeout : Option Nat) (token : Token) :
    m (Except ClockOverflow Outcome) :=
  c.runBy (fun _ => c.classifyAll) w front timeout token

end Criteria

end TestReach
