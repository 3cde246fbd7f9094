import TestReach.Command.Settings
import TestReach.Program.Source
import TestReach.Report.Display
import TestReach.Run

/-!
# The command for an analysis

Settings first, then the model, then the run and its report. The exit code says whether the share of
tested methods reaches the threshold.
-/

namespace TestReach.Command

/-- The forms of reports. -/
inductive ReportForm where
  | display
  | listing
  | structured
  deriving DecidableEq, Repr

/-- The form of a name. -/
def ReportForm.ofName? (name : String) : Option ReportForm :=
  if name = "pretty" then some .display
  else if name = "text" then some .listing
  else if name = "json" then some .structured
  else none

/-- The text of a report in a form. -/
def reportText (form : ReportForm) (r : Report) (showTested color : Bool) : String :=
  match form with
  | .display => r.display showTested (.ofColor color)
  | .listing => r.outcome.listing
  | .structured => r.structured

variable {m : Type → Type} [Monad m]

/-- Run an analysis of a program with its settings. -/
def runWith (h : Host m) (config : Config) (program : Program) :
    m (Except ClockOverflow Outcome) := do
  let criteria : Criteria :=
    { program, markers := config.markerSet, propagation := config.mode }
  let token ← h.newToken
  criteria.run h.watch (program.frontEnd h.watch) config.projectTimeout token

/-- Carry out an analysis. A timeout that the clock cannot show ends it. -/
def analyze (h : Host m) (color : Bool) (options : AnalyzeOptions) :
    m (Except ClockOverflow Output) := do
  match ReportForm.ofName? options.format with
  | none =>
    return .ok <| .failure
      ["Error: invalid format " ++ Text.quoted options.format ++
        ", must be 'pretty', 'text', or 'json'"]
  | some form =>
    match ← settings configOf h options with
    | .error e =>
      return .ok <| .failure
        ["Error: " ++ e.message, "Run 'testtrace init' to create a config file"]
    | .ok config =>
      match Program.ofFile options.model (← h.readText options.model) with
      | .error e =>
        return .ok <| .failure ["Error loading model " ++ options.model ++ ": " ++ e.message]
      | .ok program =>
        match ← runWith h config program with
        | .error e => return .error e
        | .ok outcome =>
          let report := Report.ofOutcome options.model config.markerSet.names outcome
            config.minTestedPercent
          return .ok
            { exitCode := if report.coverage.passed then 0 else 1
              out := reportText form report options.showTested color }

end TestReach.Command
