import TestReach.Decimal.Layout
import TestReach.Report
import TestReach.Report.Style

/-!
# Reports for reading

A report for people at a terminal: the settings, the result, the methods under the names of their
projects, what was noticed, and the result again.
-/

namespace TestReach

/-- A line of pieces. -/
abbrev Line := List Piece

namespace Report

open Piece Style

/-- The mark, the sign and the word for a result. -/
def resultPiece (passed : Bool) (yes no : String) : Piece :=
  if passed then green.piece yes else red.piece no

/-- The style of a percentage: the lower, the more alarming. -/
def percentStyle (percent : Float) : Style :=
  if percent ≥ 80.0 then both bold green
  else if percent ≥ 60.0 then green
  else if percent ≥ 40.0 then yellow
  else if percent ≥ 20.0 then both bold yellow
  else red

/-- A percentage with one place. -/
def percentPiece (percent : Float) : Piece :=
  (percentStyle percent).piece (Decimal.onePlace percent ++ "%")

/-- The program and the settings of the run. -/
def headLines (r : Report) : List Line :=
  [[],
    [plain "  ", (both bold cyan).piece "testtrace", plain (" v" ++ programVersion)],
    [],
    [plain "  ", dimmed.piece "Model:       ", plain r.modelPath],
    [plain "  ", dimmed.piece "Propagation: ", plain r.outcome.propagation.name],
    [plain "  ", dimmed.piece "Markers:     ", plain (Text.joinWith ", " r.markers)],
    []]

/-- The result and the numbers behind it. -/
def summaryLine (r : Report) : Line :=
  let c := r.coverage
  let projects := r.outcome.projectsAnalyzed.toNat
  [plain "  ", resultPiece c.passed "✓ PASS" "✗ FAIL", plain "  Tested: ", percentPiece c.percent,
    plain ("  (" ++ toString c.tested ++ " of " ++ toString c.total ++ " methods, " ++
      toString projects ++ " project" ++ (if projects = 1 then "" else "s") ++ ")")]

/-- A row of a section: the name of a project, or a method of the project named last. -/
inductive Row where
  | project (name : String)
  | method (e : Entry)
  deriving DecidableEq, Repr

/-- The rows for methods: the name of a project comes before the first of each run of its methods,
unless it is the project named last. -/
def rows : Option String → List Entry → List Row
  | _, [] => []
  | current, e :: rest =>
    if current = some e.project then .method e :: rows current rest
    else .project e.project :: .method e :: rows (some e.project) rest

/-- The line of a row; methods have a mark. -/
def Row.line (mark : Piece) : Row → Line
  | .project name => [plain "    ", dimmed.piece name]
  | .method e =>
    [plain "      ", mark, plain " ", blue.piece e.typeName, plain (" " ++ e.signature)]

/-- A section of methods; without methods there is none. -/
def methodSection (title : String) (mark : Piece) (entries : List Entry) : List Line :=
  if entries.isEmpty then []
  else
    [plain "  ", bold.piece title, plain (" (" ++ toString entries.length ++ "):")] :: [] ::
      (rows none entries).map (Row.line mark) ++ [[]]

/-- What was left out or not understood. -/
def diagnosticLines (o : Outcome) : List Line :=
  if !o.hasDiagnostics then []
  else
    [plain "  ", bold.piece "Diagnostics:"] ::
      o.skippedProjects.map (fun p =>
        [plain "    ", yellow.piece "SKIP ", plain " ", blue.piece p.name, plain "  ",
          dimmed.piece p.reason]) ++
      o.unresolvedAttributes.map (fun name =>
        [plain "    ", blue.piece "INFO ", plain (" unresolved attribute type " ++ name)]) ++
      o.malformedTypes.map (fun name =>
        [plain "    ", yellow.piece "WARN ", plain (" cyclic base type chain in " ++ name)]) ++
      [[]]

/-- The threshold in words. -/
def thresholdText : Option Float → String
  | some t => "Threshold: " ++ Decimal.onePlace t ++ "%"
  | none => "Threshold: none"

/-- The threshold and the result. -/
def statusLine (c : Coverage) : Line :=
  [plain "  ", dimmed.piece (thresholdText c.threshold), plain "  Tested: ",
    percentPiece c.percent, plain "  ", resultPiece c.passed "PASSED" "FAILED"]

/-- The lines of a report. -/
def displayLines (r : Report) (showTested : Bool) : List Line :=
  r.headLines ++ [r.summaryLine, []] ++
    methodSection "Untested" (red.piece "✗") r.outcome.untested ++
    (if showTested then methodSection "Tested" (green.piece "✓") r.outcome.tested else []) ++
    diagnosticLines r.outcome ++
    [statusLine r.coverage, []]

/-- The text of a report. -/
def display (r : Report) (showTested : Bool) (paint : Painter) : String :=
  String.join ((r.displayLines showTested).map fun line => Piece.render paint line ++ "\n")

end Report

end TestReach
