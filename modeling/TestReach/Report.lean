import TestReach.Coverage
import TestReach.JsonValue

/-!
# Reports

What a report shows, and the two kinds of reports that other programs read: a plain listing, with
the type and the name of each method on a line of its own, and a JSON document, which shows what was
left out or not understood only if there is any.
-/

namespace TestReach

/-- The version of the program that reports name. -/
def programVersion : String :=
  "0.1.0"

/-- What a report shows. -/
structure Report where
  modelPath : String
  markers : List String
  outcome : Outcome
  coverage : Coverage

/-- The report of an outcome, measured against a threshold. -/
def Report.ofOutcome (modelPath : String) (markers : List String) (outcome : Outcome)
    (threshold : Option Float) : Report :=
  { modelPath, markers, outcome, coverage := Coverage.ofOutcome outcome threshold }

/-! ## Plain listings -/

/-- The lines of a listing: the untested methods and then the tested ones. -/
def Outcome.listingLines (o : Outcome) : List String :=
  ["Untested Methods:", ""] ++ o.untested.map Entry.title ++
    ["Tested Methods:", ""] ++ o.tested.map Entry.title

/-- The listing of an outcome. -/
def Outcome.listing (o : Outcome) : String :=
  Text.unlines o.listingLines

/-! ## Structured reports -/

/-- The summary as JSON. -/
def Coverage.toJson (c : Coverage) : JsonValue :=
  .object
    [("tested", .count c.tested), ("untested", .count c.untested), ("total", .count c.total),
      ("percent", .real c.percent),
      ("threshold", match c.threshold with | some t => .real t | none => .null),
      ("passed", .bool c.passed)]

/-- A classified method as JSON. -/
def Entry.toJson (e : Entry) : JsonValue :=
  .object
    [("project", .string e.project), ("type", .string e.typeName), ("method", .string e.name),
      ("signature", .string e.signature)]

/-- A project that was left out as JSON. -/
def SkippedProject.toJson (p : SkippedProject) : JsonValue :=
  .object [("name", .string p.name), ("reason", .string p.reason)]

/-- A field with a list, if the list has items. -/
def nonEmptyField (name : String) (items : List JsonValue) : List (String × JsonValue) :=
  if items.isEmpty then [] else [(name, .array items)]

namespace Report

/-- The fields that a report shows only if there is something to show. -/
def diagnosticFields (o : Outcome) : List (String × JsonValue) :=
  nonEmptyField "skipped_projects" (o.skippedProjects.map SkippedProject.toJson) ++
    nonEmptyField "unresolved_attributes" (o.unresolvedAttributes.map .string) ++
    nonEmptyField "malformed_types" (o.malformedTypes.map .string)

/-- A report as JSON. -/
def toJson (r : Report) : JsonValue :=
  .object <|
    [("version", .string programVersion), ("model", .string r.modelPath),
      ("propagation", .string r.outcome.propagation.name),
      ("markers", JsonValue.strings r.markers), ("summary", r.coverage.toJson),
      ("projects_analyzed", .count r.outcome.projectsAnalyzed.toNat),
      ("tested", .array (r.outcome.tested.map Entry.toJson)),
      ("untested", .array (r.outcome.untested.map Entry.toJson))] ++
    diagnosticFields r.outcome

/-- The text of a structured report. -/
def structured (r : Report) : String :=
  r.toJson.pretty 0 ++ "\n"

end Report

end TestReach
