import TestReach.Document
import TestReach.Outcome

/-!
# Reading outcomes

An outcome as a document holds it.
-/

namespace TestReach

/-- The modes by their names. -/
def Propagation.choices : List (String × Propagation) :=
  [.transitive, .oneHop].map fun p => (p.name, p)

/-- Read a mode. -/
def Propagation.decode? (fmt : Format) (depth : Nat) (doc : Doc) : Option Propagation :=
  doc.choice? fmt Propagation.choices depth

/-- Read a classified method. -/
def Entry.decode? (fmt : Format) (depth : Nat) (doc : Doc) : Option Entry := do
  match ← doc.record? fmt ["project", "type_name", "name", "parameters"] depth with
  | [project, typeName, name, parameters] =>
    let project ← required? Doc.text? project
    let typeName ← required? Doc.text? typeName
    let name ← required? Doc.text? name
    let parameters ← textsField? (depth - 1) parameters
    return { project, typeName, name, parameters }
  | _ => none

/-- Read a project that was left out. -/
def SkippedProject.decode? (fmt : Format) (depth : Nat) (doc : Doc) : Option SkippedProject := do
  match ← doc.record? fmt ["name", "reason"] depth with
  | [name, reason] =>
    let name ← required? Doc.text? name
    let reason ← required? Doc.text? reason
    return { name, reason }
  | _ => none

/-- The fields of an outcome, in order. -/
def Outcome.fieldNames : List String :=
  ["propagation", "tested", "untested", "projects_analyzed", "skipped_projects",
    "unresolved_attributes", "malformed_types"]

/-- Read an outcome. -/
def Outcome.decode? (fmt : Format) (doc : Doc) : Option Outcome := do
  let depth := fmt.depth - 1
  let entries := Doc.list? (Entry.decode? fmt (depth - 1)) depth
  let projects := Doc.list? (SkippedProject.decode? fmt (depth - 1)) depth
  match ← doc.record? fmt Outcome.fieldNames fmt.depth with
  | [propagation, tested, untested, projectsAnalyzed, skipped, unresolved, malformed] =>
    let propagation ← required? (Propagation.decode? fmt depth) propagation
    let tested ← required? entries tested
    let untested ← required? entries untested
    let projectsAnalyzed ← (required? Doc.count? projectsAnalyzed).map Nat.toUInt64
    let skippedProjects ← defaulted? [] projects skipped
    let unresolvedAttributes ← textsField? depth unresolved
    let malformedTypes ← textsField? depth malformed
    return { propagation, tested, untested, projectsAnalyzed, skippedProjects,
             unresolvedAttributes, malformedTypes }
  | _ => none

end TestReach
