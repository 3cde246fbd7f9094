import TestReach.MethodRef
import TestReach.Ordered
import TestReach.Propagation

/-!
# Outcomes

What a run reports: the tested and the untested methods, the projects that were left out, and what
was noticed on the way.
-/

namespace TestReach

/-- A classified method, with what is needed to print it. -/
structure Entry where
  project : String
  typeName : String
  name : String
  parameters : List String := []
  deriving DecidableEq, Repr, Inhabited

/-- The method with its parameters. -/
def Entry.signature (e : Entry) : String :=
  TestReach.signature e.name e.parameters

/-- The method after its type. -/
def Entry.title (e : Entry) : String :=
  e.typeName ++ " " ++ e.name

/-- A project that was left out, and why. -/
structure SkippedProject where
  name : String
  reason : String
  deriving DecidableEq, Repr, Inhabited

/-- The result of a run. -/
structure Outcome where
  propagation : Propagation
  tested : List Entry := []
  untested : List Entry := []
  /-- The number of projects that were analysed to their end, as a word of 64 bits. -/
  projectsAnalyzed : UInt64 := 0
  skippedProjects : List SkippedProject := []
  unresolvedAttributes : List String := []
  malformedTypes : List String := []
  deriving DecidableEq, Repr, Inhabited

namespace Outcome

/-- The outcome before anything is analysed. -/
def empty (propagation : Propagation) : Outcome :=
  { propagation }

/-- Record a method on the side its verdict says. -/
def add (o : Outcome) (e : Entry) (tested : Bool) : Outcome :=
  if tested then { o with tested := o.tested ++ [e] } else { o with untested := o.untested ++ [e] }

/-- Record a project that was left out. -/
def skip (o : Outcome) (name reason : String) : Outcome :=
  { o with skippedProjects := o.skippedProjects ++ [⟨name, reason⟩] }

/-- Append the names of the second list that the first does not have, each once. -/
def mergeNames (names more : List String) : List String :=
  names ++ firstNew names more

/-- Append another outcome. The mode stays that of the first. -/
def merge (o other : Outcome) : Outcome :=
  { o with
    tested := o.tested ++ other.tested
    untested := o.untested ++ other.untested
    projectsAnalyzed := o.projectsAnalyzed + other.projectsAnalyzed
    skippedProjects := o.skippedProjects ++ other.skippedProjects
    unresolvedAttributes := mergeNames o.unresolvedAttributes other.unresolvedAttributes
    malformedTypes := mergeNames o.malformedTypes other.malformedTypes }

/-- The number of classified methods. -/
def total (o : Outcome) : Nat :=
  o.tested.length + o.untested.length

/-- Whether anything was left out or could not be evaluated. -/
def hasDiagnostics (o : Outcome) : Bool :=
  !o.skippedProjects.isEmpty || !o.unresolvedAttributes.isEmpty || !o.malformedTypes.isEmpty

end Outcome

end TestReach
