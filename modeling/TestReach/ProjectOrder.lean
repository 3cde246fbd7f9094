import TestReach.LoadError

/-!
# The order of projects

Projects are analysed after the projects they refer to. Of the projects that are ready the one
declared first goes next; the projects that are never ready, because a cycle of references is in
their way, follow at the end as they were declared.
-/

namespace TestReach.ProjectOrder

/-- The position of the last project of a name. -/
def positionOf (projects : List ProjectDecl) (name : String) : Option Nat :=
  (projects.zipIdx.reverse.find? fun p => p.1.name == name).map (·.2)

/-- The position that one reference of a project denotes. -/
def resolveReference (projects : List ProjectDecl) (p : ProjectDecl) (reference : String) :
    Except LoadError Nat :=
  match positionOf projects reference with
  | some i => .ok i
  | none => .error (.unknownProject reference p.name)

/-- The positions that each project refers to. -/
def references (projects : List ProjectDecl) : Except LoadError (List (List Nat)) :=
  projects.mapM fun p => p.references.mapM (resolveReference projects p)

/-- A project that is not yet in the order, while all it refers to, itself apart, is. -/
def isReady (refs : List (List Nat)) (done : List Nat) (i : Nat) : Bool :=
  !done.contains i && (refs.getD i []).all fun d => done.contains d || d == i

/-- Extend an order by at most `n` projects that are ready, and by all the others once none is. -/
def extend (refs : List (List Nat)) : Nat → List Nat → List Nat
  | 0, done => done
  | n + 1, done =>
    match (List.range refs.length).find? (isReady refs done) with
    | some i => extend refs n (done ++ [i])
    | none => done ++ (List.range refs.length).filter fun i => !done.contains i

/-- The positions of the projects in the order of analysis. -/
def order (projects : List ProjectDecl) : Except LoadError (List Nat) :=
  match references projects with
  | .error e => .error e
  | .ok refs => .ok (extend refs refs.length [])

end TestReach.ProjectOrder
