import TestReach.FrontEnd
import TestReach.Marker.Detector
import TestReach.Propagation

/-!
# Verdicts

A method is *tested* when it is a test by itself, or when a test reaches it: through one call, or
through any number of calls. Reaching is searched backwards, from the method over its callers and
the callers of these, breadth first.

Every search that comes to an end is remembered. A search that finds a test says so of the method it
started from; one that finds none says of every method it met that it is untested, since whatever
calls one of these was met as well. A search that is not answered leaves nothing behind.

The methods of a project could be classified side by side, on what has been remembered so far. Here
they are classified one after the other (`Criteria.classifyAll`); a run that is not interrupted
reports the same in every order (`Criteria.run_reports_in_any_order`).
-/

namespace TestReach

/-- The methods whose verdict is known. -/
structure Verdicts where
  tested : List SymbolId := []
  untested : List SymbolId := []
  deriving DecidableEq, Repr, Inhabited

namespace Verdicts

/-- The verdict on a method, if it is known. -/
def get? (v : Verdicts) (id : SymbolId) : Option Bool :=
  if v.tested.contains id then some true
  else if v.untested.contains id then some false
  else none

/-- Remember that a method is tested. -/
def addTested (v : Verdicts) (id : SymbolId) : Verdicts :=
  { v with tested := id :: v.tested }

/-- Remember that methods are untested. -/
def addUntested (v : Verdicts) (ids : List SymbolId) : Verdicts :=
  { v with untested := firstNew v.untested ids ++ v.untested }

end Verdicts

/-- What an analysis looks for. -/
structure Criteria where
  program : Program
  markers : MarkerSet
  propagation : Propagation

/-- What an analysis has found out so far. -/
structure Findings where
  detector : Detector := {}
  verdicts : Verdicts := {}
  deriving DecidableEq, Repr, Inhabited

namespace Criteria

/-- Whether a method is a test by itself. -/
def isMarker (c : Criteria) (id : SymbolId) (d : Detector) : Bool × Detector :=
  d.isMarker c.program c.markers id

/-- Whether one of some methods is a test by itself. -/
def anyIsMarker (c : Criteria) (d : Detector) : List SymbolId → Bool × Detector
  | [] => (false, d)
  | id :: rest =>
    match c.isMarker id d with
    | (true, d) => (true, d)
    | (false, d) => anyIsMarker c d rest

/-! ## Searching -/

/-- How a search ended: at a test, or with all the methods it met and no test among them. -/
inductive SearchEnd where
  | found
  | exhausted (met : List SymbolId)
  deriving DecidableEq, Repr

/-- What a search does about a method that it takes from the queue. -/
inductive Standing where
  /-- The method is tested, and so is where the search started. -/
  | tested
  /-- No test reaches the method. -/
  | untested
  /-- The callers of the method have to be asked for. -/
  | pending
  deriving DecidableEq, Repr

/-- How a method other than the start of the search stands. -/
def standing (c : Criteria) (v : Verdicts) (id : SymbolId) (d : Detector) : Standing × Detector :=
  match v.get? id with
  | some true => (.tested, d)
  | some false => (.untested, d)
  | none =>
    match c.isMarker id d with
    | (true, d) => (.tested, d)
    | (false, d) => (.pending, d)

variable {m : Type → Type} [Monad m]

/-- Search from `start` with the methods of `queue` still to be looked at and those of `met` already
met, taking at most `n` methods from the queue. -/
def search (c : Criteria) (ask : SymbolId → m (Except QueryError (List SymbolId)))
    (v : Verdicts) (start : SymbolId) :
    Nat → List SymbolId → List SymbolId → Detector →
      m (Except QueryError SearchEnd × Detector)
  | 0, _, met, d => return (.ok (.exhausted met), d)
  | _ + 1, [], met, d => return (.ok (.exhausted met), d)
  | n + 1, id :: queue, met, d =>
    match if id = start then (Standing.pending, d) else c.standing v id d with
    | (.tested, d) => return (.ok .found, d)
    | (.untested, d) => search c ask v start n queue met d
    | (.pending, d) => do
      match ← ask id with
      | .error e => return (.error e, d)
      | .ok callers =>
        let new := firstNew met callers
        search c ask v start n (queue ++ new) (met ++ new) d

/-- What the numbers of symbols stay below: they have 32 bits, and a program has none from its size
on. -/
def numberLimit (c : Criteria) : Nat :=
  max c.program.size UInt32.size

/-- Search from a method. Each symbol comes into the queue once, so that the number of symbols is
enough, and one more for a start that is no symbol. -/
def searchFrom (c : Criteria) (ask : SymbolId → m (Except QueryError (List SymbolId)))
    (v : Verdicts) (start : SymbolId) (d : Detector) : m (Except QueryError SearchEnd × Detector) :=
  c.search ask v start (c.numberLimit + 2) [start] [start] d

/-! ## Classifying -/

/-- Whether a test calls a method directly. -/
def classifyOneHop (c : Criteria) (ask : SymbolId → m (Except QueryError (List SymbolId)))
    (id : SymbolId) (f : Findings) : m (Except QueryError Bool × Findings) := do
  match ← ask id with
  | .error e => return (.error e, f)
  | .ok callers =>
    let (verdict, d) := c.anyIsMarker f.detector callers
    return (.ok verdict, { f with detector := d })

/-- What is known after a search from a method. -/
def concludes (v : Verdicts) (start : SymbolId) : SearchEnd → Bool × Verdicts
  | .found => (true, v.addTested start)
  | .exhausted met => (false, v.addUntested met)

/-- Whether a test reaches a method through any number of calls. -/
def classifyTransitive (c : Criteria) (ask : SymbolId → m (Except QueryError (List SymbolId)))
    (id : SymbolId) (f : Findings) : m (Except QueryError Bool × Findings) := do
  match f.verdicts.get? id with
  | some verdict => return (.ok verdict, f)
  | none =>
    match ← c.searchFrom ask f.verdicts id f.detector with
    | (.error e, d) => return (.error e, { f with detector := d })
    | (.ok searchEnd, d) =>
      let (verdict, v) := concludes f.verdicts id searchEnd
      return (.ok verdict, { detector := d, verdicts := v })

/-- Whether a method is tested. -/
def classify (c : Criteria) (ask : SymbolId → m (Except QueryError (List SymbolId)))
    (id : SymbolId) (f : Findings) : m (Except QueryError Bool × Findings) :=
  match c.isMarker id f.detector with
  | (true, d) => return (.ok true, { f with detector := d })
  | (false, d) =>
    match c.propagation with
    | .oneHop => c.classifyOneHop ask id { f with detector := d }
    | .transitive => c.classifyTransitive ask id { f with detector := d }

/-- Classify methods one after the other, up to the first that is not answered. -/
def classifyAll (c : Criteria) (ask : SymbolId → m (Except QueryError (List SymbolId))) :
    List SymbolId → Findings → m (Except QueryError (List Bool) × Findings)
  | [], f => return (.ok [], f)
  | id :: rest, f => do
    match ← c.classify ask id f with
    | (.error e, f) => return (.error e, f)
    | (.ok verdict, f) =>
      match ← classifyAll c ask rest f with
      | (.error e, f) => return (.error e, f)
      | (.ok verdicts, f) => return (.ok (verdict :: verdicts), f)

end Criteria

end TestReach
