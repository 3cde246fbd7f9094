import TestReach.Ordered
import TestReach.ProjectOrder
import TestReach.SymbolTable.Declare
import TestReach.SymbolTable.Resolve

/-!
# Programs

A program is a solution with all its references resolved: the table of its symbols, what each of
them refers to, the callers of each method, and the projects in the order of analysis.

The methods of types and projects, the links and the callers are read off the table by number. To
write them down type by type while a solution is declared and linked comes to the same
(`Register.load_agrees`).
-/

namespace TestReach

/-- A project with the methods it declares. -/
structure Project where
  name : String
  error : Option String
  methods : List SymbolId
  deriving DecidableEq, Repr, Inhabited

/-- A loaded solution. -/
structure Program where
  table : SymbolTable
  /-- What the symbol of each number refers to. -/
  links : Array Link
  /-- The methods that call the symbol of each number. -/
  callerIndex : Array (List SymbolId)
  /-- The projects in the order of analysis. -/
  projects : List Project
  deriving Repr

namespace Program

/-- The number of symbols. -/
def size (p : Program) : Nat :=
  p.table.size

/-! ## What symbols refer to -/

/-- The base of a type. -/
def base (p : Program) (id : SymbolId) : Option SymbolId :=
  match p.links[id]? with
  | some (.type base _) => base
  | _ => none

/-- The interfaces that a type itself lists. -/
def interfaces (p : Program) (id : SymbolId) : List SymbolId :=
  match p.links[id]? with
  | some (.type _ interfaces) => interfaces
  | _ => []

/-- The attributes of a method. -/
def attributes (p : Program) (id : SymbolId) : List Attribute :=
  match p.links[id]? with
  | some (.method attributes _) => attributes
  | _ => []

/-- The methods that a method calls. -/
def callees (p : Program) (id : SymbolId) : List SymbolId :=
  match p.links[id]? with
  | some (.method _ callees) => callees
  | _ => []

/-- The methods that call a method, anywhere in the solution. -/
def callers (p : Program) (id : SymbolId) : List SymbolId :=
  p.callerIndex.getD id []

/-- The number of methods that projects declare. -/
def methodCount (p : Program) : Nat :=
  (p.projects.flatMap (·.methods)).length

/-! ## Loading -/

/-- The calls of a symbol, as pairs of caller and callee; a repeated call counts once. -/
def callsOf (caller : SymbolId) : Link → List (SymbolId × SymbolId)
  | .method _ callees => (firstNew [] callees).map fun callee => (caller, callee)
  | _ => []

/-- All calls, in the order of the callers' numbers. -/
def allCalls (links : List Link) : List (SymbolId × SymbolId) :=
  links.zipIdx.flatMap fun (link, caller) => callsOf caller link

/-- The callers of each of `n` symbols, in the order of the calls. -/
def indexCallers (n : Nat) (calls : List (SymbolId × SymbolId)) : Array (List SymbolId) :=
  calls.foldr (fun call index => index.modify call.2 (call.1 :: ·)) (Array.replicate n [])

/-- The projects at the positions of an order. -/
def arrange (decls : List ProjectDecl) (listings : List (List SymbolId)) (order : List Nat) :
    List Project :=
  order.map fun i =>
    let d := decls.getD i default
    { name := d.name, error := d.error, methods := listings.getD i [] }

/-- Load a solution: declare its symbols, resolve their references, order its projects. -/
def load (s : Solution) : Except LoadError Program :=
  match SymbolTable.ofSolution s with
  | .error e => .error e
  | .ok (table, listings) =>
    match table.resolveAll with
    | .error e => .error e
    | .ok links =>
      match ProjectOrder.order s.projects with
      | .error e => .error e
      | .ok order =>
        .ok
          { table
            links := links.toArray
            callerIndex := indexCallers table.size (allCalls links)
            projects := arrange s.projects listings order }

end Program

end TestReach
