import TestReach.Program
import TestReach.Token

/-!
# Front ends

A front end answers the two questions of an analysis that may fail: which methods a project has, and
which methods call a method. Its answers may depend on anything that changes between questions,
which is what the monad stands for. The usual front end answers from a loaded program, as long as
the token holds.
-/

namespace TestReach

/-- A project as an analysis refers to it. -/
structure ProjectRef where
  index : Nat
  name : String
  deriving DecidableEq, Repr

/-- The questions of an analysis. -/
structure FrontEnd (m : Type → Type) where
  /-- The projects, in the order of analysis. -/
  projects : List ProjectRef
  methods : Token → ProjectRef → m (Except QueryError (List SymbolId))
  callers : Token → SymbolId → m (Except QueryError (List SymbolId))

namespace Program

/-- The projects of a program, in the order of analysis. -/
def projectRefs (p : Program) : List ProjectRef :=
  p.projects.zipIdx.map fun (project, index) => ⟨index, project.name⟩

/-- The methods of a project, unless it cannot be analysed. -/
def listMethods (p : Program) (ref : ProjectRef) : Except QueryError (List SymbolId) :=
  match p.projects[ref.index]? with
  | none => .error (.unavailable ref.name "not part of this snapshot")
  | some project =>
    match project.error with
    | some reason => .error (.unavailable project.name reason)
    | none => .ok project.methods

/-- The front end that answers from the program while the token holds. -/
def frontEnd {m : Type → Type} [Monad m] (p : Program) (w : Watch m) : FrontEnd m where
  projects := p.projectRefs
  methods token ref := do
    match ← w.check token with
    | .error e => return .error e
    | .ok () => return p.listMethods ref
  callers token id := do
    match ← w.check token with
    | .error e => return .error e
    | .ok () => return .ok (p.callers id)

end Program

end TestReach
