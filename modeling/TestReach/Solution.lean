/-!
# Solutions

A solution as it is written down: projects with their types and methods, and types that are known
from outside. Types are referred to by qualified name, methods by `type::name` or
`type::name(parameters)`; nothing is resolved yet.
-/

namespace TestReach

/-- What sort of type is declared. -/
inductive TypeKind where
  | classType
  | interfaceType
  | structType
  deriving DecidableEq, Repr, Inhabited

/-- The word for a sort of type. -/
def TypeKind.word : TypeKind → String
  | .classType => "class"
  | .interfaceType => "interface"
  | .structType => "struct"

/-- A method: the types of its parameters, the attributes it carries and the methods it calls. -/
structure MethodDecl where
  name : String
  parameters : List String := []
  attributes : List String := []
  calls : List String := []
  deriving DecidableEq, Repr, Inhabited

/-- A type with its methods and the types nested in it. Only a type that is not nested has a
namespace. The display name is what the type contributes to the names of what it contains. -/
structure TypeDecl where
  name : String
  spaceName : Option String := none
  kind : TypeKind := .classType
  displayName : Option String := none
  base : Option String := none
  interfaces : List String := []
  methods : List MethodDecl := []
  nested : List TypeDecl := []
  deriving Inhabited

/-- A project, the projects it refers to, and why it cannot be analysed if it cannot. -/
structure ProjectDecl where
  name : String
  references : List String := []
  error : Option String := none
  types : List TypeDecl := []
  deriving Inhabited

/-- A whole solution. -/
structure Solution where
  name : Option String := none
  projects : List ProjectDecl := []
  externalTypes : List TypeDecl := []
  deriving Inhabited

end TestReach
