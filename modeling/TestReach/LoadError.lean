import TestReach.Solution
import TestReach.Text.Quoted

/-!
# Why a solution is refused

The faults that loading a solution finds, and the message for each.
-/

namespace TestReach

/-- What is wrong with the declared bases and interfaces of a type. -/
inductive HierarchyFault where
  /-- An interface names a base type. -/
  | interfaceWithBase
  /-- The base type is an interface. -/
  | baseIsInterface (base : String)
  /-- A type that is no interface stands among the interfaces. -/
  | notAnInterface (name : String) (kind : TypeKind)
  deriving DecidableEq, Repr

/-- The fault in words. -/
def HierarchyFault.reason : HierarchyFault → String
  | .interfaceWithBase => "an interface cannot have a base type"
  | .baseIsInterface base => "base type " ++ base ++ " is an interface"
  | .notAnInterface name kind =>
    name ++ " is listed as an interface but is a " ++ kind.word

/-- Why a solution cannot be loaded. -/
inductive LoadError where
  /-- Two declarations, or a type and a namespace, have the same name. -/
  | duplicateName (name : String)
  /-- A base type or interface is declared nowhere. -/
  | unknownType (name referencedBy : String)
  /-- A call is not written as a reference to a method. -/
  | invalidMethodRef (reference referencedBy : String)
  /-- A call refers to no method. -/
  | unknownMethod (reference referencedBy : String)
  /-- A call without parameters refers to several overloads. -/
  | ambiguousMethod (reference referencedBy : String)
  /-- The bases and interfaces of a type do not fit its sort. -/
  | invalidHierarchy (typeName : String) (fault : HierarchyFault)
  /-- A project refers to a project that is not there. -/
  | unknownProject (name referencedBy : String)
  deriving DecidableEq, Repr

open Text in
/-- The message for a fault. -/
def LoadError.message : LoadError → String
  | .duplicateName name => "duplicate declaration " ++ quoted name
  | .unknownType name user => "unknown type " ++ quoted name ++ " referenced by " ++ user
  | .invalidMethodRef ref user => "invalid method reference " ++ quoted ref ++ " in " ++ user
  | .unknownMethod ref user => "unknown method " ++ quoted ref ++ " called from " ++ user
  | .ambiguousMethod ref user =>
    "ambiguous method " ++ quoted ref ++ " called from " ++ user ++ "; add a parameter list"
  | .invalidHierarchy typeName fault =>
    "invalid type hierarchy for " ++ typeName ++ ": " ++ fault.reason
  | .unknownProject name user =>
    "unknown project " ++ quoted name ++ " referenced by project " ++ quoted user

end TestReach
