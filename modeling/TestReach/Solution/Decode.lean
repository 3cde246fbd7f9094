import TestReach.Document
import TestReach.Solution

/-!
# Reading solutions

A solution as the document of a model file holds it.
-/

namespace TestReach

/-- The sorts of types by the words that name them. -/
def TypeKind.choices : List (String × TypeKind) :=
  [.classType, .interfaceType, .structType].map fun k => (k.word, k)

/-- Read a method. -/
def MethodDecl.decode? (fmt : Format) (depth : Nat) (doc : Doc) : Option MethodDecl := do
  match ← doc.record? fmt ["name", "parameters", "attributes", "calls"] depth with
  | [name, parameters, attributes, calls] =>
    let name ← required? Doc.text? name
    let parameters ← textsField? (depth - 1) parameters
    let attributes ← textsField? (depth - 1) attributes
    let calls ← textsField? (depth - 1) calls
    return { name, parameters, attributes, calls }
  | _ => none

/-- The fields of a type, in order. -/
def TypeDecl.fieldNames : List String :=
  ["name", "namespace", "kind", "display_name", "base", "interfaces", "methods", "nested_types"]

/-- Read a type. Each level of nested types is two levels deeper in the document. -/
def TypeDecl.decode? (fmt : Format) : Nat → Doc → Option TypeDecl
  | 0, _ => none
  | depth + 1, doc => do
    let nestedType : Doc → Option TypeDecl :=
      match depth with
      | 0 => fun _ => none
      | d + 1 => TypeDecl.decode? fmt d
    match ← doc.record? fmt TypeDecl.fieldNames (depth + 1) with
    | [name, spaceName, kind, displayName, base, interfaces, methods, nested] =>
      let name ← required? Doc.text? name
      let spaceName ← optionalField? Doc.text? spaceName
      let kind ← defaulted? .classType (Doc.choice? fmt TypeKind.choices depth) kind
      let displayName ← optionalField? Doc.text? displayName
      let base ← optionalField? Doc.text? base
      let interfaces ← textsField? depth interfaces
      let methods ← defaulted? [] (Doc.list? (MethodDecl.decode? fmt (depth - 1)) depth) methods
      let nested ← defaulted? [] (Doc.list? nestedType depth) nested
      return { name, spaceName, kind, displayName, base, interfaces, methods, nested }
    | _ => none

/-- Read a project. -/
def ProjectDecl.decode? (fmt : Format) (depth : Nat) (doc : Doc) : Option ProjectDecl := do
  match ← doc.record? fmt ["name", "references", "error", "types"] depth with
  | [name, references, error, types] =>
    let name ← required? Doc.text? name
    let references ← textsField? (depth - 1) references
    let error ← optionalField? Doc.text? error
    let types ← defaulted? [] (Doc.list? (TypeDecl.decode? fmt (depth - 2)) (depth - 1)) types
    return { name, references, error, types }
  | _ => none

/-- Read a solution. -/
def Solution.decode? (fmt : Format) (doc : Doc) : Option Solution := do
  let depth := fmt.depth
  match ← doc.record? fmt ["name", "projects", "external_types"] depth with
  | [name, projects, externalTypes] =>
    let name ← optionalField? Doc.text? name
    let projects ←
      defaulted? [] (Doc.list? (ProjectDecl.decode? fmt (depth - 2)) (depth - 1)) projects
    let externalTypes ←
      defaulted? [] (Doc.list? (TypeDecl.decode? fmt (depth - 2)) (depth - 1)) externalTypes
    return { name, projects, externalTypes }
  | _ => none

end TestReach
