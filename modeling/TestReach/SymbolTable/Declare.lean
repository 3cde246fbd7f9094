import TestReach.LoadError
import TestReach.SymbolTable

/-!
# Declaring symbols

A solution is declared project by project, and its external types last. A type that is not nested
first enters its namespace, which creates the segments that are missing; then come the type, its
methods, and the types nested in it, each in the same way. Types have distinct qualified names,
none of them that of a namespace, and the methods of a type differ in name or parameters.
-/

namespace TestReach.SymbolTable

open Text

/-! ## Namespaces -/

/-- The segments of a dotted name; blank ones do not count. -/
def segments (dotted : String) : List String :=
  ((pieces '.' dotted).map trim).filter (fun s => !s.isEmpty)

/-- A dotted path with one more segment. -/
def extendPath (path segment : String) : String :=
  if path.isEmpty then segment else path ++ "." ++ segment

/-- The table with the namespace `path`, which has the name `segment` in `container`. -/
def pushSpace (t : SymbolTable) (path segment : String) (container : SymbolId) : SymbolTable :=
  { t.push ⟨segment, some container, .space⟩ with spaces := (path, t.size) :: t.spaces }

/-- Go down from a namespace along segments and create those that are missing. -/
def enterFrom (t : SymbolTable) (here : SymbolId) (path : String) :
    List String → Except LoadError (SymbolTable × SymbolId)
  | [] => .ok (t, here)
  | segment :: rest =>
    let path := extendPath path segment
    match t.spaces.lookup path with
    | some id => enterFrom t id path rest
    | none =>
      if (t.findType path).isSome then .error (.duplicateName path)
      else enterFrom (t.pushSpace path segment here) t.size path rest

/-- Enter the namespace of a dotted name. -/
def enter (t : SymbolTable) (dotted : String) : Except LoadError (SymbolTable × SymbolId) :=
  t.enterFrom 0 "" (segments dotted)

/-! ## Types and methods -/

/-- The symbol of a method. -/
def methodSymbol (owner : SymbolId) (m : MethodDecl) : Symbol :=
  ⟨trim m.name, some owner, .method (m.parameters.map squeeze) m.attributes m.calls⟩

/-- How a method is named when it is declared twice. -/
def methodLabel (ownerName : String) (s : Symbol) : String :=
  ownerName ++ "::" ++ s.name ++ "(" ++ joinWith "," s.parameters ++ ")"

/-- Declare methods of a type, after those whose names and parameters are in `earlier`. -/
def declareMethods (t : SymbolTable) (owner : SymbolId) (ownerName : String)
    (earlier : List (String × List String)) : List MethodDecl → Except LoadError SymbolTable
  | [] => .ok t
  | m :: ms =>
    let s := methodSymbol owner m
    if earlier.contains (s.name, s.parameters) then
      .error (.duplicateName (methodLabel ownerName s))
    else declareMethods (t.push s) owner ownerName ((s.name, s.parameters) :: earlier) ms

/-- The symbol of a type. -/
def typeSymbol (container : SymbolId) (d : TypeDecl) : Symbol :=
  ⟨trim d.name, some container, .type d.kind d.displayName d.base d.interfaces⟩

/-- Declare a type without what it contains, and give its number and qualified name. -/
def pushType (t : SymbolTable) (container : SymbolId) (d : TypeDecl) :
    Except LoadError (SymbolTable × String) :=
  let t' := t.push (typeSymbol container d)
  let name := t'.qualifiedName t.size
  if (t'.spaces.lookup name).isSome || (t'.findType name).isSome then .error (.duplicateName name)
  else .ok ({ t' with types := (name, t.size) :: t'.types }, name)

mutual

/-- Declare a type with its methods and the types nested in it. -/
def declareType (t : SymbolTable) (container : SymbolId) :
    TypeDecl → Except LoadError SymbolTable
  | ⟨name, spaceName, kind, displayName, base, interfaces, methods, nested⟩ =>
    let d : TypeDecl := ⟨name, spaceName, kind, displayName, base, interfaces, methods, nested⟩
    match t.pushType container d with
    | .error e => .error e
    | .ok (t', ownerName) =>
      match t'.declareMethods t.size ownerName [] methods with
      | .error e => .error e
      | .ok t'' => declareNested t'' t.size nested

/-- Declare the types nested in a type. -/
def declareNested (t : SymbolTable) (container : SymbolId) :
    List TypeDecl → Except LoadError SymbolTable
  | [] => .ok t
  | d :: ds =>
    match declareType t container d with
    | .error e => .error e
    | .ok t' => declareNested t' container ds

end

/-- Declare types that are not nested, each in its namespace. -/
def declareTypes (t : SymbolTable) : List TypeDecl → Except LoadError SymbolTable
  | [] => .ok t
  | d :: ds =>
    match t.enter (d.spaceName.getD "") with
    | .error e => .error e
    | .ok (t', container) =>
      match t'.declareType container d with
      | .error e => .error e
      | .ok t'' => declareTypes t'' ds

/-! ## Whole solutions -/

/-- The methods among the symbols from number `first` on. -/
def methodsFrom (t : SymbolTable) (first : SymbolId) : List SymbolId :=
  (List.range' first (t.size - first)).filter fun id =>
    match t.symbol? id with
    | some s => s.isMethod
    | none => false

/-- Declare projects one after the other, and list the methods of each. -/
def declareProjects (t : SymbolTable) :
    List ProjectDecl → Except LoadError (SymbolTable × List (List SymbolId))
  | [] => .ok (t, [])
  | p :: ps =>
    match t.declareTypes p.types with
    | .error e => .error e
    | .ok t' =>
      match declareProjects t' ps with
      | .error e => .error e
      | .ok (t'', listings) => .ok (t'', t'.methodsFrom t.size :: listings)

/-- The table of a solution, and the methods of each project in declaration order. -/
def ofSolution (s : Solution) : Except LoadError (SymbolTable × List (List SymbolId)) :=
  match initial.declareProjects s.projects with
  | .error e => .error e
  | .ok (t, listings) =>
    match t.declareTypes s.externalTypes with
    | .error e => .error e
    | .ok t' => .ok (t', listings)

end TestReach.SymbolTable
