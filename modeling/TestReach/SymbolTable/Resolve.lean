import TestReach.LoadError
import TestReach.SymbolTable

/-!
# Resolving references

Once every symbol is declared, the references in the declarations are resolved, in the order of the
symbols' numbers: the base and the interfaces of a type, the attributes and the calls of a method.
An attribute may name a type that is declared nowhere; every other reference has to resolve.
-/

namespace TestReach

/-- An attribute of a method: a type of the program, or the name of a type that is not in it. -/
inductive Attribute where
  | resolved (type : SymbolId)
  | unresolved (name : String)
  deriving DecidableEq, Repr

/-- What the references of a symbol resolve to. -/
inductive Link where
  /-- A namespace refers to nothing. -/
  | space
  | type (base : Option SymbolId) (interfaces : List SymbolId)
  | method (attributes : List Attribute) (callees : List SymbolId)
  deriving DecidableEq, Repr

namespace SymbolTable

open Text

/-- The sort of a type, by number. -/
def typeKind (t : SymbolTable) (id : SymbolId) : TypeKind :=
  ((t.symbol? id).bind Symbol.kind?).getD .classType

/-- The type of a name, which `referrer` refers to. -/
def requireType (t : SymbolTable) (referrer name : String) : Except LoadError SymbolId :=
  match t.findType (trim name) with
  | some id => .ok id
  | none => .error (.unknownType (trim name) referrer)

/-- The base of a type; a blank base is none. -/
def resolveBase (t : SymbolTable) (typeName : String) (kind : TypeKind) :
    Option String → Except LoadError (Option SymbolId)
  | none => .ok none
  | some base =>
    if isBlankText base then .ok none
    else if kind = .interfaceType then .error (.invalidHierarchy typeName .interfaceWithBase)
    else
      match t.requireType typeName base with
      | .error e => .error e
      | .ok id =>
        if t.typeKind id = .interfaceType then
          .error (.invalidHierarchy typeName (.baseIsInterface (trim base)))
        else .ok (some id)

/-- One interface of a type. -/
def resolveInterface (t : SymbolTable) (typeName name : String) : Except LoadError SymbolId :=
  match t.requireType typeName name with
  | .error e => .error e
  | .ok id =>
    if t.typeKind id = .interfaceType then .ok id
    else .error (.invalidHierarchy typeName (.notAnInterface (trim name) (t.typeKind id)))

/-- One attribute of a method. -/
def resolveAttribute (t : SymbolTable) (name : String) : Attribute :=
  match t.findType (trim name) with
  | some id => .resolved id
  | none => .unresolved (trim name)

/-- One call of a method, which `caller` names. -/
def resolveCall (t : SymbolTable) (caller reference : String) : Except LoadError SymbolId :=
  match MethodRef.parse? reference with
  | none => .error (.invalidMethodRef reference caller)
  | some ref =>
    match t.candidates ref with
    | [] => .error (.unknownMethod reference caller)
    | [id] => .ok id
    | _ => .error (.ambiguousMethod reference caller)

/-- How a method is named as a caller. -/
def callerLabel (t : SymbolTable) (s : Symbol) : String :=
  t.qualifiedName (s.container.getD 0) ++ "::" ++ s.name

/-- The references of one symbol. -/
def resolve (t : SymbolTable) (id : SymbolId) : Except LoadError Link :=
  match t.symbol? id with
  | none => .ok .space
  | some s =>
    match s.body with
    | .root => .ok .space
    | .space => .ok .space
    | .type kind _ base interfaces =>
      let typeName := t.qualifiedName id
      match t.resolveBase typeName kind base with
      | .error e => .error e
      | .ok base =>
        match interfaces.mapM (t.resolveInterface typeName) with
        | .error e => .error e
        | .ok interfaces => .ok (.type base interfaces)
    | .method _ attributes calls =>
      match calls.mapM (t.resolveCall (t.callerLabel s)) with
      | .error e => .error e
      | .ok callees => .ok (.method (attributes.map t.resolveAttribute) callees)

/-- The references of all symbols, by number. -/
def resolveAll (t : SymbolTable) : Except LoadError (List Link) :=
  (List.range t.size).mapM t.resolve

end SymbolTable

end TestReach
