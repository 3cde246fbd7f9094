import TestReach.MethodRef
import TestReach.Solution

/-!
# Symbols

Namespaces, types and methods are symbols, numbered in the order they are declared; number 0 is the
global namespace. A symbol keeps its own name, the number of what contains it, and what its
declaration says, with the references still as they were written.

The *qualified name* of a symbol is its own name after the display names of its containers: `+`
stands between a type and a type nested in it, `.` everywhere else.

Numbers have no bound here. Where they are words of 32 bits, which start again at 0, a solution is
loaded to the same program as long as its symbols are not more than there are words
(`Register.load_agrees`, with `Solution.symbolBound`).
-/

namespace TestReach

/-- The number of a symbol. -/
abbrev SymbolId := Nat

/-- What a symbol is, with what its declaration says. -/
inductive SymbolBody where
  /-- The global namespace. -/
  | root
  /-- A namespace other than the global one. -/
  | space
  | type (kind : TypeKind) (displayName base : Option String) (interfaces : List String)
  | method (parameters attributes calls : List String)
  deriving DecidableEq, Repr

/-- A namespace, a type or a method. -/
structure Symbol where
  name : String
  container : Option SymbolId
  body : SymbolBody
  deriving DecidableEq, Repr

namespace Symbol

def isRoot (s : Symbol) : Bool :=
  match s.body with
  | .root => true
  | _ => false

def isType (s : Symbol) : Bool :=
  match s.body with
  | .type .. => true
  | _ => false

def isMethod (s : Symbol) : Bool :=
  match s.body with
  | .method .. => true
  | _ => false

/-- The sort of a type. -/
def kind? (s : Symbol) : Option TypeKind :=
  match s.body with
  | .type kind .. => some kind
  | _ => none

/-- What a symbol contributes to the names of the symbols in it. -/
def display (s : Symbol) : String :=
  match s.body with
  | .type _ (some display) _ _ => display
  | _ => s.name

/-- The parameters of a method. -/
def parameters (s : Symbol) : List String :=
  match s.body with
  | .method parameters _ _ => parameters
  | _ => []

end Symbol

/-- The symbols of a program, and the indexes by which namespaces and types are found. -/
structure SymbolTable where
  symbols : Array Symbol
  /-- Dotted paths of the namespaces other than the global one. -/
  spaces : List (String × SymbolId)
  /-- Qualified names of the types. -/
  types : List (String × SymbolId)
  deriving Repr

namespace SymbolTable

/-- The table that holds the global namespace only. -/
def initial : SymbolTable where
  symbols := #[⟨"", none, .root⟩]
  spaces := []
  types := []

/-- The number of symbols, which is the number that the next symbol gets. -/
def size (t : SymbolTable) : Nat :=
  t.symbols.size

def symbol? (t : SymbolTable) (id : SymbolId) : Option Symbol :=
  t.symbols[id]?

/-- The table with one more symbol. -/
def push (t : SymbolTable) (s : Symbol) : SymbolTable :=
  { t with symbols := t.symbols.push s }

/-! ## Qualified names -/

/-- The containers of a symbol, the innermost first, up to but without the global namespace; at
most `n` of them. -/
def containers (t : SymbolTable) : Nat → SymbolId → List Symbol
  | 0, _ => []
  | n + 1, id =>
    match (t.symbol? id).bind (·.container) with
    | none => []
    | some outer =>
      match t.symbol? outer with
      | none => []
      | some s => if s.isRoot then [] else s :: containers t n outer

/-- What stands between the name of a container and the name of a symbol in it. -/
def separator (outer inner : Symbol) : String :=
  if outer.isType && inner.isType then "+" else "."

/-- A name with the display names of the containers of its symbol before it. -/
def qualify (name : String) (inner : Symbol) : List Symbol → String
  | [] => name
  | outer :: rest => qualify (outer.display ++ separator outer inner ++ name) outer rest

/-- The qualified name of a symbol; that of the global namespace, and of a number that the table
does not have, is empty. A chain of containers is no longer than the table. -/
def qualifiedName (t : SymbolTable) (id : SymbolId) : String :=
  match t.symbol? id with
  | none => ""
  | some s => if s.isRoot then "" else qualify s.name s (t.containers t.size id)

/-! ## Finding symbols -/

/-- The type of a qualified name. -/
def findType (t : SymbolTable) (name : String) : Option SymbolId :=
  t.types.lookup name

/-- The namespace of a dotted name; the empty name is that of the global namespace. -/
def findSpace (t : SymbolTable) (dotted : String) : Option SymbolId :=
  if dotted.isEmpty then some 0 else t.spaces.lookup dotted

/-- The methods that a type itself declares, in ascending order. -/
def methodsOf (t : SymbolTable) (owner : SymbolId) : List SymbolId :=
  (List.range t.size).filter fun id =>
    match t.symbol? id with
    | some s => s.isMethod && s.container == some owner
    | none => false

/-- A method has the name of a reference and, if the reference lists any, its parameters. -/
def fits (t : SymbolTable) (ref : MethodRef) (id : SymbolId) : Bool :=
  match t.symbol? id with
  | none => false
  | some s =>
    s.name == ref.name &&
      match ref.parameters with
      | none => true
      | some parameters => s.parameters == parameters

/-- The methods that a reference fits. -/
def candidates (t : SymbolTable) (ref : MethodRef) : List SymbolId :=
  match t.findType ref.typeName with
  | none => []
  | some owner => (t.methodsOf owner).filter (t.fits ref)

/-- The method of a reference, if there is exactly one. -/
def findMethod (t : SymbolTable) (reference : String) : Option SymbolId :=
  match MethodRef.parse? reference with
  | none => none
  | some ref =>
    match t.candidates ref with
    | [id] => some id
    | _ => none

/-- The type that contains a method. -/
def containingType (t : SymbolTable) (id : SymbolId) : Option SymbolId :=
  match t.symbol? id with
  | some s => if s.isMethod then s.container else none
  | none => none

end SymbolTable

end TestReach
