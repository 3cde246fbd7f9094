import TestReach.Program

/-!
# The type hierarchy

A type can be treated as itself, as each type on its chain of bases, and as each interface that one
of these lists, directly or through other interfaces. Both the chain of bases and the interfaces may
run in circles: a chain of bases that does is malformed, and circles among interfaces are harmless.
-/

namespace TestReach

/-- A type whose chain of bases runs in a circle. -/
structure MalformedHierarchy where
  typeName : String
  deriving DecidableEq, Repr

/-- The message for a malformed chain of bases. -/
def MalformedHierarchy.message (e : MalformedHierarchy) : String :=
  "type " ++ Text.quoted e.typeName ++ " has a cyclic base type chain"

/-- The types from a type up its chain of bases, and whether the chain comes back to one of them. -/
structure BaseChain where
  types : List SymbolId
  cyclic : Bool
  deriving DecidableEq, Repr

namespace Program

/-! ## Bases -/

/-- Go up from `id`, after the types of `below` (the nearest first), by at most `n` steps. -/
def ascend (p : Program) : Nat → List SymbolId → SymbolId → BaseChain
  | 0, below, _ => ⟨below.reverse, true⟩
  | n + 1, below, id =>
    if below.contains id then ⟨below.reverse, true⟩
    else
      match p.base id with
      | none => ⟨(id :: below).reverse, false⟩
      | some base => ascend p n (id :: below) base

/-- The chain of bases from a type up. A chain that does not come back to a type is no longer than
the number of symbols, and one more for a number that is no symbol. -/
def baseChain (p : Program) (id : SymbolId) : BaseChain :=
  p.ascend (p.size + 2) [] id

/-! ## Interfaces -/

/-- The number of entries in all lists of interfaces. -/
def interfaceCount (p : Program) : Nat :=
  ((List.range p.size).flatMap p.interfaces).length

/-- Collect the interfaces on a stack and those they list, without `self`, in at most `n` steps. -/
def collect (p : Program) (self : SymbolId) : Nat → List SymbolId → List SymbolId → List SymbolId
  | 0, _, found => found
  | _ + 1, [], found => found
  | n + 1, i :: stack, found =>
    if i == self || found.contains i then collect p self n stack found
    else collect p self n (p.interfaces i ++ stack) (found ++ [i])

/-- The interfaces that the types of a chain list, those of the last type first. -/
def listed (p : Program) (types : List SymbolId) : List SymbolId :=
  types.foldl (fun stack id => p.interfaces id ++ stack) []

/-- Every interface of a type, over its chain of bases and over the interfaces of interfaces. Each
list of interfaces is put on the stack at most twice, once for the chain and once for itself. -/
def allInterfaces (p : Program) (id : SymbolId) : List SymbolId :=
  p.collect id (2 * p.interfaceCount + 1) (p.listed (p.baseChain id).types) []

/-! ## Assignability -/

/-- Everything that a type can be treated as, in ascending order. -/
def closure (p : Program) (id : SymbolId) : Except MalformedHierarchy (List SymbolId) :=
  let chain := p.baseChain id
  if chain.cyclic then .error ⟨p.table.qualifiedName id⟩
  else .ok (ordered (chain.types ++ p.allInterfaces id))

end Program

end TestReach
