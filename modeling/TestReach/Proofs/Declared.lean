import TestReach.SymbolTable.Declare

/-!
# What a solution declares

A solution is read here as it is written, without numbers: its types with their qualified names, in
the order of declaration and a type before the types nested in it, and the methods of each type.
References are names, and mean whatever is declared under them. `Solution.WellFormed` lists what has
to hold of a solution so that every reference means one thing.
-/

namespace TestReach

open Text

/-! ## Types -/

/-- A declared type with its qualified name. -/
structure TypeSite where
  name : String
  decl : TypeDecl

/-- The name that is written, unless it is blank. -/
def writtenName (name : Option String) : Option String :=
  (name.filter fun text => !isBlankText text).map trim

namespace TypeDecl

/-- What a type contributes to the names of the types in it. -/
def display (d : TypeDecl) : String :=
  d.displayName.getD (trim d.name)

/-- The segments of the namespace of a type that is not nested: what stands between the dots,
without the blanks at the ends; what is blank does not count. -/
def spacePath (d : TypeDecl) : List String :=
  (((d.spaceName.getD "").toList.splitOn '.').filter fun part => !part.all isBlank).map
    fun part => trim (String.ofList part)

example : spacePath { name := "Order", spaceName := some " App . . Models." } =
    ["App", "Models"] := by
  decide +kernel

mutual

/-- A type and the types in it, where the name of the type stands after `pre`. -/
def sitesUnder (pre : String) : TypeDecl → List TypeSite
  | ⟨name, spaceName, kind, displayName, base, interfaces, methods, nested⟩ =>
    let d : TypeDecl := ⟨name, spaceName, kind, displayName, base, interfaces, methods, nested⟩
    ⟨pre ++ trim name, d⟩ :: nestedSites (pre ++ d.display ++ "+") nested

/-- Types and the types in them, where the names of the types stand after `pre`. -/
def nestedSites (pre : String) : List TypeDecl → List TypeSite
  | [] => []
  | d :: ds => sitesUnder pre d ++ nestedSites pre ds

end

theorem sitesUnder_eq (pre : String) (d : TypeDecl) :
    d.sitesUnder pre =
      ⟨pre ++ trim d.name, d⟩ :: nestedSites (pre ++ d.display ++ "+") d.nested := by
  cases d
  rw [sitesUnder]

/-- What holds of a type when it holds of the types in it holds of every type. -/
theorem induction_nested {P : TypeDecl → Prop} (h : ∀ d, (∀ n ∈ d.nested, P n) → P d)
    (d : TypeDecl) : P d :=
  h d fun n _ => induction_nested h n
termination_by d
decreasing_by
  rename_i hn
  have hnested : sizeOf d.nested < sizeOf d := by
    cases d
    simp only [mk.sizeOf_spec]
    omega
  exact Nat.lt_trans (List.sizeOf_lt_of_mem hn) hnested

theorem nestedSites_eq (pre : String) (ds : List TypeDecl) :
    nestedSites pre ds = ds.flatMap (sitesUnder pre) := by
  induction ds with
  | nil => rw [nestedSites, List.flatMap_nil]
  | cons d ds ih => rw [nestedSites, ih, List.flatMap_cons]

/-- The segments of a namespace, each followed by a dot. -/
def dotted (path : List String) : String :=
  path.foldr (fun segment rest => segment ++ "." ++ rest) ""

/-- A type that is not nested and the types in it. -/
def sites (d : TypeDecl) : List TypeSite :=
  d.sitesUnder (dotted d.spacePath)

end TypeDecl

/-! ## Methods -/

/-- A declared method with the qualified name of its type. -/
structure MethodSite where
  typeName : String
  decl : MethodDecl
  deriving DecidableEq

/-- The name and the parameters of a method; spacing does not count. -/
def MethodDecl.key (m : MethodDecl) : String × List String :=
  (trim m.name, m.parameters.map squeeze)

/-- A reference has the name of a method and, if it lists any, its parameters. -/
def MethodRef.names (ref : MethodRef) (m : MethodDecl) : Bool :=
  m.key.1 == ref.name &&
    match ref.parameters with
    | none => true
    | some parameters => m.key.2 == parameters

/-- The methods that a type itself declares. -/
def TypeSite.methods (T : TypeSite) : List MethodSite :=
  T.decl.methods.map fun m => ⟨T.name, m⟩

/-! ## Solutions -/

/-- The types of a project. -/
def ProjectDecl.sites (p : ProjectDecl) : List TypeSite :=
  p.types.flatMap TypeDecl.sites

/-- The methods of a project. -/
def ProjectDecl.methodSites (p : ProjectDecl) : List MethodSite :=
  p.sites.flatMap TypeSite.methods

namespace Solution

/-- The types that are not nested. -/
def topTypes (s : Solution) : List TypeDecl :=
  s.projects.flatMap (·.types) ++ s.externalTypes

/-- All types, those from outside last. -/
def sites (s : Solution) : List TypeSite :=
  s.topTypes.flatMap TypeDecl.sites

/-- All methods. -/
def methodSites (s : Solution) : List MethodSite :=
  s.sites.flatMap TypeSite.methods

/-- What has to hold of a solution. -/
structure WellFormed (s : Solution) : Prop where
  /-- No two types have the same qualified name. -/
  distinct : (s.sites.map (·.name)).Nodup
  /-- No type has the name of a namespace, or of one that a namespace is in. -/
  apart : ∀ T ∈ s.sites, ∀ d ∈ s.topTypes, ∀ path, path <+: d.spacePath → path ≠ [] →
    T.name ≠ joinWith "." path
  /-- The methods of a type differ in name or parameters. -/
  overloads : ∀ T ∈ s.sites, (T.decl.methods.map MethodDecl.key).Nodup
  /-- Only a type that is no interface has a base, and the base is declared and no interface. -/
  bases : ∀ T ∈ s.sites, ∀ name, writtenName T.decl.base = some name →
    T.decl.kind ≠ .interfaceType ∧ ∃ U ∈ s.sites, U.name = name ∧ U.decl.kind ≠ .interfaceType
  /-- What a type lists as interfaces are declared interfaces. -/
  interfaces : ∀ T ∈ s.sites, ∀ name ∈ T.decl.interfaces,
    ∃ U ∈ s.sites, U.name = trim name ∧ U.decl.kind = .interfaceType
  /-- A call is written as a reference, and the type that it names has one method that it fits. -/
  calls : ∀ T ∈ s.sites, ∀ m ∈ T.decl.methods, ∀ call ∈ m.calls,
    ∃ ref, MethodRef.parse? call = some ref ∧
      ∃ U ∈ s.sites, U.name = ref.typeName ∧ ∃ m', U.decl.methods.filter ref.names = [m']
  /-- A project refers to projects of the solution. -/
  references : ∀ p ∈ s.projects, ∀ reference ∈ p.references, ∃ q ∈ s.projects, q.name = reference

end Solution

end TestReach
