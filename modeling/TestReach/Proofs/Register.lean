import TestReach.Proofs.Loading

/-!
# Declaring with a register

What `SymbolTable` reads off the table by number can also be written down while a solution is
declared: the types with their numbers, the methods of each type, and the methods of each project. A
*register* is a table with these lists. Its numbers are words of 32 bits, so that they start again
at 0 after the last of them, and two methods of a type are compared by the numbers of the earlier
ones.

For a solution whose symbols have numbers (`Solution.symbolBound`) the register fails where the
table does, and otherwise has the same table and what the table says: `Register.ofSolution_agrees`.
-/

namespace TestReach

open Text

/-! ## Two stages side by side -/

/-- Two stages fail with the same error, or both succeed and their results are related. -/
inductive Agrees {ε α β : Type} (R : α → β → Prop) : Except ε α → Except ε β → Prop where
  | error (e : ε) : Agrees R (.error e) (.error e)
  | ok {a : α} {b : β} (h : R a b) : Agrees R (.ok a) (.ok b)

namespace Agrees

variable {ε α β γ δ : Type} {R R' : α → β → Prop} {S : γ → δ → Prop} {x : Except ε α}
  {y : Except ε β}

theorem mono (h : Agrees R x y) (hR : ∀ a b, x = .ok a → R a b → R' a b) : Agrees R' x y := by
  cases h with
  | error e => exact .error e
  | ok h => exact .ok (hR _ _ rfl h)

theorem bind {f : α → Except ε γ} {g : β → Except ε δ} (h : Agrees R x y)
    (hfg : ∀ a b, x = .ok a → R a b → Agrees S (f a) (g b)) : Agrees S (x >>= f) (y >>= g) := by
  cases h with
  | error e => exact .error e
  | ok h => exact hfg _ _ rfl h

theorem bind_right {S : α → δ → Prop} {g : β → Except ε δ} (h : Agrees R x y)
    (hg : ∀ a b, x = .ok a → R a b → Agrees S (.ok a) (g b)) : Agrees S x (y >>= g) := by
  cases h with
  | error e => exact .error e
  | ok h => exact hg _ _ rfl h

end Agrees

/-! ## The register -/

/-- A table with what is written down while it grows. -/
structure Register where
  table : SymbolTable := .initial
  /-- The types with their numbers, in the order in which they were declared. -/
  declared : List (SymbolId × TypeDecl) := []
  /-- The methods of the types, by the numbers of the types. -/
  methods : List (SymbolId × List SymbolId) := []
  /-- The methods of the project that is being declared. -/
  listed : List SymbolId := []

namespace Register

open SymbolTable

/-- The number of the next symbol. -/
def next (r : Register) : SymbolId :=
  (UInt32.ofNat r.table.size).toNat

/-- Go down from a namespace along segments and create those that are missing. -/
def enterFrom (r : Register) (here : SymbolId) (path : String) :
    List String → Except LoadError (Register × SymbolId)
  | [] => .ok (r, here)
  | segment :: rest =>
    let path := extendPath path segment
    match r.table.spaces.lookup path with
    | some id => enterFrom r id path rest
    | none =>
      if (r.table.findType path).isSome then .error (.duplicateName path)
      else
        let table := { r.table.push ⟨segment, some here, .space⟩ with
          spaces := (path, r.next) :: r.table.spaces }
        enterFrom { r with table } r.next path rest

/-- Declare a type without what it contains. -/
def pushType (r : Register) (container : SymbolId) (d : TypeDecl) :
    Except LoadError (Register × String) :=
  let t := r.table.push (typeSymbol container d)
  let name := t.qualifiedName r.next
  if (t.spaces.lookup name).isSome || (t.findType name).isSome then .error (.duplicateName name)
  else .ok ({ r with table := { t with types := (name, r.next) :: t.types } }, name)

/-- A symbol has the name and the parameters of another. -/
def sameKey (s : Symbol) (o : Option Symbol) : Bool :=
  o.any fun o => o.name == s.name && o.parameters == s.parameters

/-- Declare methods of a type after its methods `siblings`. -/
def declareMethods (r : Register) (owner : SymbolId) (ownerName : String)
    (siblings : List SymbolId) : List MethodDecl → Except LoadError (Register × List SymbolId)
  | [] => .ok (r, siblings)
  | m :: ms =>
    let s := methodSymbol owner m
    if siblings.any fun id => sameKey s (r.table.symbol? id) then
      .error (.duplicateName (methodLabel ownerName s))
    else
      declareMethods { r with table := r.table.push s, listed := r.listed ++ [r.next] } owner
        ownerName (siblings ++ [r.next]) ms

/-- Declare a type with its methods, and write both down. -/
def declareOwn (r : Register) (container : SymbolId) (d : TypeDecl) :
    Except LoadError Register := do
  let (r', ownerName) ← r.pushType container d
  let (r'', ids) ← r'.declareMethods r.next ownerName [] d.methods
  return { r'' with
    declared := r''.declared ++ [(r.next, d)]
    methods := r''.methods ++ [(r.next, ids)] }

mutual

/-- Declare a type with its methods and the types nested in it. -/
def declareType (r : Register) (container : SymbolId) : TypeDecl → Except LoadError Register
  | ⟨name, spaceName, kind, displayName, base, interfaces, methods, nested⟩ => do
    let r' ← r.declareOwn container
      ⟨name, spaceName, kind, displayName, base, interfaces, methods, nested⟩
    declareNested r' r.next nested

/-- Declare the types nested in a type. -/
def declareNested (r : Register) (container : SymbolId) :
    List TypeDecl → Except LoadError Register
  | [] => .ok r
  | d :: ds => do
    let r' ← declareType r container d
    declareNested r' container ds

end

/-- Declare a type that is not nested, in its namespace. -/
def declareTop (r : Register) (d : TypeDecl) : Except LoadError Register := do
  let (r', container) ← r.enterFrom 0 "" (segments (d.spaceName.getD ""))
  r'.declareType container d

/-- Declare types that are not nested. -/
def declareTypes (r : Register) : List TypeDecl → Except LoadError Register
  | [] => .ok r
  | d :: ds => do
    let r' ← r.declareTop d
    declareTypes r' ds

/-- Declare projects one after the other, with a new list of methods for each. -/
def declareProjects (r : Register) :
    List ProjectDecl → Except LoadError (Register × List (List SymbolId))
  | [] => .ok (r, [])
  | p :: ps => do
    let r' ← { r with listed := [] }.declareTypes p.types
    let (r'', listings) ← declareProjects r' ps
    return (r'', r'.listed :: listings)

/-- The register of a solution, and the methods of each project. -/
def ofSolution (s : Solution) : Except LoadError (Register × List (List SymbolId)) := do
  let (r, listings) ← ({} : Register).declareProjects s.projects
  let r' ← { r with listed := [] }.declareTypes s.externalTypes
  return (r', listings)

/-! ## Room for numbers -/

theorem next_eq {r : Register} (h : r.table.size < UInt32.size) : r.next = r.table.size :=
  UInt32.toNat_ofNat_of_lt' h

/-- How many symbols types with these methods and namespaces of these paths take at most. -/
def room (sites : List TypeSite) (paths : List String) : Nat :=
  paths.length + sites.length + (sites.flatMap TypeSite.methods).length

theorem room_append (sites sites' : List TypeSite) (paths paths' : List String) :
    room (sites ++ sites') (paths ++ paths') = room sites paths + room sites' paths' := by
  simp only [room, List.length_append, List.flatMap_append]
  omega

theorem room_singleton (T : TypeSite) : room [T] [] = 1 + T.decl.methods.length := by
  simp [room, TypeSite.methods]

/-- Blocks are written into a register in which the table has grown by them. -/
structure Follows (r : Register) (new : List Block) (t' : SymbolTable) (r' : Register) : Prop where
  table : r'.table = t'
  declared : r'.declared = r.declared ++ new.map fun b => (b.id, b.site.decl)
  methods : r'.methods = r.methods ++ new.map fun b => (b.id, b.methodIds)
  listed : r'.listed = r.listed ++ new.flatMap Block.methodIds

theorem Follows.trans {r r' r'' : Register} {new new' : List Block} {t' t'' : SymbolTable}
    (h : r.Follows new t' r') (h' : r'.Follows new' t'' r'') :
    r.Follows (new ++ new') t'' r'' where
  table := h'.table
  declared := by rw [h'.declared, h.declared, List.map_append, List.append_assoc]
  methods := by rw [h'.methods, h.methods, List.map_append, List.append_assoc]
  listed := by rw [h'.listed, h.listed, List.flatMap_append, List.append_assoc]

/-- As long as there is room, a stage on a register does what the stage on its table does. -/
def Registers (r : Register) (blocks : List Block) (paths : List String)
    (x : Except LoadError SymbolTable) (y : Except LoadError Register) (sites : List TypeSite)
    (more : List String) : Prop :=
  r.table.size + room sites more ≤ UInt32.size →
    Agrees (fun t' r' => ∃ new, new.map (·.site) = sites ∧ Grown r.table blocks paths new more t' ∧
      r.Follows new t' r' ∧ t'.size ≤ r.table.size + room sites more) x y

variable {r : Register} {blocks : List Block} {paths : List String} {sites sites' : List TypeSite}
  {more more' : List String} {c : SymbolId}

theorem registers_nil (h : r.table.Layout blocks paths) :
    Registers r blocks paths (.ok r.table) (.ok r) [] [] :=
  fun _ => .ok ⟨[], rfl, Grown.refl h, ⟨rfl, by simp, by simp, by simp⟩, Nat.le_add_right _ _⟩

theorem Registers.bind {x : Except LoadError SymbolTable} {y : Except LoadError Register}
    {f : SymbolTable → Except LoadError SymbolTable} {g : Register → Except LoadError Register}
    (h : Registers r blocks paths x y sites more)
    (hfg : ∀ r' new, x = .ok r'.table → new.map (·.site) = sites →
      Grown r.table blocks paths new more r'.table →
      Registers r' (blocks ++ new) (paths ++ more) (f r'.table) (g r') sites' more') :
    Registers r blocks paths (x >>= f) (y >>= g) (sites ++ sites') (more ++ more') := by
  intro hroom
  rw [room_append] at hroom ⊢
  refine (h (by omega)).bind ?_
  rintro t' r' hx ⟨new, hnew, hg, hfollows, hsize⟩
  obtain rfl := hfollows.table
  refine (hfg r' new hx hnew hg (by omega)).mono ?_
  rintro t'' r'' - ⟨new', hnew', hg', hfollows', hsize'⟩
  refine ⟨new ++ new', ?_, hg.trans hg', hfollows.trans hfollows', by omega⟩
  rw [List.map_append, hnew, hnew']

/-! ## Types -/

theorem enterFrom_agrees {here : SymbolId} {path : String} {segs : List String}
    (hroom : r.table.size + segs.length ≤ UInt32.size) :
    Agrees (fun a b => b = ({ r with table := a.1 }, a.2) ∧
        a.1.size ≤ r.table.size + segs.length)
      (r.table.enterFrom here path segs) (r.enterFrom here path segs) := by
  induction segs generalizing r here path with
  | nil => exact .ok ⟨rfl, Nat.le_refl _⟩
  | cons segment rest ih =>
    rw [List.length_cons] at hroom ⊢
    unfold Register.enterFrom SymbolTable.enterFrom
    rw [next_eq (by omega)]
    dsimp only
    cases r.table.spaces.lookup (extendPath path segment) with
    | some id =>
      refine (ih (by omega)).mono ?_
      rintro a b - ⟨rfl, hsize⟩
      exact ⟨rfl, by omega⟩
    | none =>
      dsimp only
      split
      · exact .error _
      · have hpush : (r.table.pushSpace (extendPath path segment) segment here).size =
            r.table.size + 1 := by
          simp [pushSpace, push, size]
        refine (ih (r := ⟨r.table.pushSpace (extendPath path segment) segment here, r.declared,
          r.methods, r.listed⟩) ?_).mono ?_
        · dsimp only
          omega
        · rintro a b - ⟨rfl, hsize⟩
          dsimp only at hsize
          exact ⟨rfl, by omega⟩

theorem pushType_agrees (hroom : r.table.size < UInt32.size) (d : TypeDecl) :
    Agrees (fun a b => b = ({ r with table := a.1 }, a.2)) (r.table.pushType c d)
      (r.pushType c d) := by
  unfold Register.pushType SymbolTable.pushType
  rw [next_eq hroom]
  dsimp only
  split
  · exact .error _
  · exact .ok rfl

/-- The keys of the methods with these numbers. -/
def HasKeys (t : SymbolTable) (ids : List SymbolId) (keys : List (String × List String)) : Prop :=
  (∀ id ∈ ids, id < t.size) ∧
    ∀ key, key ∈ keys ↔ ∃ id ∈ ids, ∃ s, t.symbol? id = some s ∧ (s.name, s.parameters) = key

theorem HasKeys.any_sameKey {t : SymbolTable} {ids : List SymbolId}
    {keys : List (String × List String)} (h : HasKeys t ids keys) (s : Symbol) :
    (ids.any fun id => sameKey s (t.symbol? id)) = keys.contains (s.name, s.parameters) := by
  rw [Bool.eq_iff_iff, List.any_eq_true, List.contains_iff_mem, h.2]
  simp [sameKey, Option.any_eq_true]

theorem HasKeys.push {t : SymbolTable} {ids : List SymbolId} {keys : List (String × List String)}
    (h : HasKeys t ids keys) (s : Symbol) :
    HasKeys (t.push s) (ids ++ [t.size]) ((s.name, s.parameters) :: keys) := by
  have hold : ∀ id ∈ ids, (t.push s).symbol? id = t.symbol? id := by
    intro id hid
    rw [push_eq_pushAll]
    exact (extends_pushAll t [s]).symbol?_eq (h.1 id hid)
  have hnew : (t.push s).symbol? t.size = some s := by
    rw [push_eq_pushAll]
    exact symbol?_pushAll_add t [s] 0
  have hsize : (t.push s).size = t.size + 1 := by simp [SymbolTable.push, size]
  refine ⟨fun id hid => ?_, fun key => ?_⟩
  · rw [hsize]
    rcases List.mem_append.1 hid with hid | hid
    · exact Nat.lt_succ_of_lt (h.1 id hid)
    · exact List.mem_singleton.1 hid ▸ Nat.lt_succ_self _
  · rw [List.mem_cons, h.2]
    constructor
    · rintro (rfl | ⟨id, hid, o, ho, hkey⟩)
      · exact ⟨t.size, by simp, s, hnew, rfl⟩
      · exact ⟨id, List.mem_append_left _ hid, o, hold id hid ▸ ho, hkey⟩
    · rintro ⟨id, hid, o, ho, hkey⟩
      rcases List.mem_append.1 hid with hid | hid
      · exact .inr ⟨id, hid, o, hold id hid ▸ ho, hkey⟩
      · rw [List.mem_singleton.1 hid, hnew, Option.some.injEq] at ho
        exact .inl (ho ▸ hkey.symm)

theorem declareMethods_agrees {owner : SymbolId} {ownerName : String} {siblings : List SymbolId}
    {earlier : List (String × List String)} {ms : List MethodDecl}
    (hkeys : HasKeys r.table siblings earlier)
    (hroom : r.table.size + ms.length ≤ UInt32.size) :
    Agrees (fun t' b => b =
        ({ r with table := t', listed := r.listed ++ List.range' r.table.size ms.length },
          siblings ++ List.range' r.table.size ms.length))
      (r.table.declareMethods owner ownerName earlier ms)
      (r.declareMethods owner ownerName siblings ms) := by
  induction ms generalizing r siblings earlier with
  | nil => exact .ok (by simp)
  | cons m ms ih =>
    rw [List.length_cons] at hroom
    unfold Register.declareMethods SymbolTable.declareMethods
    rw [next_eq (by omega)]
    dsimp only
    rw [hkeys.any_sameKey]
    split
    · exact .error _
    · have hsize : (r.table.push (methodSymbol owner m)).size = r.table.size + 1 := by
        simp [SymbolTable.push, size]
      refine (ih (r := ⟨r.table.push (methodSymbol owner m), r.declared, r.methods,
        r.listed ++ [r.table.size]⟩) (hkeys.push _) ?_).mono ?_
      · dsimp only
        omega
      · rintro t' b - rfl
        simp [hsize, List.range'_succ, List.append_assoc]

theorem declareOwn_agrees (h : r.table.Layout blocks paths) (hc : c < r.table.size) (d : TypeDecl)
    (hroom : r.table.size + (1 + d.methods.length) ≤ UInt32.size) :
    Agrees (fun t' r' => r' =
        ⟨t', r.declared ++ [(r.table.size, d)],
          r.methods ++ [(r.table.size, List.range' (r.table.size + 1) d.methods.length)],
          r.listed ++ List.range' (r.table.size + 1) d.methods.length⟩)
      (r.table.declareOwn c d) (r.declareOwn c d) := by
  unfold Register.declareOwn SymbolTable.declareOwn
  rw [next_eq (by omega)]
  refine (pushType_agrees (by omega) d).bind ?_
  rintro ⟨t', name⟩ b ha rfl
  have hpush := ((pushType_meets h hc d).of_ok ha).2
  have hsize : t'.size = r.table.size + 1 := by
    rw [(Prod.mk.inj hpush).1]
    simp [SymbolTable.push, size]
  have hkeys : HasKeys t' [] [] := ⟨by simp, by simp⟩
  refine (declareMethods_agrees (r := { r with table := t' }) hkeys ?_).bind_right ?_
  · dsimp only
    omega
  · rintro t'' b - rfl
    refine .ok ?_
    dsimp only
    rw [hsize, List.nil_append]

theorem declareOwn_registers (h : r.table.Layout blocks paths) (hc : c < r.table.size)
    (d : TypeDecl) :
    Registers r blocks paths (r.table.declareOwn c d) (r.declareOwn c d) [r.table.siteIn c d]
      [] := by
  intro hroom
  rw [room_singleton] at hroom
  refine (declareOwn_agrees h hc d hroom).mono ?_
  rintro t' r' ht' rfl
  obtain ⟨hadmits, rfl⟩ := (declareOwn_meets h hc d).of_ok ht'
  refine ⟨[⟨r.table.size, r.table.siteIn c d⟩], rfl, h.grown_addBlock hc hadmits, ?_, ?_⟩
  · exact ⟨rfl, rfl, rfl, by simp [Block.methodIds, siteIn]⟩
  · rw [room_singleton, Nat.add_comm 1]
    exact Nat.le_of_eq (by simp [SymbolTable.addBlock, pushAll, size, blockSymbols, siteIn])

theorem declareType_eq (d : TypeDecl) :
    r.declareType c d = r.declareOwn c d >>= fun r' => r'.declareNested r.next d.nested := by
  cases d
  rw [declareType]

theorem declareType_registers_of (h : r.table.Layout blocks paths) (hc : c < r.table.size)
    (d : TypeDecl)
    (hnested : ∀ {r : Register} {blocks : List Block} {paths : List String} {c : SymbolId},
      r.table.Layout blocks paths → c < r.table.size →
        Registers r blocks paths (r.table.declareNested c d.nested) (r.declareNested c d.nested)
          (TypeDecl.nestedSites (r.table.placePrefix c) d.nested) []) :
    Registers r blocks paths (r.table.declareType c d) (r.declareType c d)
      (d.sitesUnder (r.table.placePrefix c)) [] := by
  intro hroom
  have hnext : r.next = r.table.size := by
    refine next_eq ?_
    rw [TypeDecl.sitesUnder_eq, room] at hroom
    simp at hroom
    omega
  revert hroom
  rw [SymbolTable.declareType_eq, declareType_eq, hnext, TypeDecl.sitesUnder_eq]
  refine (declareOwn_registers h hc d).bind fun r' new hr' hnew hg => ?_
  have htable := ((declareOwn_meets h hc d).of_ok hr').2
  have hown := symbol?_eq_some_lt (symbol?_addBlock_type r.table c (r.table.siteIn c d))
  have hprefix := (addBlock_names h.nested hc (r.table.siteIn c d)).2
  rw [← htable] at hown hprefix
  exact hprefix ▸ hnested hg.layout hown

mutual

theorem declareType_registers {r : Register} {blocks : List Block} {paths : List String}
    {c : SymbolId} (h : r.table.Layout blocks paths) (hc : c < r.table.size) : ∀ d : TypeDecl,
      Registers r blocks paths (r.table.declareType c d) (r.declareType c d)
        (d.sitesUnder (r.table.placePrefix c)) []
  | ⟨_, _, _, _, _, _, _, nested⟩ =>
    declareType_registers_of h hc _ fun h' hc' => declareNested_registers h' hc' nested

theorem declareNested_registers {r : Register} {blocks : List Block} {paths : List String}
    {c : SymbolId} (h : r.table.Layout blocks paths) (hc : c < r.table.size) :
    ∀ ds : List TypeDecl,
      Registers r blocks paths (r.table.declareNested c ds) (r.declareNested c ds)
        (TypeDecl.nestedSites (r.table.placePrefix c) ds) []
  | [] => by
    unfold SymbolTable.declareNested Register.declareNested TypeDecl.nestedSites
    exact registers_nil h
  | d :: ds => by
    rw [SymbolTable.declareNested_cons, Register.declareNested, TypeDecl.nestedSites]
    refine (declareType_registers h hc d).bind fun r' new _ hnew hg => ?_
    rw [← placePrefix_extends h.nested hg.table hc]
    exact declareNested_registers hg.layout (Nat.lt_of_lt_of_le hc hg.table.size_le) ds

end

/-! ## Types in their namespaces -/

theorem length_pathsFrom (path : String) (segs : List String) :
    (pathsFrom path segs).length = segs.length := by
  induction segs generalizing path with
  | nil => rfl
  | cons segment rest ih => rw [pathsFrom, List.length_cons, List.length_cons, ih]

theorem declareTop_registers (h : r.table.Layout blocks paths) (d : TypeDecl) :
    Registers r blocks paths (r.table.declareTop d) (r.declareTop d) d.sites d.spacePaths := by
  intro hroom
  have hlength : d.spacePaths.length = d.spacePath.length := length_pathsFrom "" d.spacePath
  have hsplit : room d.sites d.spacePaths = d.spacePath.length + room d.sites [] := by
    simp [room, hlength]
    omega
  rw [hsplit] at hroom ⊢
  unfold Register.declareTop SymbolTable.declareTop enter
  rw [d.segments_spaceName]
  have hmeets := enterFrom_meets h h.nested.isPlace_root
    fun segment hsegment => d.isEmpty_of_mem_spacePath hsegment
  refine (enterFrom_agrees (by omega)).bind ?_
  rintro ⟨t', here⟩ b ha ⟨rfl, hsize⟩
  obtain ⟨-, hl, hx, hplace⟩ := hmeets.of_ok ha
  have hsites : d.sites = d.sitesUnder (t'.placePrefix here) := by
    rw [hplace.inside, d.prefix_spacePath, TypeDecl.sites]
  rw [hsites] at hroom ⊢
  dsimp only at hl hx hplace hsize ⊢
  refine (declareType_registers (r := { r with table := t' }) hl hplace.lt d ?_).mono ?_
  · dsimp only
    omega
  · rintro t'' r' - ⟨new, hnew, hg, hfollows, hsize'⟩
    refine ⟨new, hnew, ⟨by simpa [TypeDecl.spacePaths] using hg.layout, hx.trans hg.table,
      fun b hb => Nat.le_trans hx.size_le (hg.fresh b hb)⟩,
      ⟨hfollows.table, hfollows.declared, hfollows.methods, hfollows.listed⟩, ?_⟩
    dsimp only at hsize'
    omega

theorem declareTypes_registers (h : r.table.Layout blocks paths) (ds : List TypeDecl) :
    Registers r blocks paths (r.table.declareTypes ds) (r.declareTypes ds)
      (ds.flatMap TypeDecl.sites) (ds.flatMap TypeDecl.spacePaths) := by
  induction ds generalizing r blocks paths with
  | nil => exact registers_nil h
  | cons d ds ih =>
    rw [SymbolTable.declareTypes_cons, Register.declareTypes]
    exact (declareTop_registers h d).bind fun r' new _ _ hg => ih hg.layout

/-! ## Solutions -/

/-- The types with their numbers, and their methods, are those of blocks. -/
structure Keeps (r : Register) (blocks : List Block) : Prop where
  declared : r.declared = blocks.map fun b => (b.id, b.site.decl)
  methods : r.methods = blocks.map fun b => (b.id, b.methodIds)

theorem Follows.keeps {r r' : Register} {new : List Block} {t' : SymbolTable}
    (h : r.Follows new t' r') (hr : r.Keeps blocks) : r'.Keeps (blocks ++ new) where
  declared := by rw [h.declared, hr.declared, List.map_append]
  methods := by rw [h.methods, hr.methods, List.map_append]

theorem declareProjects_agrees (h : r.table.Layout blocks paths) (hr : r.Keeps blocks)
    (ps : List ProjectDecl)
    (hroom : r.table.size + room (ps.flatMap ProjectDecl.sites)
      (ps.flatMap ProjectDecl.spacePaths) ≤ UInt32.size) :
    Agrees (fun a b => ∃ news, Listed ps news a.2 ∧
        Grown r.table blocks paths news.flatten (ps.flatMap ProjectDecl.spacePaths) a.1 ∧
        b.1.table = a.1 ∧ b.1.Keeps (blocks ++ news.flatten) ∧ b.2 = a.2 ∧
        a.1.size ≤ r.table.size + room (ps.flatMap ProjectDecl.sites)
          (ps.flatMap ProjectDecl.spacePaths))
      (r.table.declareProjects ps) (r.declareProjects ps) := by
  induction ps generalizing r blocks paths with
  | nil =>
    exact .ok ⟨[], ⟨rfl, rfl⟩, Grown.refl h, rfl, by simpa using hr, rfl, Nat.le_add_right _ _⟩
  | cons p ps ih =>
    rw [List.flatMap_cons, List.flatMap_cons, room_append] at hroom ⊢
    rw [declareProjects_cons, Register.declareProjects]
    have hroom' : r.table.size + room p.sites p.spacePaths ≤ UInt32.size := by omega
    refine (declareTypes_registers (r := { r with listed := [] }) h p.types hroom').bind ?_
    rintro t' r' - ⟨new, hnew, hg, hfollows, hsize⟩
    obtain rfl := hfollows.table
    have hkeeps := hfollows.keeps (r := { r with listed := [] }) ⟨hr.declared, hr.methods⟩
    have hsize : r'.table.size ≤ r.table.size + room p.sites p.spacePaths := hsize
    refine (ih hg.layout hkeeps (by omega)).bind ?_
    rintro ⟨t'', listings⟩ ⟨r'', listings'⟩ - ⟨news, hlisted, hg', htable, hkeeps', rfl, hsize'⟩
    have hlisting : r'.table.methodsFrom r.table.size = r'.listed :=
      (hg.methodsFrom_eq h).trans hfollows.listed.symm
    dsimp only at hsize' hlisted ⊢
    refine .ok ⟨new :: news, ⟨?_, ?_⟩, hg.trans hg', htable, ?_, ?_, ?_⟩
    · rw [List.map_cons, List.map_cons, hnew, hlisted.sites]
      rfl
    · rw [List.map_cons, hg.methodsFrom_eq h, hlisted.methods]
    · rwa [List.flatten_cons, ← List.append_assoc]
    · rw [hlisting]
    · dsimp only
      omega

end Register

/-- How many symbols a solution has at most: the global namespace, the namespaces, the types and the
methods. -/
def Solution.symbolBound (s : Solution) : Nat :=
  1 + (s.topTypes.flatMap TypeDecl.spacePath).length + s.sites.length + s.methodSites.length

namespace Register

open SymbolTable

theorem symbolBound_eq (s : Solution) :
    s.symbolBound = initial.size + room (s.projects.flatMap ProjectDecl.sites)
      (s.projects.flatMap ProjectDecl.spacePaths) +
        room (s.externalTypes.flatMap TypeDecl.sites)
          (s.externalTypes.flatMap TypeDecl.spacePaths) := by
  have hpaths : s.spacePaths.length = (s.topTypes.flatMap TypeDecl.spacePath).length := by
    simp only [Solution.spacePaths, List.length_flatMap]
    congr 1
    exact List.map_congr_left fun d _ => length_pathsFrom "" d.spacePath
  rw [Nat.add_assoc, ← room_append, ← s.sites_eq, ← s.spacePaths_eq, room, hpaths,
    Solution.symbolBound, Solution.methodSites]
  simp [initial, size]
  omega

/-- With room for its numbers the register of a solution is that of its table: it fails with the
same error, or has the same table with the types and methods of its blocks, and the same methods of
each project. -/
theorem ofSolution_agrees {s : Solution} (hroom : s.symbolBound ≤ UInt32.size) :
    Agrees (fun a b => ∃ news outside, s.Placed a.1 a.2 news outside ∧ b.1.table = a.1 ∧
        b.1.Keeps (news.flatten ++ outside) ∧ b.2 = a.2)
      (SymbolTable.ofSolution s) (Register.ofSolution s) := by
  rw [symbolBound_eq] at hroom
  rw [s.ofSolution_eq, Register.ofSolution]
  have hprojects := declareProjects_agrees (r := {}) initial_layout ⟨rfl, rfl⟩ s.projects
    (Nat.le_trans (Nat.le_add_right _ _) hroom)
  refine hprojects.bind ?_
  rintro ⟨t, listings⟩ ⟨r, listings'⟩ - ⟨news, hlisted, hg, htable, hkeeps, rfl, hsize⟩
  dsimp only at hlisted hg htable hkeeps hsize ⊢
  subst htable
  have hroom' : r.table.size + room (s.externalTypes.flatMap TypeDecl.sites)
      (s.externalTypes.flatMap TypeDecl.spacePaths) ≤ UInt32.size :=
    Nat.le_trans (Nat.add_le_add_right hsize _) hroom
  refine (declareTypes_registers (r := { r with listed := [] }) hg.layout s.externalTypes
    hroom').bind ?_
  rintro t' r' - ⟨outside, houtside, hg', hfollows, -⟩
  obtain rfl := hfollows.table
  have hlayout := hg'.layout
  rw [List.nil_append, List.nil_append, ← s.spacePaths_eq] at hlayout
  refine .ok ⟨news, outside, ⟨hlayout, hlisted, houtside⟩, rfl, ?_, rfl⟩
  have hkeeps' := hfollows.keeps (r := { r with listed := [] }) ⟨hkeeps.declared, hkeeps.methods⟩
  rwa [List.nil_append] at hkeeps'

end Register

end TestReach
