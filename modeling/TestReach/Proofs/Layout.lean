import TestReach.Proofs.Declared
import TestReach.Proofs.Naming
import Mathlib.Data.List.Nodup
import Mathlib.Data.List.Sort

/-!
# How a table is laid out

Each declared type has a *block* in the table: its own symbol, and right after it the symbols of its
methods. `Layout t blocks paths` says that the table holds these blocks in ascending order, the
namespaces of the given paths, and nothing else besides the global namespace; that both indexes are
exact; and that the names of types are distinct and no path of a namespace. The two ways in which a
table grows preserve this: a namespace is added (`Layout.addSpace`), or a whole block is
(`Layout.addBlock`).
-/

namespace TestReach.SymbolTable

open Text

variable {t t' : SymbolTable} {id c : Nat}

/-- A declared type and the number that it has; its methods have the numbers that follow. -/
structure Block where
  id : Nat
  site : TypeSite

/-- The numbers of the methods of a block. -/
def Block.methodIds (b : Block) : List Nat :=
  List.range' (b.id + 1) b.site.decl.methods.length

/-- The symbol of number `id` is the method `m` of the block. -/
def Block.HasMethod (b : Block) (id : Nat) (m : MethodDecl) : Prop :=
  ∃ j, b.site.decl.methods[j]? = some m ∧ id = b.id + 1 + j

theorem Block.mem_methodIds {b : Block} : id ∈ b.methodIds ↔ ∃ m, b.HasMethod id m := by
  unfold Block.methodIds Block.HasMethod
  rw [List.mem_range'_1]
  constructor
  · rintro ⟨hle, hlt⟩
    exact ⟨_, id - (b.id + 1), List.getElem?_eq_getElem (by omega), by omega⟩
  · rintro ⟨m, j, hm, rfl⟩
    have hj := (List.getElem?_eq_some_iff.1 hm).1
    omega

theorem Block.HasMethod.unique {b : Block} {m m' : MethodDecl} (h : b.HasMethod id m)
    (h' : b.HasMethod id m') : m = m' := by
  obtain ⟨j, hm, rfl⟩ := h
  obtain ⟨j', hm', hj⟩ := h'
  obtain rfl : j = j' := by omega
  rw [hm] at hm'
  exact Option.some.inj hm'

/-- The qualified names of the types of blocks. -/
def blockNames (blocks : List Block) : List String :=
  blocks.map (·.site.name)

/-- Names without repeats, none of them the path of a namespace. -/
structure NamesApart (names paths : List String) : Prop where
  nodup : names.Nodup
  apart : ∀ name ∈ names, name ∉ paths

theorem NamesApart.concat_iff {names paths : List String} {name : String}
    (h : NamesApart names paths) :
    NamesApart (names ++ [name]) paths ↔ name ∉ names ∧ name ∉ paths := by
  rw [← List.concat_eq_append]
  constructor
  · rintro ⟨hn, ha⟩
    exact ⟨((List.nodup_concat _ _).1 hn).1, ha name (by simp)⟩
  · rintro ⟨hnew, hpath⟩
    refine ⟨(List.nodup_concat _ _).2 ⟨hnew, h.nodup⟩, fun a ha => ?_⟩
    rw [List.concat_eq_append, List.mem_append, List.mem_singleton] at ha
    rcases ha with ha | rfl
    · exact h.apart a ha
    · exact hpath

/-- The symbol is a namespace of this path. -/
structure IsSpace (t : SymbolTable) (id : SymbolId) (path : String) : Prop where
  symbol : ∃ s, t.symbol? id = some s ∧ s.body = .space
  name : t.qualifiedName id = path
  inside : t.placePrefix id = path ++ "."

/-- What a table holds, besides the global namespace. -/
structure Layout (t : SymbolTable) (blocks : List Block) (paths : List String) : Prop where
  nested : t.Nested
  names : NamesApart (blockNames blocks) paths
  ascending : blocks.Pairwise fun a b => a.id + a.site.decl.methods.length < b.id
  typeIndex : t.types = (blocks.map fun b => (b.site.name, b.id)).reverse
  typeSymbols : ∀ b ∈ blocks, ∃ c, t.symbol? b.id = some (typeSymbol c b.site.decl)
  typeNames : ∀ b ∈ blocks, t.qualifiedName b.id = b.site.name
  methodSymbols : ∀ b ∈ blocks, ∀ id m, b.HasMethod id m →
    t.symbol? id = some (methodSymbol b.id m)
  spaces : ∀ path id, (path, id) ∈ t.spaces → t.IsSpace id path
  spaceKeys : (t.spaces.map Prod.fst).Nodup
  spaceIndex : ∀ path, (∃ id, (path, id) ∈ t.spaces) ↔ path ∈ paths
  complete : ∀ (id : Nat) s, t.symbol? id = some s → id = 0 ∨ (∃ path, (path, id) ∈ t.spaces) ∨
    ∃ b ∈ blocks, id = b.id ∨ id ∈ b.methodIds

theorem initial_layout : initial.Layout [] [] where
  nested := initial_nested
  names := ⟨List.nodup_nil, by simp [blockNames]⟩
  ascending := .nil
  typeIndex := rfl
  typeSymbols := by simp
  typeNames := by simp
  methodSymbols := by simp
  spaces := by simp [initial]
  spaceKeys := List.nodup_nil
  spaceIndex := by simp [initial]
  complete := fun id s hs => .inl (Nat.lt_one_iff.1 (symbol?_eq_some_lt hs))

/-! ## Indexes -/

section Lookup

variable {α β : Type} [BEq α] [LawfulBEq α] {l : List (α × β)} {key : α} {value : β}

theorem mem_of_lookup (h : l.lookup key = some value) : (key, value) ∈ l := by
  obtain ⟨before, after, rfl, -⟩ := List.lookup_eq_some_iff.1 h
  simp

theorem lookup_eq_some_iff_mem (hn : (l.map Prod.fst).Nodup) :
    l.lookup key = some value ↔ (key, value) ∈ l := by
  refine ⟨mem_of_lookup, fun hmem => ?_⟩
  obtain ⟨before, after, rfl⟩ := List.append_of_mem hmem
  refine List.lookup_eq_some_iff.2 ⟨before, after, rfl, fun p hp => ?_⟩
  rw [List.map_append, List.map_cons, List.nodup_middle, List.nodup_cons] at hn
  rw [bne_iff_ne]
  rintro rfl
  exact hn.1 (List.mem_append_left _ (List.mem_map.2 ⟨p, hp, rfl⟩))

end Lookup

/-! ## Growing -/

theorem push_eq_pushAll (t : SymbolTable) (s : Symbol) : t.push s = t.pushAll [s] := by
  simp [push, pushAll]

theorem Nested.pushAll (h : t.Nested) {ss : List Symbol}
    (hss : ∀ j s, ss[j]? = some s → s.isRoot = false ∧ ∃ c, s.container = some c ∧ c < t.size + j) :
    (t.pushAll ss).Nested := by
  refine ⟨extends_pushAll t ss 0 _ h.root, fun id s hs hid => ?_⟩
  rcases symbol?_pushAll_cases hs with hs | ⟨j, rfl, hj⟩
  · exact h.inner id s hs hid
  · exact hss j s hj

theorem Nested.pushOne (h : t.Nested) {s : Symbol} (hroot : s.isRoot = false)
    (hs : s.container = some c) (hc : c < t.size) : (t.pushAll [s]).Nested := by
  refine h.pushAll fun j o hj => ?_
  cases j with
  | zero => exact Option.some.inj hj ▸ ⟨hroot, c, hs, hc⟩
  | succ j => simp at hj

theorem push_type_name (h : t.Nested) (hc : c < t.size) (d : TypeDecl) :
    (t.push (typeSymbol c d)).qualifiedName t.size = t.placePrefix c ++ trim d.name := by
  rw [push_eq_pushAll]
  have hn : (t.pushAll [typeSymbol c d]).Nested := h.pushOne rfl rfl hc
  have hs : (t.pushAll [typeSymbol c d]).symbol? t.size = some (typeSymbol c d) :=
    symbol?_pushAll_add t _ 0
  rw [qualifiedName_eq hn hs rfl (.inl rfl), placePrefix_extends h (extends_pushAll t _) hc]
  rfl

theorem IsSpace.of_extends {path : String} (h : t.IsSpace id path) (hn : t.Nested)
    (hx : Extends t t') : t'.IsSpace id path := by
  obtain ⟨s, hs, hb⟩ := h.symbol
  have hid := symbol?_eq_some_lt hs
  refine ⟨⟨s, hx id s hs, hb⟩, ?_, ?_⟩
  · rw [qualifiedName_extends hn hx hid, h.name]
  · rw [placePrefix_extends hn hx hid, h.inside]

theorem pushSpace_eq (t : SymbolTable) (path segment : String) (here : SymbolId) :
    t.pushSpace path segment here =
      { t.pushAll [⟨segment, some here, .space⟩] with spaces := (path, t.size) :: t.spaces } := by
  rw [pushSpace, push_eq_pushAll]

theorem extends_pushSpace (t : SymbolTable) (path segment : String) (here : SymbolId) :
    Extends t (t.pushSpace path segment here) :=
  pushSpace_eq t path segment here ▸ extends_pushAll t _

theorem Nested.pushSpace (h : t.Nested) (path segment : String) {here : SymbolId}
    (hhere : here < t.size) : (t.pushSpace path segment here).Nested := by
  have hpush : (t.pushAll [⟨segment, some here, .space⟩]).Nested := h.pushOne rfl rfl hhere
  rw [pushSpace_eq]
  exact ⟨hpush.root, hpush.inner⟩

/-- A namespace in a namespace has the path that continues the prefix of the outer one. -/
theorem isSpace_pushSpace (h : t.Nested) {here : SymbolId} {path segment : String}
    (hhere : here < t.size) (hplace : ∀ o, t.symbol? here = some o → o.isType = false)
    (hpath : t.placePrefix here ++ segment = path) :
    (t.pushSpace path segment here).IsSpace t.size path := by
  have hx := extends_pushSpace t path segment here
  have hn := h.pushSpace path segment hhere
  have hs : (t.pushSpace path segment here).symbol? t.size = some ⟨segment, some here, .space⟩ :=
    pushSpace_eq t path segment here ▸ symbol?_pushAll_add t _ 0
  have hplace' : ∀ o, (t.pushSpace path segment here).symbol? here = some o → o.isType = false := by
    rw [hx.symbol?_eq hhere]
    exact hplace
  refine ⟨⟨_, hs, rfl⟩, ?_, ?_⟩
  · rw [qualifiedName_eq hn hs rfl (.inr hplace'), placePrefix_extends h hx hhere, hpath]
  · rw [placePrefix_eq hn hs rfl (.inr hplace'), placePrefix_extends h hx hhere]
    exact congrArg (· ++ ".") hpath

/-! ## Lists of methods -/

theorem mem_methodsFrom {first : Nat} :
    id ∈ t.methodsFrom first ↔ first ≤ id ∧ ∃ s, t.symbol? id = some s ∧ s.isMethod = true := by
  rw [methodsFrom, List.mem_filter, List.mem_range'_1]
  cases hs : t.symbol? id with
  | none => simp
  | some s =>
    have hlt := symbol?_eq_some_lt hs
    simp
    omega

theorem mem_methodsOf {owner : Nat} :
    id ∈ t.methodsOf owner ↔
      ∃ s, t.symbol? id = some s ∧ s.isMethod = true ∧ s.container = some owner := by
  rw [methodsOf, List.mem_filter, List.mem_range]
  cases hs : t.symbol? id with
  | none => simp
  | some s => simp [symbol?_eq_some_lt hs]

namespace Layout

variable {blocks : List Block} {paths : List String}

/-- The blocks of a table are those of every table that extends it. -/
theorem blocks_of_extends (h : t.Layout blocks paths) (hx : Extends t t') {b : Block}
    (hb : b ∈ blocks) :
    (∃ c, t'.symbol? b.id = some (typeSymbol c b.site.decl)) ∧
      t'.qualifiedName b.id = b.site.name ∧
      ∀ id m, b.HasMethod id m → t'.symbol? id = some (methodSymbol b.id m) := by
  obtain ⟨c, hc⟩ := h.typeSymbols b hb
  refine ⟨⟨c, hx _ _ hc⟩, ?_, fun id m hm => hx _ _ (h.methodSymbols b hb id m hm)⟩
  rw [qualifiedName_extends h.nested hx (symbol?_eq_some_lt hc), h.typeNames b hb]

/-- A block ends before the table does. -/
theorem block_end_lt (h : t.Layout blocks paths) {b : Block} (hb : b ∈ blocks) :
    b.id + b.site.decl.methods.length < t.size := by
  obtain ⟨c, hc⟩ := h.typeSymbols b hb
  have hid := symbol?_eq_some_lt hc
  cases hl : b.site.decl.methods.length with
  | zero => exact hid
  | succ n =>
    have hlast : b.HasMethod (b.id + 1 + n) (b.site.decl.methods.get ⟨n, by omega⟩) :=
      ⟨n, List.getElem?_eq_getElem _, rfl⟩
    have hlt := symbol?_eq_some_lt (h.methodSymbols b hb _ _ hlast)
    omega

/-- The table with one more namespace, which no type and no other namespace has the name of. -/
theorem addSpace (h : t.Layout blocks paths) {here : SymbolId} {path segment : String}
    (hhere : here < t.size) (hplace : ∀ o, t.symbol? here = some o → o.isType = false)
    (hpath : t.placePrefix here ++ segment = path) (hname : path ∉ blockNames blocks)
    (hfree : path ∉ paths) :
    (t.pushSpace path segment here).Layout blocks (paths ++ [path]) ∧
      Extends t (t.pushSpace path segment here) ∧
      (t.pushSpace path segment here).IsSpace t.size path := by
  have hx := extends_pushSpace t path segment here
  have hnew := isSpace_pushSpace h.nested hhere hplace hpath
  -- the blocks are those of the smaller table; only the namespaces and the completeness are new
  refine ⟨⟨h.nested.pushSpace path segment hhere, ⟨h.names.nodup, ?_⟩, h.ascending, h.typeIndex,
    fun b hb => (h.blocks_of_extends hx hb).1, fun b hb => (h.blocks_of_extends hx hb).2.1,
    fun b hb => (h.blocks_of_extends hx hb).2.2, ?_, ?_, ?_, ?_⟩, hx, hnew⟩
  · intro name hmem hp
    rcases List.mem_append.1 hp with hp | hp
    · exact h.names.apart name hmem hp
    · exact hname (List.mem_singleton.1 hp ▸ hmem)
  · intro q id hq
    rcases List.mem_cons.1 hq with hq | hq
    · obtain ⟨rfl, rfl⟩ := Prod.mk.inj hq
      exact hnew
    · exact (h.spaces q id hq).of_extends h.nested hx
  · refine List.nodup_cons.2 ⟨fun hkey => hfree ?_, h.spaceKeys⟩
    obtain ⟨⟨q, id⟩, hmem, rfl⟩ := List.mem_map.1 hkey
    exact (h.spaceIndex q).1 ⟨id, hmem⟩
  · intro q
    rw [List.mem_append, List.mem_singleton, ← h.spaceIndex]
    simp only [pushSpace_eq, List.mem_cons, Prod.mk.injEq]
    constructor
    · rintro ⟨id, ⟨rfl, -⟩ | hid⟩
      · exact .inr rfl
      · exact .inl ⟨id, hid⟩
    · rintro (⟨id, hid⟩ | rfl)
      · exact ⟨id, .inr hid⟩
      · exact ⟨t.size, .inl ⟨rfl, rfl⟩⟩
  · intro id s hsym
    rw [pushSpace_eq] at hsym
    rcases symbol?_pushAll_cases hsym with hold | ⟨j, rfl, hj⟩
    · refine (h.complete id s hold).imp_right (Or.imp_left ?_)
      rintro ⟨q, hq⟩
      exact ⟨q, List.mem_cons_of_mem _ hq⟩
    · cases j with
      | zero => exact .inr (.inl ⟨path, List.mem_cons_self⟩)
      | succ j => simp at hj

end Layout

/-- The symbols of a block that begins at number `first`. -/
def blockSymbols (first c : SymbolId) (d : TypeDecl) : List Symbol :=
  typeSymbol c d :: d.methods.map (methodSymbol first)

/-- The table with one more block. -/
def addBlock (t : SymbolTable) (c : SymbolId) (T : TypeSite) : SymbolTable :=
  { t.pushAll (blockSymbols t.size c T.decl) with types := (T.name, t.size) :: t.types }

theorem extends_addBlock (t : SymbolTable) (c : SymbolId) (T : TypeSite) :
    Extends t (t.addBlock c T) :=
  extends_pushAll t _

theorem symbol?_addBlock_type (t : SymbolTable) (c : SymbolId) (T : TypeSite) :
    (t.addBlock c T).symbol? t.size = some (typeSymbol c T.decl) :=
  symbol?_pushAll_add t (blockSymbols t.size c T.decl) 0

theorem symbol?_addBlock_method (t : SymbolTable) (c : SymbolId) {T : TypeSite}
    {m : MethodDecl} (hm : Block.HasMethod ⟨t.size, T⟩ id m) :
    (t.addBlock c T).symbol? id = some (methodSymbol t.size m) := by
  obtain ⟨j, hm, rfl⟩ := hm
  have h : (t.addBlock c T).symbol? (t.size + (j + 1)) = _ :=
    symbol?_pushAll_add t (blockSymbols t.size c T.decl) (j + 1)
  rw [Nat.add_assoc, Nat.add_comm 1 j, h]
  simp [blockSymbols, hm]

theorem Nested.addBlock (h : t.Nested) (hc : c < t.size) (T : TypeSite) :
    (t.addBlock c T).Nested := by
  have hpush : (t.pushAll (blockSymbols t.size c T.decl)).Nested := by
    refine h.pushAll fun j s hj => ?_
    cases j with
    | zero => exact Option.some.inj hj ▸ ⟨rfl, c, rfl, hc⟩
    | succ j =>
      obtain ⟨m, -, rfl⟩ : ∃ m, T.decl.methods[j]? = some m ∧ methodSymbol t.size m = s := by
        simpa [blockSymbols] using hj
      exact ⟨rfl, t.size, rfl, by omega⟩
  exact ⟨hpush.root, hpush.inner⟩

/-- A type is named after the prefix of its container, and adds its display name to the prefix. -/
theorem addBlock_names (h : t.Nested) (hc : c < t.size) (T : TypeSite) :
    (t.addBlock c T).qualifiedName t.size = t.placePrefix c ++ trim T.decl.name ∧
      (t.addBlock c T).placePrefix t.size = t.placePrefix c ++ T.decl.display ++ "+" := by
  have hn := h.addBlock hc T
  have hs := symbol?_addBlock_type t c T
  have hp := placePrefix_extends h (extends_addBlock t c T) hc
  have hdisplay : (typeSymbol c T.decl).display = T.decl.display := by
    unfold Symbol.display typeSymbol TypeDecl.display
    cases T.decl.displayName <;> rfl
  refine ⟨?_, ?_⟩
  · rw [qualifiedName_eq hn hs rfl (.inl rfl), hp]
    rfl
  · rw [placePrefix_eq hn hs rfl (.inl rfl), hp, hdisplay]
    rfl

namespace Layout

variable {blocks : List Block} {paths : List String}

/-- The table with one more block, of a type with a new name. -/
theorem addBlock (h : t.Layout blocks paths) (hc : c < t.size) {T : TypeSite}
    (hname : t.placePrefix c ++ trim T.decl.name = T.name)
    (hnames : NamesApart (blockNames blocks ++ [T.name]) paths) :
    (t.addBlock c T).Layout (blocks ++ [⟨t.size, T⟩]) paths := by
  have hx := extends_addBlock t c T
  have hlast : ∀ b ∈ blocks ++ [⟨t.size, T⟩], b ∈ blocks ∨ b = ⟨t.size, T⟩ := fun b hb =>
    (List.mem_append.1 hb).imp_right List.mem_singleton.1
  constructor
  · exact h.nested.addBlock hc T
  · simpa [blockNames] using hnames
  · refine List.pairwise_append.2 ⟨h.ascending, List.pairwise_singleton _ _, fun a ha b hb => ?_⟩
    rw [List.mem_singleton.1 hb]
    exact h.block_end_lt ha
  · simp [SymbolTable.addBlock, h.typeIndex]
  · intro b hb
    rcases hlast b hb with hb | rfl
    · exact (h.blocks_of_extends hx hb).1
    · exact ⟨c, symbol?_addBlock_type t c T⟩
  · intro b hb
    rcases hlast b hb with hb | rfl
    · exact (h.blocks_of_extends hx hb).2.1
    · exact (addBlock_names h.nested hc T).1.trans hname
  · intro b hb
    rcases hlast b hb with hb | rfl
    · exact (h.blocks_of_extends hx hb).2.2
    · exact fun id m hm => symbol?_addBlock_method t c hm
  · exact fun path id hid => (h.spaces path id hid).of_extends h.nested hx
  · exact h.spaceKeys
  · exact h.spaceIndex
  · intro id s hs
    rcases symbol?_pushAll_cases hs with hs | ⟨j, rfl, hj⟩
    · refine (h.complete id s hs).imp_right (Or.imp_right ?_)
      rintro ⟨b, hb, hid⟩
      exact ⟨b, List.mem_append_left _ hb, hid⟩
    -- the symbols after the old ones are the block: the type first, then its methods
    · refine .inr (.inr ⟨⟨t.size, T⟩, by simp, ?_⟩)
      have hlt := (List.getElem?_eq_some_iff.1 hj).1
      simp only [blockSymbols, List.length_cons, List.length_map] at hlt
      simp only [Block.methodIds, List.mem_range'_1]
      omega

/-! ## Looking up -/

theorem mem_blockNames {name : String} :
    name ∈ blockNames blocks ↔ ∃ b ∈ blocks, b.site.name = name :=
  List.mem_map

/-- The index of types has exactly the types of the blocks. -/
theorem findType_eq_some_iff (h : t.Layout blocks paths) {name : String} :
    t.findType name = some id ↔ ∃ b ∈ blocks, b.site.name = name ∧ b.id = id := by
  have hkeys : (t.types.map Prod.fst).Nodup := by
    rw [h.typeIndex, List.map_reverse, List.nodup_reverse, List.map_map]
    exact h.names.nodup
  unfold findType
  rw [lookup_eq_some_iff_mem hkeys, h.typeIndex, List.mem_reverse, List.mem_map]
  simp only [Prod.mk.injEq]

theorem findType_isSome_iff (h : t.Layout blocks paths) {name : String} :
    (t.findType name).isSome = true ↔ name ∈ blockNames blocks := by
  rw [Option.isSome_iff_exists, mem_blockNames]
  constructor
  · rintro ⟨id, hid⟩
    obtain ⟨b, hb, hname, -⟩ := h.findType_eq_some_iff.1 hid
    exact ⟨b, hb, hname⟩
  · rintro ⟨b, hb, hname⟩
    exact ⟨b.id, h.findType_eq_some_iff.2 ⟨b, hb, hname, rfl⟩⟩

theorem lookup_space_eq_none_iff (h : t.Layout blocks paths) {path : String} :
    t.spaces.lookup path = none ↔ path ∉ paths := by
  rw [← h.spaceIndex, List.lookup_eq_none_iff]
  constructor
  · rintro hall ⟨id, hid⟩
    simpa using hall _ hid
  · rintro hnone ⟨path', id⟩ hmem
    rw [bne_iff_ne]
    rintro rfl
    exact hnone ⟨id, hmem⟩

theorem isSpace_of_lookup (h : t.Layout blocks paths) {path : String}
    (hl : t.spaces.lookup path = some id) : t.IsSpace id path :=
  h.spaces path id (mem_of_lookup hl)

theorem block_eq_of_name (h : t.Layout blocks paths) {b b' : Block} (hb : b ∈ blocks)
    (hb' : b' ∈ blocks) (hname : b.site.name = b'.site.name) : b = b' :=
  List.inj_on_of_nodup_map h.names.nodup hb hb' hname

theorem block_eq_of_id (h : t.Layout blocks paths) {b b' : Block} (hb : b ∈ blocks)
    (hb' : b' ∈ blocks) (hid : b.id = b'.id) : b = b' := by
  refine h.block_eq_of_name hb hb' ?_
  rw [← h.typeNames b hb, ← h.typeNames b' hb', hid]

/-! ## Methods -/

/-- A symbol is a type, a method, or a namespace. -/
theorem symbol_cases (h : t.Layout blocks paths) {s : Symbol} (hs : t.symbol? id = some s) :
    (∃ b ∈ blocks, b.id = id ∧ ∃ c, s = typeSymbol c b.site.decl) ∨
      (∃ b ∈ blocks, ∃ m, b.HasMethod id m ∧ s = methodSymbol b.id m) ∨
      s.body = .root ∨ s.body = .space := by
  have hsame : ∀ {o}, t.symbol? id = some o → s = o := fun ho =>
    Option.some.inj (hs.symm.trans ho)
  rcases h.complete id s hs with rfl | ⟨path, hpath⟩ | ⟨b, hb, rfl | hid⟩
  · exact .inr (.inr (.inl (hsame h.nested.root ▸ rfl)))
  · obtain ⟨o, ho, hbody⟩ := (h.spaces path id hpath).symbol
    exact .inr (.inr (.inr (hsame ho ▸ hbody)))
  · obtain ⟨c, hc⟩ := h.typeSymbols b hb
    exact .inl ⟨b, hb, rfl, c, hsame hc⟩
  · obtain ⟨m, hm⟩ := Block.mem_methodIds.1 hid
    exact .inr (.inl ⟨b, hb, m, hm, hsame (h.methodSymbols b hb id m hm)⟩)

/-- The methods of the table are those of its blocks. -/
theorem isMethod_iff (h : t.Layout blocks paths) :
    (∃ s, t.symbol? id = some s ∧ s.isMethod = true) ↔ ∃ b ∈ blocks, id ∈ b.methodIds := by
  constructor
  · rintro ⟨s, hs, hmethod⟩
    rcases h.symbol_cases hs with ⟨b, hb, -, c, rfl⟩ | ⟨b, hb, m, hm, -⟩ | hbody | hbody
    · exact absurd hmethod (by simp [Symbol.isMethod, typeSymbol])
    · exact ⟨b, hb, Block.mem_methodIds.2 ⟨m, hm⟩⟩
    · exact absurd hmethod (by simp [Symbol.isMethod, hbody])
    · exact absurd hmethod (by simp [Symbol.isMethod, hbody])
  · rintro ⟨b, hb, hid⟩
    obtain ⟨m, hm⟩ := Block.mem_methodIds.1 hid
    exact ⟨_, h.methodSymbols b hb id m hm, rfl⟩

theorem pairwise_methodIds (h : t.Layout blocks paths) :
    (blocks.flatMap Block.methodIds).Pairwise (· < ·) := by
  rw [List.pairwise_flatMap]
  refine ⟨fun b _ => List.pairwise_lt_range', h.ascending.imp fun {a b} hab x hx y hy => ?_⟩
  rw [Block.methodIds, List.mem_range'_1] at hx hy
  omega

/-- The methods that a type declares are those of its block. -/
theorem methodsOf_eq (h : t.Layout blocks paths) {b : Block} (hb : b ∈ blocks) :
    t.methodsOf b.id = b.methodIds := by
  refine List.Pairwise.eq_of_mem_iff (List.pairwise_lt_range.filter _)
    List.pairwise_lt_range' fun id => ?_
  rw [mem_methodsOf]
  constructor
  · rintro ⟨s, hs, hmethod, howner⟩
    obtain ⟨b', hb', hid⟩ := h.isMethod_iff.1 ⟨s, hs, hmethod⟩
    obtain ⟨m, hm⟩ := Block.mem_methodIds.1 hid
    rw [h.methodSymbols b' hb' id m hm, Option.some.injEq] at hs
    rw [← hs] at howner
    exact h.block_eq_of_id hb hb' (Option.some.inj howner).symm ▸ hid
  · intro hid
    obtain ⟨m, hm⟩ := Block.mem_methodIds.1 hid
    exact ⟨_, h.methodSymbols b hb id m hm, rfl, rfl⟩

end Layout

end TestReach.SymbolTable
