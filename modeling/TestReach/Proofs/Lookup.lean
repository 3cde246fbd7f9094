import TestReach.Proofs.Loading
import Mathlib.Logic.Relation

/-!
# Names and lookups

Types and namespaces are found by name through two indexes, which are filled while the table grows,
and a name is computed later by going up the containers of a symbol. In a loaded program the two are
inverse to each other (`Program.load_namesExact`): looking up a name gives the one symbol of its
sort that has the name, and nothing for any other name.
-/

namespace TestReach

open Relation

namespace SymbolTable

variable {t : SymbolTable} {id : Nat} {blocks : List Block} {paths : List String}

/-- The step from a symbol to its container. -/
def LiesIn (t : SymbolTable) (id c : SymbolId) : Prop :=
  ∃ s, t.symbol? id = some s ∧ s.container = some c

/-- The number is that of a type. -/
def HasType (t : SymbolTable) (id : SymbolId) : Prop :=
  ∃ s, t.symbol? id = some s ∧ s.isType = true

/-- The number is that of a namespace other than the global one. -/
def HasSpace (t : SymbolTable) (id : SymbolId) : Prop :=
  ∃ s, t.symbol? id = some s ∧ s.body = .space

/-- Names and numbers of types and namespaces determine each other. -/
structure NamesExact (t : SymbolTable) : Prop where
  /-- Number 0 and no other is that of the global namespace. -/
  root : ∀ id, (∃ s, t.symbol? id = some s ∧ s.isRoot = true) ↔ id = 0
  /-- Every other symbol is in one with a smaller number. -/
  inner : ∀ id s, t.symbol? id = some s → id ≠ 0 → ∃ c, s.container = some c ∧ c < id
  /-- Containers lead from every symbol to the global namespace. -/
  chain : ∀ id, id < t.size → ReflTransGen t.LiesIn id 0
  findType : ∀ name id, t.findType name = some id ↔ t.HasType id ∧ t.qualifiedName id = name
  findSpace : ∀ name id, name ≠ "" →
    (t.findSpace name = some id ↔ t.HasSpace id ∧ t.qualifiedName id = name)
  /-- No two types have the same name. -/
  types : ∀ id id', t.HasType id → t.HasType id' → t.qualifiedName id = t.qualifiedName id' →
    id = id'
  /-- No two namespaces have the same name, and none has that of the global one. -/
  spaces : ∀ id id', id = 0 ∨ t.HasSpace id → id' = 0 ∨ t.HasSpace id' →
    t.qualifiedName id = t.qualifiedName id' → id = id'

/-! ## Containers -/

theorem Nested.chain (h : t.Nested) (hid : id < t.size) : ReflTransGen t.LiesIn id 0 := by
  -- containers have smaller numbers, so the chain cannot go on for ever
  induction id using Nat.strongRecOn with
  | ind id ih =>
    obtain ⟨s, hs⟩ := exists_symbol? hid
    by_cases h0 : id = 0
    · exact h0 ▸ .refl
    · obtain ⟨-, c, hc, hlt⟩ := h.inner id s hs h0
      exact .head ⟨s, hs, hc⟩ (ih c hlt (Nat.lt_trans hlt hid))

theorem Nested.isRoot_iff (h : t.Nested) :
    (∃ s, t.symbol? id = some s ∧ s.isRoot = true) ↔ id = 0 := by
  constructor
  · rintro ⟨s, hs, hroot⟩
    by_contra h0
    rw [(h.inner id s hs h0).1] at hroot
    exact Bool.false_ne_true hroot
  · rintro rfl
    exact ⟨_, h.root, rfl⟩

/-- The global namespace has the empty name. -/
theorem Nested.qualifiedName_root (h : t.Nested) : t.qualifiedName 0 = "" := by
  rw [qualifiedName, h.root]
  rfl

/-! ## Indexes -/

namespace Layout

/-- The types of a table are those of its blocks. -/
theorem hasType_iff (h : t.Layout blocks paths) : t.HasType id ↔ ∃ b ∈ blocks, b.id = id := by
  constructor
  · rintro ⟨s, hs, htype⟩
    rcases h.symbol_cases hs with ⟨b, hb, hid, -⟩ | ⟨b, hb, m, hm, rfl⟩ | hbody | hbody
    · exact ⟨b, hb, hid⟩
    · exact absurd htype (by simp [Symbol.isType, methodSymbol])
    · exact absurd htype (by simp [Symbol.isType, hbody])
    · exact absurd htype (by simp [Symbol.isType, hbody])
  · rintro ⟨b, hb, rfl⟩
    obtain ⟨c, hc⟩ := h.typeSymbols b hb
    exact ⟨_, hc, rfl⟩

/-- The namespaces of a table are those of its index. -/
theorem hasSpace_iff (h : t.Layout blocks paths) :
    t.HasSpace id ↔ ∃ path, (path, id) ∈ t.spaces := by
  constructor
  · rintro ⟨s, hs, hbody⟩
    have hsame : ∀ {o}, t.symbol? id = some o → o.body = .space := fun ho =>
      Option.some.inj (hs.symm.trans ho) ▸ hbody
    rcases h.complete id s hs with rfl | hpath | ⟨b, hb, rfl | hid⟩
    · exact absurd (hsame h.nested.root) (by simp)
    · exact hpath
    · obtain ⟨c, hc⟩ := h.typeSymbols b hb
      exact absurd (hsame hc) (by simp [typeSymbol])
    · obtain ⟨m, hm⟩ := Block.mem_methodIds.1 hid
      exact absurd (hsame (h.methodSymbols b hb id m hm)) (by simp [methodSymbol])
  · rintro ⟨path, hpath⟩
    exact (h.spaces path id hpath).symbol

theorem findType_iff (h : t.Layout blocks paths) {name : String} :
    t.findType name = some id ↔ t.HasType id ∧ t.qualifiedName id = name := by
  rw [h.findType_eq_some_iff, h.hasType_iff]
  constructor
  · rintro ⟨b, hb, rfl, rfl⟩
    exact ⟨⟨b, hb, rfl⟩, h.typeNames b hb⟩
  · rintro ⟨⟨b, hb, rfl⟩, rfl⟩
    exact ⟨b, hb, (h.typeNames b hb).symm, rfl⟩

theorem lookup_space_iff (h : t.Layout blocks paths) {name : String} :
    t.spaces.lookup name = some id ↔ t.HasSpace id ∧ t.qualifiedName id = name := by
  rw [lookup_eq_some_iff_mem h.spaceKeys, h.hasSpace_iff]
  constructor
  · exact fun hmem => ⟨⟨name, hmem⟩, (h.spaces name id hmem).name⟩
  · rintro ⟨⟨path, hmem⟩, rfl⟩
    rw [(h.spaces path id hmem).name]
    exact hmem

/-- Both indexes are exact, provided that no namespace has the empty path. -/
theorem namesExact (h : t.Layout blocks paths) (hpaths : ∀ path ∈ paths, path ≠ "") :
    t.NamesExact := by
  have hspace : ∀ {id}, t.HasSpace id → t.spaces.lookup (t.qualifiedName id) = some id :=
    fun hid => h.lookup_space_iff.2 ⟨hid, rfl⟩
  have hroot := h.nested.qualifiedName_root
  -- every namespace but the global one has its path
  have hname : ∀ {id}, t.HasSpace id → t.qualifiedName id ≠ "" := by
    intro id hid
    obtain ⟨path, hmem⟩ := h.hasSpace_iff.1 hid
    rw [(h.spaces path id hmem).name]
    exact hpaths path ((h.spaceIndex path).1 ⟨id, hmem⟩)
  constructor
  · exact fun id => h.nested.isRoot_iff
  · exact fun id s hs hid => (h.nested.inner id s hs hid).2
  · exact fun id hid => h.nested.chain hid
  · exact fun name id => h.findType_iff
  · intro name id hne
    have hnonempty : name.isEmpty = false := by simpa using hne
    rw [findSpace, hnonempty]
    exact h.lookup_space_iff
  · intro id id' hid hid' heq
    have hfind := h.findType_iff.2 ⟨hid, heq⟩
    rw [h.findType_iff.2 ⟨hid', rfl⟩] at hfind
    exact (Option.some.inj hfind).symm
  · rintro id id' (rfl | hid) (rfl | hid') heq
    · rfl
    · exact absurd (heq.symm.trans hroot) (hname hid')
    · exact absurd (heq.trans hroot) (hname hid)
    · have hfind := hspace hid
      rw [heq, hspace hid'] at hfind
      exact (Option.some.inj hfind).symm

end Layout

end SymbolTable

/-! ## Loaded programs -/

theorem TypeDecl.ne_empty_of_mem_spacePaths {d : TypeDecl} {q : String} (h : q ∈ d.spacePaths) :
    q ≠ "" := by
  obtain ⟨pre, hpre, hne, rfl⟩ := SymbolTable.mem_pathsFrom.1 h
  cases pre with
  | nil => exact absurd rfl hne
  | cons segment rest =>
    have hsegment : (SymbolTable.extendPath "" segment).isEmpty = false :=
      TypeDecl.isEmpty_of_mem_spacePath (hpre.subset List.mem_cons_self)
    have hempty := (SymbolTable.foldl_extendPath hsegment rest).2.2
    simpa using hempty

namespace Program

/-- In a loaded program number 0 is the global namespace and containers lead to it from everywhere;
and a lookup by name gives exactly the type, or the namespace, that has the name. -/
theorem load_namesExact {s : Solution} {p : Program} (hload : load s = .ok p) :
    p.table.NamesExact := by
  obtain ⟨-, news, outside, order, hloaded⟩ := (load_meets s).of_ok hload
  refine hloaded.placed.layout.namesExact fun path hpath => ?_
  obtain ⟨d, -, hd⟩ := List.mem_flatMap.1 hpath
  exact TypeDecl.ne_empty_of_mem_spacePaths hd

/-- A namespace with blank and padded segments, a type in it that is shown under another name, types
nested in that, and a type with a blank name. -/
def nestedNames : Solution where
  projects :=
    [{ name := "Core"
       types := [{ name := " Outer "
                   spaceName := some " App . . Models."
                   displayName := some "Outer<T>"
                   methods := [{ name := "run" }]
                   nested := [{ name := "Inner", nested := [{ name := "Deep" }] }] },
                 { name := "  " }] }]

theorem load_namesExact_nestedNames :
    ∃ p, load nestedNames = .ok p ∧ p.table.NamesExact ∧
      p.table.findType "App.Models.Outer<T>+Inner+Deep" = some 6 ∧
      p.table.findType "" = some 7 ∧ p.table.findSpace "App.Models" = some 2 := by
  have hfound : (load nestedNames).toOption.map (fun p =>
      (p.table.findType "App.Models.Outer<T>+Inner+Deep", p.table.findType "",
        p.table.findSpace "App.Models")) = some (some 6, some 7, some 2) := by decide +kernel
  obtain ⟨p, hload, hfound⟩ := exists_ok_of_map hfound
  simp only [Prod.mk.injEq] at hfound
  exact ⟨p, hload, load_namesExact hload, hfound⟩

end Program

end TestReach
