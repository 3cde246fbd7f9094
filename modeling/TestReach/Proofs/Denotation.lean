import TestReach.Proofs.Hierarchy
import TestReach.Proofs.Loading
import TestReach.Proofs.Verdict

/-!
# What the numbers of a program stand for

Bases, interfaces, markers and calls are read off a solution by name (`Solution.IsBase`, …,
`Solution.Tested`). In a loaded program they are found by number. The two readings agree, because
the number of each type and of each method stands for what is declared, and steps between numbers
are steps between declarations in both directions (`Mirrors`).
-/

namespace TestReach

open Relation Text

/-! ## The solution by name -/

namespace Solution

variable (s : Solution)

/-- The type `U` is the base of `T`. -/
def IsBase (T U : TypeSite) : Prop :=
  U ∈ s.sites ∧ writtenName T.decl.base = some U.name

/-- The type `T` lists `U` as an interface. -/
def ListsInterface (T U : TypeSite) : Prop :=
  U ∈ s.sites ∧ ∃ name ∈ T.decl.interfaces, trim name = U.name

/-- The chain of bases of a type comes to a type that leads back to itself. -/
def CircularBases (T : TypeSite) : Prop :=
  ∃ U, ReflTransGen s.IsBase T U ∧ TransGen s.IsBase U U

/-- Steps to bases and interfaces lead from one type to another. -/
def CanBe : TypeSite → TypeSite → Prop :=
  ReflTransGen fun T U => s.IsBase T U ∨ s.ListsInterface T U

/-- A type marks tests when its chain of bases ends and it can be treated as a type of one of the
names. Blanks at the ends of a name do not count, and a blank name is none. -/
def IsMarker (names : List String) (T : TypeSite) : Prop :=
  ¬s.CircularBases T ∧ ∃ U, s.CanBe T U ∧ ∃ name ∈ names, trim name ≠ "" ∧ trim name = U.name

/-- A method carries an attribute that marks tests. -/
def SelfMarked (names : List String) (m : MethodSite) : Prop :=
  ∃ a ∈ m.decl.attributes, ∃ T ∈ s.sites, T.name = trim a ∧ s.IsMarker names T

/-- The method `caller`, of any project or from outside, has a call that refers to `m`. -/
def CalledBy (m caller : MethodSite) : Prop :=
  m ∈ s.methodSites ∧ caller ∈ s.methodSites ∧ ∃ call ∈ caller.decl.calls,
    ∃ ref, MethodRef.parse? call = some ref ∧ ref.typeName = m.typeName ∧ ref.names m.decl = true

/-- Calls lead from a self-marked method to `m`: any number of them, or at most one. -/
def Tested (names : List String) (mode : Propagation) (m : MethodSite) : Prop :=
  match mode with
  | .transitive => ∃ test, ReflTransGen s.CalledBy m test ∧ s.SelfMarked names test
  | .oneHop => s.SelfMarked names m ∨ ∃ caller, s.CalledBy m caller ∧ s.SelfMarked names caller

end Solution

/-! ## Steps on two sides -/

/-- From related places, each step of `R` is followed by a step of `S` to related places. -/
def Simulates {α β : Type} (D : α → β → Prop) (R : α → α → Prop) (S : β → β → Prop) : Prop :=
  ∀ ⦃a b a'⦄, D a b → R a a' → ∃ b', D a' b' ∧ S b b'

namespace Simulates

variable {α β : Type} {D : α → β → Prop} {R R' : α → α → Prop} {S S' : β → β → Prop}

theorem or (h : Simulates D R S) (h' : Simulates D R' S') :
    Simulates D (fun a a' => R a a' ∨ R' a a') (fun b b' => S b b' ∨ S' b b') := by
  rintro a b a' hD (hR | hR)
  · obtain ⟨b', hD', hS⟩ := h hD hR
    exact ⟨b', hD', .inl hS⟩
  · obtain ⟨b', hD', hS⟩ := h' hD hR
    exact ⟨b', hD', .inr hS⟩

theorem reflTransGen (h : Simulates D R S) :
    Simulates D (ReflTransGen R) (ReflTransGen S) := by
  intro a b a' hD hR
  induction hR with
  | refl => exact ⟨b, hD, .refl⟩
  | tail _ hstep ih =>
    obtain ⟨c, hDc, hS⟩ := ih
    obtain ⟨b', hD', hstep'⟩ := h hDc hstep
    exact ⟨b', hD', hS.tail hstep'⟩

theorem transGen (h : Simulates D R S) : Simulates D (TransGen R) (TransGen S) := by
  intro a b a' hD hR
  obtain ⟨c, hstep, hrest⟩ := TransGen.head'_iff.1 hR
  obtain ⟨c', hDc, hstep'⟩ := h hD hstep
  obtain ⟨b', hD', hrest'⟩ := h.reflTransGen hDc hrest
  exact ⟨b', hD', TransGen.head' hstep' hrest'⟩

/-- What steps lead to on one side they lead to on the other. -/
theorem exists_of_exists (h : Simulates D R S) {P : α → Prop} {Q : β → Prop}
    (hPQ : ∀ {a b}, D a b → P a → Q b) {a : α} {b : β} (hD : D a b) (hP : ∃ a', R a a' ∧ P a') :
    ∃ b', S b b' ∧ Q b' := by
  obtain ⟨a', hR, hP⟩ := hP
  obtain ⟨b', hD', hS⟩ := h hD hR
  exact ⟨b', hS, hPQ hD' hP⟩

end Simulates

/-- Each of two sides follows the steps of the other. -/
structure Mirrors {α β : Type} (D : α → β → Prop) (R : α → α → Prop) (S : β → β → Prop) : Prop where
  forth : Simulates D R S
  back : Simulates (fun b a => D a b) S R

namespace Mirrors

variable {α β : Type} {D : α → β → Prop} {R R' : α → α → Prop} {S S' : β → β → Prop}

theorem or (h : Mirrors D R S) (h' : Mirrors D R' S') :
    Mirrors D (fun a a' => R a a' ∨ R' a a') (fun b b' => S b b' ∨ S' b b') :=
  ⟨h.forth.or h'.forth, h.back.or h'.back⟩

theorem reflTransGen (h : Mirrors D R S) : Mirrors D (ReflTransGen R) (ReflTransGen S) :=
  ⟨h.forth.reflTransGen, h.back.reflTransGen⟩

theorem transGen (h : Mirrors D R S) : Mirrors D (TransGen R) (TransGen S) :=
  ⟨h.forth.transGen, h.back.transGen⟩

/-- What steps lead to on one side they lead to on the other. -/
theorem exists_iff (h : Mirrors D R S) {P : α → Prop} {Q : β → Prop}
    (hPQ : ∀ {a b}, D a b → (P a ↔ Q b)) {a : α} {b : β} (hD : D a b) :
    (∃ a', R a a' ∧ P a') ↔ ∃ b', S b b' ∧ Q b' :=
  ⟨h.forth.exists_of_exists (fun hD => (hPQ hD).1) hD,
    h.back.exists_of_exists (fun hD => (hPQ hD).2) hD⟩

/-- Where the place on one side is determined, the steps to it are those to what it stands for. -/
theorem rel_iff (h : Mirrors D R S) (hleft : ∀ {a a' b}, D a b → D a' b → a = a') {a a' : α} {b : β}
    (hD : D a b) : R a a' ↔ ∃ b', S b b' ∧ D a' b' := by
  constructor
  · intro hR
    obtain ⟨b', hD', hS⟩ := h.forth hD hR
    exact ⟨b', hS, hD'⟩
  · rintro ⟨b', hS, hD'⟩
    obtain ⟨a'', hD'', hR⟩ := h.back hD hS
    exact hleft hD' hD'' ▸ hR

/-- Where related places determine each other, circles are matched by circles. -/
theorem transGen_self_iff (h : Mirrors D R S) (hright : ∀ {a b b'}, D a b → D a b' → b = b')
    (hleft : ∀ {a a' b}, D a b → D a' b → a = a') {a : α} {b : β} (hD : D a b) :
    TransGen R a a ↔ TransGen S b b := by
  constructor
  · intro hR
    obtain ⟨b', hD', hS⟩ := h.transGen.forth hD hR
    exact hright hD' hD ▸ hS
  · intro hS
    obtain ⟨a', hD', hR⟩ := h.transGen.back hD hS
    exact hleft hD' hD ▸ hR

end Mirrors

/-! ## Numbers and declarations -/

namespace SymbolTable

variable {t : SymbolTable} {blocks : List Block} {paths : List String} {id : Nat}

/-- The number stands for the type. -/
def TypeAt (blocks : List Block) (id : Nat) (T : TypeSite) : Prop :=
  ∃ b ∈ blocks, b.id = id ∧ b.site = T

/-- The number stands for the method. -/
def MethodAt (blocks : List Block) (id : Nat) (m : MethodSite) : Prop :=
  ∃ b ∈ blocks, b.site.name = m.typeName ∧ b.HasMethod id m.decl

namespace Layout

theorem typeAt_unique (h : t.Layout blocks paths) {T U : TypeSite} (hT : TypeAt blocks id T)
    (hU : TypeAt blocks id U) : T = U := by
  obtain ⟨b, hb, rfl, rfl⟩ := hT
  obtain ⟨b', hb', hid, rfl⟩ := hU
  rw [h.block_eq_of_id hb hb' hid.symm]

theorem typeAt_number_unique (h : t.Layout blocks paths) {id' : Nat} {T : TypeSite}
    (hT : TypeAt blocks id T) (hT' : TypeAt blocks id' T) : id = id' := by
  obtain ⟨b, hb, rfl, rfl⟩ := hT
  obtain ⟨b', hb', rfl, hsite⟩ := hT'
  rw [h.block_eq_of_name hb hb' (congrArg TypeSite.name hsite.symm)]

theorem block_eq_of_method (h : t.Layout blocks paths) {b b' : Block} {m m' : MethodDecl}
    (hb : b ∈ blocks) (hb' : b' ∈ blocks) (hm : b.HasMethod id m) (hm' : b'.HasMethod id m') :
    b = b' := by
  have hs := h.methodSymbols b hb id m hm
  rw [h.methodSymbols b' hb' id m' hm', Option.some.injEq] at hs
  refine h.block_eq_of_id hb hb' ?_
  simpa [methodSymbol] using (congrArg Symbol.container hs).symm

theorem methodAt_lt (h : t.Layout blocks paths) {m : MethodSite} (hm : MethodAt blocks id m) :
    id < t.size := by
  obtain ⟨b, hb, -, hmethod⟩ := hm
  exact symbol?_eq_some_lt (h.methodSymbols b hb id _ hmethod)

end Layout

theorem mem_sites_iff {s : Solution} (hsites : blocks.map (·.site) = s.sites) {T : TypeSite} :
    T ∈ s.sites ↔ ∃ id, TypeAt blocks id T := by
  rw [← hsites, List.mem_map]
  constructor
  · rintro ⟨b, hb, rfl⟩
    exact ⟨b.id, b, hb, rfl, rfl⟩
  · rintro ⟨id, b, hb, rfl, rfl⟩
    exact ⟨b, hb, rfl⟩

theorem mem_methodSites_iff {s : Solution} (hsites : blocks.map (·.site) = s.sites)
    {m : MethodSite} : m ∈ s.methodSites ↔ ∃ id, MethodAt blocks id m := by
  rw [Solution.methodSites, ← hsites, List.mem_flatMap]
  constructor
  · rintro ⟨T, hT, hm⟩
    obtain ⟨b, hb, rfl⟩ := List.mem_map.1 hT
    obtain ⟨d, hd, rfl⟩ := List.mem_map.1 hm
    obtain ⟨j, hj⟩ := List.getElem?_of_mem hd
    exact ⟨b.id + 1 + j, b, hb, rfl, j, hj, rfl⟩
  · rintro ⟨id, b, hb, hname, j, hj, -⟩
    refine ⟨b.site, List.mem_map_of_mem hb, List.mem_map.2 ⟨m.decl, List.mem_of_getElem? hj, ?_⟩⟩
    rw [hname]

end SymbolTable

namespace Program

open SymbolTable

/-! ## The index of callers -/

theorem getElem?_indexCallers (n id : Nat) (calls : List (SymbolId × SymbolId)) :
    (indexCallers n calls)[id]? =
      if id < n then some ((calls.filter (·.2 == id)).map (·.1)) else none := by
  induction calls with
  | nil => simp [indexCallers, Array.getElem?_replicate]
  | cons call calls ih =>
    -- the index is filled from the last call on, so each call goes before those after it
    have hcons : indexCallers n (call :: calls) =
        (indexCallers n calls).modify call.2 (call.1 :: ·) := rfl
    rw [hcons, Array.getElem?_modify, ih]
    by_cases hid : call.2 = id
    · by_cases hn : id < n
      · simp [hid, hn]
      · simp [hn]
    · simp [hid]

theorem mem_indexCallers {n id x : Nat} {calls : List (SymbolId × SymbolId)} :
    x ∈ (indexCallers n calls).getD id [] ↔ id < n ∧ (x, id) ∈ calls := by
  rw [Array.getD_eq_getD_getElem?, getElem?_indexCallers]
  by_cases hn : id < n
  · simp [hn]
  · simp [hn]

theorem mem_allCalls {links : List Link} {x id : SymbolId} :
    (x, id) ∈ allCalls links ↔
      ∃ attributes callees, links[x]? = some (.method attributes callees) ∧ id ∈ callees := by
  simp only [allCalls, List.mem_flatMap]
  constructor
  · rintro ⟨⟨link, caller⟩, hlink, hcall⟩
    have hget := List.mem_zipIdx_iff_getElem?.1 hlink
    cases link with
    | space => simp [callsOf] at hcall
    | type base interfaces => simp [callsOf] at hcall
    | method attributes callees =>
      simp only [callsOf, List.mem_map, Prod.mk.injEq] at hcall
      obtain ⟨callee, hcallee, rfl, rfl⟩ := hcall
      exact ⟨attributes, callees, hget, (mem_firstNew.1 hcallee).1⟩
  · rintro ⟨attributes, callees, hget, hid⟩
    refine ⟨(.method attributes callees, x), List.mem_zipIdx_iff_getElem?.2 hget, ?_⟩
    simp only [callsOf, List.mem_map, Prod.mk.injEq]
    exact ⟨id, mem_firstNew.2 ⟨hid, by simp⟩, trivial, rfl⟩

/-! ## Programs for solutions -/

/-- The chain of bases of a type ends, and the type can be treated as one with a name of the set. -/
def IsMarker (p : Program) (markers : MarkerSet) (id : SymbolId) : Prop :=
  ¬p.Circular id ∧ ∃ x, p.Assignable id x ∧ markers.contains (p.table.qualifiedName x) = true

/-- A program with numbers for what a solution declares, and links and callers to match. -/
structure Represents (p : Program) (s : Solution) (blocks : List Block) : Prop where
  layout : p.table.Layout blocks s.spacePaths
  sites : blocks.map (·.site) = s.sites
  wellFormed : s.WellFormed
  size : p.links.size = p.size
  links : ∀ id symbol, p.table.symbol? id = some symbol →
    ∃ link, p.links[id]? = some link ∧ LinkFits p.table blocks link symbol.body
  callers : ∀ id x, x ∈ p.callers id ↔ id < p.size ∧ id ∈ p.callees x

theorem LoadedFrom.represents {s : Solution} {p : Program} {news : List (List Block)}
    {outside : List Block} {order : List Nat} (h : LoadedFrom s p news outside order)
    (hwf : s.WellFormed) : p.Represents s (news.flatten ++ outside) where
  layout := h.placed.layout
  sites := h.placed.sites_eq
  wellFormed := hwf
  size := by simpa [size] using h.links.length_eq.symm
  links := by
    intro id symbol hs
    have hid := symbol?_eq_some_lt hs
    have hlink : id < p.links.toList.length := by
      rw [← h.links.length_eq, List.length_range]
      exact hid
    have hfits := h.links.get (by simpa using hid) hlink
    refine ⟨p.links.toList.get ⟨id, hlink⟩, by simp, hfits symbol ?_⟩
    simpa using hs
  callers := by
    intro id x
    rw [Program.callers, h.callerIndex, mem_indexCallers, mem_allCalls, callees]
    refine and_congr_right fun _ => ?_
    rw [Array.getElem?_toList]
    constructor
    · rintro ⟨attributes, callees, hlink, hid⟩
      simpa [hlink] using hid
    · intro hid
      split at hid
      · exact ⟨_, _, ‹_›, hid⟩
      · exact absurd hid List.not_mem_nil

namespace Represents

variable {p : Program} {s : Solution} {blocks : List Block} {b : Block} {id x : Nat}

theorem base_iff (h : p.Represents s blocks) (hb : b ∈ blocks) :
    p.BaseOf b.id x ↔
      ∃ name, writtenName b.site.decl.base = some name ∧ NamesType blocks name x := by
  obtain ⟨c, hc⟩ := h.layout.typeSymbols b hb
  obtain ⟨link, hlink, base, interfaces, rfl, hbase, -⟩ := h.links b.id _ hc
  rw [BaseOf, Program.base, hlink]
  exact hbase x

theorem lists_iff (h : p.Represents s blocks) (hb : b ∈ blocks) :
    p.Lists b.id x ↔ ∃ name ∈ b.site.decl.interfaces, NamesType blocks (trim name) x := by
  obtain ⟨c, hc⟩ := h.layout.typeSymbols b hb
  obtain ⟨link, hlink, base, interfaces, rfl, -, hinterfaces⟩ := h.links b.id _ hc
  rw [Lists, Program.interfaces, hlink]
  constructor
  · intro hx
    obtain ⟨name, hname, hx⟩ := exists_left_of_mem hinterfaces hx
    exact ⟨name, hname, hx⟩
  · rintro ⟨name, hname, b', hb', hb'name, rfl⟩
    obtain ⟨y, hy, b'', hb'', hb''name, rfl⟩ := exists_right_of_mem hinterfaces hname
    rw [h.layout.block_eq_of_name hb' hb'' (hb'name.trans hb''name.symm)]
    exact hy

theorem attributes_eq (h : p.Represents s blocks) (hb : b ∈ blocks) {m : MethodDecl}
    (hm : b.HasMethod id m) : p.attributes id = m.attributes.map p.table.resolveAttribute := by
  obtain ⟨link, hlink, callees, rfl, -⟩ := h.links id _ (h.layout.methodSymbols b hb id m hm)
  rw [attributes, hlink]

theorem callees_iff (h : p.Represents s blocks) (hb : b ∈ blocks) {m : MethodDecl}
    (hm : b.HasMethod id m) : x ∈ p.callees id ↔ ∃ call ∈ m.calls, CallsTo blocks call x := by
  obtain ⟨link, hlink, callees, rfl, hcallees⟩ :=
    h.links id _ (h.layout.methodSymbols b hb id m hm)
  rw [Program.callees, hlink]
  constructor
  · intro hx
    obtain ⟨call, hcall, hx⟩ := exists_left_of_mem hcallees hx
    exact ⟨call, hcall, (hx x).2 rfl⟩
  · rintro ⟨call, hcall, hx⟩
    obtain ⟨y, hy, honly⟩ := exists_right_of_mem hcallees hcall
    rw [(honly x).1 hx]
    exact hy

/-- A link belongs to a type, to a method, or to a namespace. -/
theorem link_cases (h : p.Represents s blocks) {link : Link} (hlink : p.links[id]? = some link) :
    (∃ b ∈ blocks, b.id = id ∧ ∃ base interfaces, link = .type base interfaces) ∨
      (∃ b ∈ blocks, ∃ m, b.HasMethod id m ∧
        ∃ attributes callees, link = .method attributes callees) ∨
      link = .space := by
  have hid := (Array.getElem?_eq_some_iff.1 hlink).1
  rw [h.size] at hid
  obtain ⟨symbol, hs⟩ := exists_symbol? hid
  obtain ⟨link', hlink', hfits⟩ := h.links id symbol hs
  obtain rfl : link = link' := Option.some.inj (hlink.symm.trans hlink')
  rcases h.layout.symbol_cases hs with ⟨b, hb, rfl, c, rfl⟩ | ⟨b, hb, m, hm, rfl⟩ | hbody | hbody
  · obtain ⟨base, interfaces, rfl, -⟩ := hfits
    exact .inl ⟨b, hb, rfl, base, interfaces, rfl⟩
  · obtain ⟨callees, rfl, -⟩ := hfits
    exact .inr (.inl ⟨b, hb, m, hm, _, callees, rfl⟩)
  · rw [hbody] at hfits
    exact .inr (.inr hfits)
  · rw [hbody] at hfits
    exact .inr (.inr hfits)

theorem typeAt_of_lists (h : p.Represents s blocks) (hx : p.Lists id x) :
    ∃ b ∈ blocks, b.id = id := by
  unfold Lists Program.interfaces at hx
  cases hlink : p.links[id]? with
  | none => simp [hlink] at hx
  | some link =>
    rcases h.link_cases hlink with ⟨b, hb, hid, -⟩ | ⟨_, _, _, _, _, _, rfl⟩ | rfl
    · exact ⟨b, hb, hid⟩
    · simp [hlink] at hx
    · simp [hlink] at hx

theorem methodAt_of_callees (h : p.Represents s blocks) (hx : x ∈ p.callees id) :
    ∃ b ∈ blocks, ∃ m, b.HasMethod id m := by
  unfold Program.callees at hx
  cases hlink : p.links[id]? with
  | none => simp [hlink] at hx
  | some link =>
    rcases h.link_cases hlink with ⟨_, _, _, _, _, rfl⟩ | ⟨b, hb, m, hm, -⟩ | rfl
    · simp [hlink] at hx
    · exact ⟨b, hb, m, hm⟩
    · simp [hlink] at hx

theorem callee_lt (h : p.Represents s blocks) (hx : x ∈ p.callees id) : x < p.size := by
  obtain ⟨b, hb, m, hm⟩ := h.methodAt_of_callees hx
  obtain ⟨call, -, ref, -, b', hb', -, m', hm', -⟩ := (h.callees_iff hb hm).1 hx
  exact h.layout.methodAt_lt (m := ⟨b'.site.name, m'⟩) ⟨b', hb', rfl, hm'⟩

/-! ## Types -/

theorem mirrors_base (h : p.Represents s blocks) :
    Mirrors (TypeAt blocks) p.BaseOf s.IsBase where
  forth := by
    rintro id T x ⟨b, hb, rfl, rfl⟩ hbase
    obtain ⟨name, hname, b', hb', rfl, rfl⟩ := (h.base_iff hb).1 hbase
    refine ⟨b'.site, ⟨b', hb', rfl, rfl⟩, ?_, hname⟩
    exact (mem_sites_iff h.sites).2 ⟨b'.id, b', hb', rfl, rfl⟩
  back := by
    rintro T id U ⟨b, hb, rfl, rfl⟩ ⟨hU, hname⟩
    obtain ⟨x, b', hb', rfl, rfl⟩ := (mem_sites_iff h.sites).1 hU
    exact ⟨b'.id, ⟨b', hb', rfl, rfl⟩, (h.base_iff hb).2 ⟨_, hname, b', hb', rfl, rfl⟩⟩

theorem mirrors_lists (h : p.Represents s blocks) :
    Mirrors (TypeAt blocks) p.Lists s.ListsInterface where
  forth := by
    rintro id T x ⟨b, hb, rfl, rfl⟩ hlists
    obtain ⟨name, hname, b', hb', hb'name, rfl⟩ := (h.lists_iff hb).1 hlists
    refine ⟨b'.site, ⟨b', hb', rfl, rfl⟩, ?_, name, hname, hb'name.symm⟩
    exact (mem_sites_iff h.sites).2 ⟨b'.id, b', hb', rfl, rfl⟩
  back := by
    rintro T id U ⟨b, hb, rfl, rfl⟩ ⟨hU, name, hname, hU'⟩
    obtain ⟨x, b', hb', rfl, rfl⟩ := (mem_sites_iff h.sites).1 hU
    refine ⟨b'.id, ⟨b', hb', rfl, rfl⟩, (h.lists_iff hb).2 ?_⟩
    exact ⟨name, hname, b', hb', hU'.symm, rfl⟩

theorem base_eq_none_of_lists (h : p.Represents s blocks) (hx : p.Lists id x) :
    p.base x = none := by
  obtain ⟨b, hb, rfl⟩ := h.typeAt_of_lists hx
  obtain ⟨name, hname, b', hb', hb'name, rfl⟩ := (h.lists_iff hb).1 hx
  have hmem : ∀ {b}, b ∈ blocks → b.site ∈ s.sites := fun hb => h.sites ▸ List.mem_map_of_mem hb
  -- what a type lists is an interface, and an interface has no base
  obtain ⟨U, hU, hUname, hkind⟩ := h.wellFormed.interfaces b.site (hmem hb) name hname
  obtain rfl : U = b'.site :=
    List.inj_on_of_nodup_map h.wellFormed.distinct hU (hmem hb') (hUname.trans hb'name.symm)
  cases hbase : p.base b'.id with
  | none => rfl
  | some y =>
    obtain ⟨base, hbase', -⟩ := (h.base_iff hb').1 hbase
    exact absurd hkind (h.wellFormed.bases b'.site (hmem hb') base hbase').1

theorem circular_iff (h : p.Represents s blocks) {T : TypeSite} (hT : TypeAt blocks id T) :
    p.Circular id ↔ s.CircularBases T :=
  h.mirrors_base.reflTransGen.exists_iff
    (h.mirrors_base.transGen_self_iff h.layout.typeAt_unique h.layout.typeAt_number_unique) hT

theorem closure_exact (h : p.Represents s blocks) (id : SymbolId) :
    Meets (p.closure id) (¬p.Circular id) fun members => ∀ x, x ∈ members ↔ p.Assignable id x :=
  closure_meets h.size (fun _ _ => h.base_eq_none_of_lists) id

theorem isMarkerType_eq (h : p.Represents s blocks) {markers : MarkerSet} :
    p.isMarkerType markers id = true ↔ p.IsMarker markers id := by
  unfold isMarkerType IsMarker
  rcases (h.closure_exact id).cases with ⟨e, he, hcircular⟩ | ⟨members, hok, hends, hmembers⟩
  · rw [he]
    exact iff_of_false Bool.false_ne_true fun hmarker => hcircular hmarker.1
  · rw [hok]
    simp only [List.any_eq_true, hmembers, hends, not_false_eq_true, true_and]

theorem isMarkerType_iff (h : p.Represents s blocks) (names : List String) {T : TypeSite}
    (hT : TypeAt blocks id T) :
    p.isMarkerType (.ofNames names) id = true ↔ s.IsMarker names T := by
  have hmirrors : Mirrors (TypeAt blocks) p.Assignable s.CanBe :=
    (h.mirrors_base.or h.mirrors_lists).reflTransGen
  have hname : ∀ {x U}, TypeAt blocks x U →
      ((MarkerSet.ofNames names).contains (p.table.qualifiedName x) = true ↔
        ∃ name ∈ names, trim name ≠ "" ∧ trim name = U.name) := by
    rintro x U ⟨b, hb, rfl, rfl⟩
    rw [h.layout.typeNames b hb, MarkerSet.contains_iff_mem, MarkerSet.names_ofNames_eq,
      mem_firstNew, List.mem_filter, List.mem_map]
    simp only [List.not_mem_nil, not_false_eq_true, and_true, Bool.not_eq_true',
      Bool.eq_false_iff, ne_eq, String.isEmpty_iff]
    constructor
    · rintro ⟨⟨name, hname, heq⟩, hne⟩
      exact ⟨name, hname, heq ▸ hne, heq⟩
    · rintro ⟨name, hname, hne, heq⟩
      exact ⟨⟨name, hname, heq⟩, heq ▸ hne⟩
  rw [h.isMarkerType_eq, Program.IsMarker, h.circular_iff hT, Solution.IsMarker]
  exact and_congr_right fun _ => hmirrors.exists_iff hname hT

/-! ## Methods -/

theorem isTest_iff (h : p.Represents s blocks) (names : List String) {m : MethodSite}
    (hm : MethodAt blocks id m) :
    p.isTest (.ofNames names) id = true ↔ s.SelfMarked names m := by
  obtain ⟨b, hb, -, hmethod⟩ := hm
  rw [Program.isTest, h.attributes_eq hb hmethod, List.any_map, List.any_eq_true]
  refine exists_congr fun a => and_congr_right fun _ => ?_
  rw [Function.comp_apply, resolveAttribute]
  cases hfind : p.table.findType (trim a) with
  | none =>
    refine iff_of_false Bool.false_ne_true ?_
    rintro ⟨T, hT, hname, -⟩
    obtain ⟨x, b', hb', rfl, rfl⟩ := (mem_sites_iff h.sites).1 hT
    rw [h.layout.findType_eq_some_iff.2 ⟨b', hb', hname, rfl⟩] at hfind
    exact absurd hfind (by simp)
  | some x =>
    obtain ⟨b', hb', hname, rfl⟩ := h.layout.findType_eq_some_iff.1 hfind
    have hT : TypeAt blocks b'.id b'.site := ⟨b', hb', rfl, rfl⟩
    rw [marksTest, h.isMarkerType_iff names hT]
    constructor
    · exact fun hmarker => ⟨b'.site, (mem_sites_iff h.sites).2 ⟨_, hT⟩, hname, hmarker⟩
    · rintro ⟨T, hT', hTname, hmarker⟩
      obtain ⟨y, b'', hb'', rfl, rfl⟩ := (mem_sites_iff h.sites).1 hT'
      rw [h.layout.block_eq_of_name hb' hb'' (hname.trans hTname.symm)]
      exact hmarker

theorem mirrors_calls (h : p.Represents s blocks) :
    Mirrors (MethodAt blocks) (TestReach.CalledBy p.callers) s.CalledBy where
  forth := by
    rintro id m x hm hx
    obtain ⟨-, hcallee⟩ := (h.callers id x).1 hx
    obtain ⟨b', hb', d, hd⟩ := h.methodAt_of_callees hcallee
    obtain ⟨call, hcall, ref, href, b'', hb'', hb''name, d', hd', hnames⟩ :=
      (h.callees_iff hb' hd).1 hcallee
    have hcaller : MethodAt blocks x ⟨b'.site.name, d⟩ := ⟨b', hb', rfl, hd⟩
    refine ⟨⟨b'.site.name, d⟩, hcaller, (mem_methodSites_iff h.sites).2 ⟨id, hm⟩,
      (mem_methodSites_iff h.sites).2 ⟨x, hcaller⟩, call, hcall, ref, href, ?_⟩
    obtain ⟨b, hb, hname, hmethod⟩ := hm
    obtain rfl := h.layout.block_eq_of_method hb hb'' hmethod hd'
    exact ⟨hb''name.symm.trans hname, hmethod.unique hd' ▸ hnames⟩
  back := by
    rintro m id caller hm ⟨-, hcaller, call, hcall, ref, href, htype, hnames⟩
    obtain ⟨x, hx⟩ := (mem_methodSites_iff h.sites).1 hcaller
    have hlt : id < p.size := h.layout.methodAt_lt hm
    refine ⟨x, hx, (h.callers id x).2 ⟨hlt, ?_⟩⟩
    obtain ⟨b', hb', -, hd⟩ := hx
    obtain ⟨b, hb, hname, hmethod⟩ := hm
    refine (h.callees_iff hb' hd).2 ⟨call, hcall, ref, href, b, hb, ?_, m.decl, hmethod, hnames⟩
    exact hname.trans htype.symm

/-- A number is tested when the method that it stands for is. -/
theorem tested_iff (h : p.Represents s blocks) (names : List String) (mode : Propagation)
    {m : MethodSite} (hm : MethodAt blocks id m) :
    Criteria.Tested ⟨p, .ofNames names, mode⟩ p.callers id ↔ s.Tested names mode m := by
  unfold Criteria.Tested Solution.Tested
  cases mode with
  | transitive => exact h.mirrors_calls.reflTransGen.exists_iff (h.isTest_iff names) hm
  | oneHop =>
    exact or_congr (h.isTest_iff names hm) (h.mirrors_calls.exists_iff (h.isTest_iff names) hm)

end Represents

end Program

end TestReach
