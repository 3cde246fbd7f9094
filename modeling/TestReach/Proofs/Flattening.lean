import TestReach.Proofs.Closure
import Mathlib.Data.List.Chain

/-!
# All interfaces of a type, by declaration

The interfaces of a type are gathered from the lists of all types on its chain of bases and from the
lists of the interfaces found. In a loaded program they are what the declarations say
(`Program.load_interfacesExact`), whatever circles the bases and the interfaces run in: the chain is
followed until it ends or comes back (`ChainFrom`), and each interface that declared steps lead to
from it is found once, apart from the type itself.

The type itself is passed over wherever it comes up. Nothing is lost by that, because what it lists
was put on the stack with its chain.
-/

namespace TestReach

open Relation Text

/-! ## Chains -/

/-- The chain of steps from `a`, followed until there is no further step or the next one leads back
to the chain. -/
structure ChainFrom {α : Type} (R : α → α → Prop) (a : α) (chain : List α) : Prop where
  head : chain.head? = some a
  steps : chain.IsChain R
  nodup : chain.Nodup
  stops : ∀ last ∈ chain.getLast?, ∀ b, R last b → b ∈ chain

namespace ChainFrom

variable {α β : Type} {R : α → α → Prop} {S : β → β → Prop} {a : α} {chain : List α}

/-- What holds of the first place and is kept by every step holds of the whole chain. -/
theorem forall_mem (h : ChainFrom R a chain) {P : α → Prop} (ha : P a)
    (hstep : ∀ ⦃x y⦄, R x y → P x → P y) : ∀ x ∈ chain, P x := by
  refine List.IsChain.induction P chain h.steps hstep fun hne => ?_
  have hhead := h.head
  rw [List.head?_eq_some_head hne, Option.some.injEq] at hhead
  rwa [hhead]

/-- Where there is one step from each place at most, no step leads out of the chain. -/
theorem mem_of_step (h : ChainFrom R a chain) (hR : Relator.RightUnique R) {x y : α}
    (hx : x ∈ chain) (hstep : R x y) : y ∈ chain := by
  obtain ⟨before, after, rfl⟩ := List.append_of_mem hx
  cases after with
  | nil => exact h.stops x (by simp) y hstep
  | cons next after =>
    have hnext : R x next := (List.isChain_append_cons_cons.1 h.steps).2.1
    rw [hR hstep hnext]
    simp

/-- The chain has all places that steps lead to. -/
theorem mem_iff (h : ChainFrom R a chain) (hR : Relator.RightUnique R) {x : α} :
    x ∈ chain ↔ ReflTransGen R a x := by
  constructor
  · exact h.forall_mem .refl (fun _ _ hstep hpath => hpath.tail hstep) x
  · intro hpath
    induction hpath with
    | refl => exact List.mem_of_head? h.head
    | tail _ hstep ih => exact h.mem_of_step hR ih hstep

/-- A chain on one side is matched by a chain on the other. -/
theorem mirrored {D : α → β → Prop} (hm : Mirrors D R S)
    (hright : ∀ {x y y'}, D x y → D x y' → y = y') (hleft : ∀ {x x' y}, D x y → D x' y → x = x')
    (h : ChainFrom R a chain) {b : β} (hb : D a b) :
    ∃ chain', ChainFrom S b chain' ∧ (∀ x ∈ chain, ∃ y ∈ chain', D x y) ∧
      ∀ y ∈ chain', ∃ x ∈ chain, D x y := by
  -- what a place on the chain is related to
  have hvalue : ∀ x, ∃ y, ∀ y', D x y' → y' = y := by
    intro x
    by_cases hx : ∃ y, D x y
    · obtain ⟨y, hy⟩ := hx
      exact ⟨y, fun y' hy' => hright hy' hy⟩
    · exact ⟨b, fun y' hy' => absurd ⟨y', hy'⟩ hx⟩
  choose f hf using hvalue
  have hD : ∀ x ∈ chain, D x (f x) := by
    refine h.forall_mem (P := fun x => D x (f x)) (hf a b hb ▸ hb) fun x y hstep hx => ?_
    obtain ⟨y', hy', -⟩ := hm.forth hx hstep
    exact hf y y' hy' ▸ hy'
  refine ⟨chain.map f, ⟨?_, ?_, ?_, ?_⟩, fun x hx => ⟨f x, List.mem_map_of_mem hx, hD x hx⟩, ?_⟩
  · rw [List.head?_map, h.head, Option.map_some, ← hf a b hb]
  · rw [List.isChain_map]
    refine h.steps.imp_of_mem_imp fun x y hx _ hstep => ?_
    obtain ⟨y', hy', hstep'⟩ := hm.forth (hD x hx) hstep
    exact hf y y' hy' ▸ hstep'
  · refine List.Nodup.map_on (fun x hx y hy heq => ?_) h.nodup
    exact hleft (hD x hx) (heq ▸ hD y hy)
  · intro last hlast y hstep
    rw [List.getLast?_map] at hlast
    obtain ⟨x, hx, rfl⟩ := Option.map_eq_some_iff.1 hlast
    obtain ⟨x', hx', hstep'⟩ := hm.back (hD x (List.mem_of_getLast? hx)) hstep
    exact List.mem_map.2 ⟨x', h.stops x hx x' hstep', (hf x' y hx').symm⟩
  · intro y hy
    obtain ⟨x, hx, rfl⟩ := List.mem_map.1 hy
    exact ⟨x, hx, hD x hx⟩

end ChainFrom

namespace Program

open SymbolTable

variable {p : Program} {start id x : SymbolId}

theorem baseOf_rightUnique (p : Program) : Relator.RightUnique p.BaseOf :=
  fun _ _ _ h h' => Option.some.inj (h.symm.trans h')

/-! ## The walk up follows the chain -/

/-- The types that a walk up has passed, with the next one, are steps from base to base. -/
structure Linked (p : Program) (start : SymbolId) (c : Climb) : Prop where
  steps : (c.next.toList ++ c.passed).IsChain fun upper lower => p.BaseOf lower upper
  start : (c.next.toList ++ c.passed).getLast? = some start
  nodup : c.passed.Nodup
  ended : c.next = none → ∀ top ∈ c.passed.head?, p.base top = none

theorem linked_new (p : Program) (start : SymbolId) : p.Linked start ⟨[], some start⟩ :=
  ⟨by simp, by simp, List.nodup_nil, by simp⟩

theorem Linked.turn {c c' : Climb} (hturn : p.climb? c = some c') (h : p.Linked start c) :
    p.Linked start c' := by
  obtain ⟨id, hnext, hid, rfl⟩ := climb?_eq_some hturn
  have hsteps := h.steps
  have hstart := h.start
  rw [hnext] at hsteps hstart
  refine ⟨?_, ?_, List.nodup_cons.2 ⟨hid, h.nodup⟩, ?_⟩
  · cases hbase : p.base id with
    | none => exact hsteps
    | some base => exact List.isChain_cons_cons.2 ⟨hbase, hsteps⟩
  · cases p.base id with
    | none => exact hstart
    | some base => simpa using hstart
  · rintro hbase _ ⟨⟩
    exact hbase

/-- Where the walk up is over, what it has passed is the chain. -/
theorem Linked.chainFrom {c : Climb} (h : p.Linked start c) (hover : p.climb? c = none) :
    ChainFrom p.BaseOf start c.passed.reverse := by
  have hpassed : c.passed.IsChain fun upper lower => p.BaseOf lower upper :=
    h.steps.right_of_append
  refine ⟨?_, List.isChain_reverse.2 hpassed, List.nodup_reverse.2 h.nodup, ?_⟩
  · rw [List.head?_reverse, ← h.start]
    cases hnext : c.next with
    | none => rfl
    | some id =>
      have hne : c.passed ≠ [] := List.ne_nil_of_mem (climb?_eq_none hover id hnext)
      rw [List.getLast?_append_of_ne_nil _ hne]
  · intro top htop base hbase
    rw [List.getLast?_reverse] at htop
    rw [List.mem_reverse]
    cases hnext : c.next with
    | none =>
      rw [BaseOf, h.ended hnext top htop] at hbase
      exact absurd hbase (by simp)
    | some id =>
      have hsteps := h.steps
      rw [hnext] at hsteps
      have hid : p.BaseOf top id := hsteps.rel_head? htop
      rw [p.baseOf_rightUnique hbase hid]
      exact climb?_eq_none hover id hnext

theorem baseChain_chainFrom (hsize : p.links.size = p.size) (id : SymbolId) :
    ChainFrom p.BaseOf id (p.baseChain id).types := by
  obtain ⟨top, hends, hchain⟩ := baseChain_ends hsize id
  have htop : p.Linked id top := ends_keep (fun _ _ => Linked.turn) hends (linked_new p id)
  rw [hchain]
  exact htop.chainFrom (StateTransition.mem_eval.1 hends).2

/-! ## What the walk through interfaces finds -/

theorem nodup_allInterfaces (hsize : p.links.size = p.size) (id : SymbolId) :
    (p.allInterfaces id).Nodup :=
  (allInterfaces_collecting hsize id).nodup

theorem not_mem_allInterfaces (hsize : p.links.size = p.size) (id : SymbolId) :
    id ∉ p.allInterfaces id := by
  have hturn : ∀ g g' : Gathering, p.gather? id g = some g' → id ∉ g.found → id ∉ g'.found := by
    intro g g' h hg
    obtain ⟨i, stack, -, ⟨-, rfl⟩ | ⟨⟨hi, -⟩, rfl⟩⟩ := gather?_eq_some h
    · exact hg
    · simpa [hg] using Ne.symm hi
  exact ends_keep hturn (allInterfaces_ends hsize id) List.not_mem_nil

theorem mem_allInterfaces (hsize : p.links.size = p.size) {id : SymbolId} :
    x ∈ p.allInterfaces id ↔ x ≠ id ∧ ∃ y ∈ (p.baseChain id).types, TransGen p.Lists y x := by
  by_cases hx : x = id
  · subst hx
    simp [not_mem_allInterfaces hsize x]
  · rw [mem_allInterfaces_iff hsize hx]
    simp only [TransGen.head'_iff, ne_eq, hx, not_false_eq_true, true_and]

/-! ## Flattening type after type -/

/-- A symbol while interfaces are flattened: what it refers to, and the interfaces noted for it. -/
structure Entry where
  link : Link
  noted : List SymbolId

/-- Flatten the interfaces of one type: they are read off the links as they stand, and noted in the
entry of the type. -/
def flattenOne (p : Program) (entries : Array Entry) (id : SymbolId) : Array Entry :=
  entries.modify id fun e =>
    { e with noted := ({ p with links := entries.map (·.link) } : Program).allInterfaces id }

/-- Flatten the interfaces of types one after the other. -/
def flattenAll (p : Program) (order : List SymbolId) : Array Entry :=
  order.foldl p.flattenOne (p.links.map fun link => ⟨link, []⟩)

variable {entries : Array Entry}

theorem links_flattenOne (p : Program) (entries : Array Entry) (id : SymbolId) :
    (p.flattenOne entries id).map (·.link) = entries.map (·.link) := by
  refine Array.ext_getElem? fun i => ?_
  simp only [flattenOne, Array.getElem?_map, Array.getElem?_modify]
  split <;> simp [Function.comp_def]

theorem getElem?_flattenOne (hlinks : entries.map (·.link) = p.links) (id x : SymbolId) :
    (p.flattenOne entries id)[x]? =
      entries[x]?.map fun e => if x = id then { e with noted := p.allInterfaces x } else e := by
  rw [flattenOne, hlinks, Array.getElem?_modify]
  by_cases hx : id = x
  · simp [hx]
  · simp [hx, Ne.symm hx]

/-- What is noted does not depend on the order, because nothing that is noted is read. -/
theorem getElem?_foldl_flattenOne (hlinks : entries.map (·.link) = p.links) (order : List SymbolId)
    (x : SymbolId) :
    (order.foldl p.flattenOne entries)[x]? =
      entries[x]?.map fun e => if x ∈ order then { e with noted := p.allInterfaces x } else e := by
  induction order generalizing entries with
  | nil => simp
  | cons id order ih =>
    rw [List.foldl_cons, ih ((links_flattenOne p entries id).trans hlinks),
      getElem?_flattenOne hlinks]
    rw [Option.map_map]
    congr 1
    funext e
    by_cases hx : x = id
    · simp [hx]
    · simp [hx]

theorem noted_flattenAll (order : List SymbolId) (hid : id < p.links.size) (hmem : id ∈ order) :
    (p.flattenAll order)[id]?.map (·.noted) = some (p.allInterfaces id) := by
  rw [flattenAll, getElem?_foldl_flattenOne (by simp [Array.map_map, Function.comp_def])]
  simp [hid, hmem]

/-! ## Loaded programs -/

/-- The interfaces of number `id`, which is that of the declared type `T` with the bases of `chain`
above it. -/
structure InterfacesExact (s : Solution) (p : Program) (T : TypeSite) (chain : List TypeSite)
    (id : SymbolId) : Prop where
  declared : T ∈ s.sites
  name : p.table.qualifiedName id = T.name
  /-- The chain of bases is followed until it ends or comes back, -/
  bases : ChainFrom s.IsBase T chain
  /-- which makes it complete. -/
  complete : ∀ A, A ∈ chain ↔ ReflTransGen s.IsBase T A
  nodup : (p.allInterfaces id).Nodup
  own : id ∉ p.allInterfaces id
  /-- The other interfaces to which one or more declared steps lead from a type of the chain. -/
  members : ∀ x, x ∈ p.allInterfaces id ↔
    ∃ I ∈ s.sites, p.table.findType I.name = some x ∧ I.decl.kind = .interfaceType ∧ I ≠ T ∧
      ∃ A ∈ chain, TransGen s.ListsInterface A I
  /-- The walk up the bases comes to an end, having passed the chain. -/
  climbs : ∃ top ∈ StateTransition.eval p.climb? ⟨[], some id⟩,
    top.passed.reverse = (p.baseChain id).types
  /-- The walk through the interfaces, from those that the chain lists, comes to an end. -/
  gathers : ⟨[], p.allInterfaces id⟩ ∈
    StateTransition.eval (p.gather? id) ⟨p.listed (p.baseChain id).types, []⟩
  /-- The same interfaces are noted for the type whatever the order in which types are flattened. -/
  anyOrder : ∀ order, id ∈ order →
    (p.flattenAll order)[id]?.map (·.noted) = some (p.allInterfaces id)

end Program

namespace Solution.WellFormed

variable {s : Solution}

theorem isBase_rightUnique (hwf : s.WellFormed) : Relator.RightUnique s.IsBase := by
  rintro T U U' ⟨hU, hname⟩ ⟨hU', hname'⟩
  exact List.inj_on_of_nodup_map hwf.distinct hU hU' (Option.some.inj (hname.symm.trans hname'))

/-- What a type lists, directly or through others, are interfaces. -/
theorem kind_of_lists (hwf : s.WellFormed) {A I : TypeSite} (hA : A ∈ s.sites)
    (h : TransGen s.ListsInterface A I) : I.decl.kind = .interfaceType := by
  obtain ⟨B, hpath, hI, name, hname, htrim⟩ := TransGen.tail'_iff.1 h
  have hB : B ∈ s.sites := by
    rcases ReflTransGen.cases_tail hpath with rfl | ⟨-, -, hB, -⟩
    · exact hA
    · exact hB
  obtain ⟨U, hU, hUname, hkind⟩ := hwf.interfaces B hB name hname
  obtain rfl : U = I := List.inj_on_of_nodup_map hwf.distinct hU hI (hUname.trans htrim)
  exact hkind

end Solution.WellFormed

namespace Program

open SymbolTable

variable {p : Program} {s : Solution} {blocks : List Block} {T : TypeSite} {id x : SymbolId}

/-- The interfaces of a type, where those on its chain of bases are given as declared types. -/
theorem Represents.mem_allInterfaces_iff (h : p.Represents s blocks) (hT : TypeAt blocks id T)
    {chain : List TypeSite} (hforth : ∀ y ∈ (p.baseChain id).types, ∃ A ∈ chain, TypeAt blocks y A)
    (hback : ∀ A ∈ chain, ∃ y ∈ (p.baseChain id).types, TypeAt blocks y A) :
    x ∈ p.allInterfaces id ↔
      ∃ I ∈ s.sites, p.table.findType I.name = some x ∧ I.decl.kind = .interfaceType ∧ I ≠ T ∧
        ∃ A ∈ chain, TransGen s.ListsInterface A I := by
  -- what a type lists, directly or through others, is what its declaration does
  have hlists : ∀ {y A}, TypeAt blocks y A → (TransGen p.Lists y x ↔
      ∃ I, TransGen s.ListsInterface A I ∧ TypeAt blocks x I) :=
    h.mirrors_lists.transGen.rel_iff h.layout.typeAt_number_unique
  rw [mem_allInterfaces h.size]
  constructor
  · rintro ⟨hne, y, hy, hpath⟩
    obtain ⟨A, hA, hyA⟩ := hforth y hy
    obtain ⟨I, hpath, hI⟩ := (hlists hyA).1 hpath
    obtain ⟨hmem, hfind⟩ := h.typeAt_iff.1 hI
    have hkind := h.wellFormed.kind_of_lists (h.typeAt_iff.1 hyA).1 hpath
    refine ⟨I, hmem, hfind, hkind, ?_, A, hA, hpath⟩
    rintro rfl
    exact hne (h.layout.typeAt_number_unique hI hT)
  · rintro ⟨I, hmem, hfind, -, hne, A, hA, hpath⟩
    have hI : TypeAt blocks x I := h.typeAt_iff.2 ⟨hmem, hfind⟩
    obtain ⟨y, hy, hyA⟩ := hback A hA
    refine ⟨?_, y, hy, (hlists hyA).2 ⟨I, hpath, hI⟩⟩
    rintro rfl
    exact hne (h.layout.typeAt_unique hI hT)

/-- The interfaces of every type of a loaded program are what the declarations of the solution say,
also where bases and interfaces run in circles. -/
theorem load_interfacesExact (hload : load s = .ok p) (htype : p.table.HasType id) :
    ∃ T chain, InterfacesExact s p T chain id := by
  obtain ⟨hwf, news, outside, order, hloaded⟩ := (load_meets s).of_ok hload
  have hp := hloaded.represents hwf
  obtain ⟨b, hb, rfl⟩ := hp.layout.hasType_iff.1 htype
  have hT : TypeAt (news.flatten ++ outside) b.id b.site := ⟨b, hb, rfl, rfl⟩
  obtain ⟨chain, hchain, hforth, hback⟩ := (baseChain_chainFrom hp.size b.id).mirrored
    hp.mirrors_base hp.layout.typeAt_unique hp.layout.typeAt_number_unique hT
  have hlt : b.id < p.links.size := by
    obtain ⟨symbol, hsymbol, -⟩ := htype
    rw [hp.size]
    exact symbol?_eq_some_lt hsymbol
  refine ⟨b.site, chain, (hp.typeAt_iff.1 hT).1, hp.layout.typeNames b hb, hchain,
    fun A => hchain.mem_iff hwf.isBase_rightUnique, nodup_allInterfaces hp.size b.id,
    not_mem_allInterfaces hp.size b.id, fun x => hp.mem_allInterfaces_iff hT hforth hback, ?_,
    allInterfaces_ends hp.size b.id, fun order hmem => noted_flattenAll order hlt hmem⟩
  obtain ⟨top, hends, htypes⟩ := baseChain_ends hp.size b.id
  exact ⟨top, hends, (congrArg BaseChain.types htypes).symm⟩

/-- Two types that are each other's base, and interfaces that list each other, one of them
themselves. -/
def loopedInterfaces : Solution where
  externalTypes :=
    [{ name := "Left", base := some "Right", interfaces := ["Walks"] },
     { name := "Right", base := some " Left ", interfaces := [" Runs "] },
     { name := "Walks", kind := .interfaceType, interfaces := ["Runs", "Swims"] },
     { name := "Runs", kind := .interfaceType, interfaces := ["Walks", "Runs"] },
     { name := "Swims", kind := .interfaceType, interfaces := ["Walks"] }]

theorem load_interfacesExact_loopedInterfaces :
    ∃ p, load loopedInterfaces = .ok p ∧ p.table.HasType 1 ∧ p.table.HasType 4 ∧
      p.allInterfaces 1 = [4, 3, 5] ∧ p.allInterfaces 4 = [3, 5] ∧
      (∃ T chain, InterfacesExact loopedInterfaces p T chain 1) ∧
      ∃ T chain, InterfacesExact loopedInterfaces p T chain 4 := by
  have hfound : (load loopedInterfaces).toOption.map (fun p =>
      (((p.table.symbol? 1).map (·.isType), (p.table.symbol? 4).map (·.isType)),
        p.allInterfaces 1, p.allInterfaces 4)) =
      some ((some true, some true), [4, 3, 5], [3, 5]) := by decide +kernel
  obtain ⟨p, hload, hfound⟩ := exists_ok_of_map hfound
  simp only [Prod.mk.injEq, Option.map_eq_some_iff] at hfound
  obtain ⟨⟨hone, hfour⟩, hleft, hruns⟩ := hfound
  exact ⟨p, hload, hone, hfour, hleft, hruns, load_interfacesExact hload hone,
    load_interfacesExact hload hfour⟩

end Program

end TestReach
