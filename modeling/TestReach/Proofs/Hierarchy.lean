import TestReach.Hierarchy
import TestReach.Proofs.Meets
import TestReach.Proofs.Ordered
import Mathlib.Algebra.BigOperators.Group.List.Basic
import Mathlib.Algebra.Order.BigOperators.Group.Finset
import Mathlib.Computability.StateTransition
import Mathlib.Data.List.Perm.Subperm
import Mathlib.Logic.Relation

/-!
# What a type can be treated as

The chain of bases and the interfaces are computed with a bound on the number of steps. Here they
are described without: a chain is circular when it leads to a type that leads back to itself
(`Program.Circular`), and otherwise a type can be treated as whatever steps to a base or to a listed
interface lead to (`Program.Assignable`).

Both computations are walks that take turn after turn, `Program.climb?` up the bases and
`Program.gather?` through the interfaces. The bounds are never reached: each walk comes to its end,
and what is computed is read off there (`Program.ascend_ends`, `Program.collect_ends`). All else is
shown of one turn and carried to the end (`ends_keep`).
-/

namespace TestReach

open Relation

/-- What every turn keeps holds at the end of a walk, if it holds at the start. -/
theorem ends_keep {α : Type} {turn? : α → Option α} {inv : α → Prop}
    (hturn : ∀ a b, turn? a = some b → inv a → inv b) {a b : α}
    (h : b ∈ StateTransition.eval turn? a) (ha : inv a) : inv b := by
  obtain ⟨hreaches, -⟩ := StateTransition.mem_eval.1 h
  clear h
  induction hreaches with
  | refl => exact ha
  | tail _ hstep ih => exact hturn _ _ hstep ih

/-- A walk ends where it ends after its first turn. -/
theorem ends_of_turn {α : Type} {turn? : α → Option α} {a a' b : α} (ha : turn? a = some a')
    (h : b ∈ StateTransition.eval turn? a') : b ∈ StateTransition.eval turn? a := by
  rwa [StateTransition.reaches_eval (ReflTransGen.single ha)]

namespace Program

variable {p : Program} {start id : SymbolId} {below : List SymbolId}

/-- The step from a type to its base. -/
def BaseOf (p : Program) (id base : SymbolId) : Prop :=
  p.base id = some base

/-- The step from a type to an interface that it lists. -/
def Lists (p : Program) (id interface : SymbolId) : Prop :=
  interface ∈ p.interfaces id

/-- The chain of bases comes to a type that leads back to itself. -/
def Circular (p : Program) (id : SymbolId) : Prop :=
  ∃ top, ReflTransGen p.BaseOf id top ∧ TransGen p.BaseOf top top

/-- Steps to bases and interfaces lead from a type to another. -/
def Assignable (p : Program) : SymbolId → SymbolId → Prop :=
  ReflTransGen fun id up => p.BaseOf id up ∨ p.Lists id up

/-! ## The chain of bases -/

theorem lt_of_base {base : SymbolId} (h : p.base id = some base) : id < p.links.size := by
  unfold Program.base at h
  cases hl : p.links[id]? with
  | none => simp [hl] at h
  | some link => exact (Array.getElem?_eq_some_iff.1 hl).1

-- A type has one base at most, so the whole chain above a type on a circle is that circle.
theorem transGen_of_reached {top : SymbolId} (hcycle : TransGen p.BaseOf top top)
    (hup : ReflTransGen p.BaseOf top id) : TransGen p.BaseOf id id := by
  induction hup with
  | refl => exact hcycle
  | tail _ hstep ih =>
    obtain ⟨base, hstep', hback⟩ := TransGen.head'_iff.1 ih
    rw [BaseOf, hstep, Option.some.injEq] at hstep'
    subst hstep'
    exact TransGen.tail' hback hstep

/-- The types of `below` were passed on the way from `start` to `id`. -/
structure Trail (p : Program) (start : SymbolId) (below : List SymbolId) (id : SymbolId) :
    Prop where
  reached : ReflTransGen p.BaseOf start id
  passed : ∀ x ∈ below, ReflTransGen p.BaseOf start x ∧ TransGen p.BaseOf x id
  ahead : ∀ x, ReflTransGen p.BaseOf start x → x ∈ below ∨ ReflTransGen p.BaseOf id x
  nodup : below.Nodup

theorem trail_nil (p : Program) (start : SymbolId) : p.Trail start [] start :=
  ⟨.refl, by simp, fun _ h => .inr h, List.nodup_nil⟩

theorem Trail.step (h : p.Trail start below id) {base : SymbolId} (hid : id ∉ below)
    (hbase : p.base id = some base) : p.Trail start (id :: below) base where
  reached := h.reached.tail hbase
  passed := by
    refine List.forall_mem_cons.2 ⟨⟨h.reached, .single hbase⟩, fun x hx => ?_⟩
    exact ⟨(h.passed x hx).1, (h.passed x hx).2.tail hbase⟩
  ahead := by
    intro x hx
    rcases h.ahead x hx with hx | hx
    · exact .inl (List.mem_cons_of_mem _ hx)
    · rcases ReflTransGen.cases_head hx with rfl | ⟨base', hbase', hup⟩
      · exact .inl List.mem_cons_self
      · rw [BaseOf, hbase, Option.some.injEq] at hbase'
        exact .inr (hbase' ▸ hup)
  nodup := List.nodup_cons.2 ⟨hid, h.nodup⟩

theorem Trail.length_le (h : p.Trail start below id) : below.length ≤ p.links.size := by
  have hsub : below ⊆ List.range p.links.size := by
    intro x hx
    obtain ⟨base, hbase, -⟩ := TransGen.head'_iff.1 (h.passed x hx).2
    exact List.mem_range.2 (lt_of_base hbase)
  simpa using (h.nodup.subperm hsub).length_le

/-- The chain of bases as it is computed: circular or, if not, complete. -/
structure ChainOf (p : Program) (start : SymbolId) (chain : BaseChain) : Prop where
  cyclic : chain.cyclic = true ↔ p.Circular start
  types : chain.cyclic = false → ∀ x, x ∈ chain.types ↔ ReflTransGen p.BaseOf start x
  nodup : chain.types.Nodup
  start : start ∈ chain.types

theorem Trail.chain_end (h : p.Trail start below id) (hid : id ∉ below) (hbase : p.base id = none) :
    p.ChainOf start ⟨(id :: below).reverse, false⟩ := by
  have hstays : ∀ x, ReflTransGen p.BaseOf id x → x = id := by
    intro x hx
    rcases ReflTransGen.cases_head hx with rfl | ⟨base, hstep, -⟩
    · rfl
    · rw [BaseOf, hbase] at hstep
      exact absurd hstep (by simp)
  have hmem : ∀ x, x ∈ (id :: below).reverse ↔ ReflTransGen p.BaseOf start x := by
    intro x
    rw [List.mem_reverse, List.mem_cons]
    constructor
    · rintro (rfl | hx)
      · exact h.reached
      · exact (h.passed x hx).1
    · intro hx
      rcases h.ahead x hx with hx | hx
      · exact .inr hx
      · exact .inl (hstays x hx)
  refine ⟨?_, fun _ => hmem, ?_, (hmem start).2 .refl⟩
  · refine iff_of_false Bool.false_ne_true ?_
    rintro ⟨top, htop, hcycle⟩
    -- a circle would have to pass through `id`, which has no base
    have hlead : ReflTransGen p.BaseOf top id := by
      rcases h.ahead top htop with hbelow | hup
      · exact (h.passed top hbelow).2.to_reflTransGen
      · rw [hstays top hup]
    obtain ⟨base, hstep, -⟩ := TransGen.head'_iff.1 (transGen_of_reached hcycle hlead)
    rw [BaseOf, hbase] at hstep
    exact absurd hstep (by simp)
  · exact List.nodup_reverse.2 (List.nodup_cons.2 ⟨hid, h.nodup⟩)

/-! ## The walk up the bases -/

/-- How far a walk up the bases has come: the types passed, the nearest first, and the type that is
next, if any. -/
structure Climb where
  passed : List SymbolId
  next : Option SymbolId

/-- One turn of the walk up. The walk is over when no type is next, or one that was passed. -/
def climb? (p : Program) (c : Climb) : Option Climb :=
  c.next.bind fun id => if id ∈ c.passed then none else some ⟨id :: c.passed, p.base id⟩

theorem climb?_eq_some {c c' : Climb} (h : p.climb? c = some c') :
    ∃ id, c.next = some id ∧ id ∉ c.passed ∧ c' = ⟨id :: c.passed, p.base id⟩ := by
  obtain ⟨id, hnext, hturn⟩ := Option.bind_eq_some_iff.1 h
  split at hturn
  · exact absurd hturn (by simp)
  · exact ⟨id, hnext, ‹_›, (Option.some.inj hturn).symm⟩

theorem climb?_eq_none {c : Climb} (h : p.climb? c = none) : ∀ id ∈ c.next, id ∈ c.passed := by
  intro id hnext
  have hturn := Option.bind_eq_none_iff.1 h id hnext
  split at hturn
  · assumption
  · exact absurd hturn (by simp)

/-- The walk up comes to an end, and the chain of bases is what it has passed by then: circular when
it stopped before a type that it had passed. -/
theorem ascend_ends {n : Nat} (h : p.Trail start below id)
    (hn : p.links.size + 2 ≤ n + below.length) :
    ∃ top ∈ StateTransition.eval p.climb? ⟨below, some id⟩,
      p.ascend n below id = ⟨top.passed.reverse, top.next.isSome⟩ := by
  induction n generalizing below id with
  | zero =>
    have hle := h.length_le
    omega
  | succ n ih =>
    rw [ascend]
    by_cases hid : id ∈ below
    · rw [if_pos (List.contains_iff_mem.2 hid)]
      have hover : p.climb? ⟨below, some id⟩ = none := by simp [climb?, hid]
      exact ⟨_, StateTransition.mem_eval.2 ⟨.refl, hover⟩, rfl⟩
    · rw [if_neg (fun hc => hid (List.contains_iff_mem.1 hc))]
      have hturn : p.climb? ⟨below, some id⟩ = some ⟨id :: below, p.base id⟩ := by
        simp [climb?, hid]
      cases hbase : p.base id with
      | none =>
        rw [hbase] at hturn
        exact ⟨_, ends_of_turn hturn (StateTransition.mem_eval.2 ⟨.refl, rfl⟩), rfl⟩
      | some base =>
        rw [hbase] at hturn
        obtain ⟨top, hends, hchain⟩ := ih (h.step hid hbase) (by rw [List.length_cons]; omega)
        exact ⟨top, ends_of_turn hturn hends, hchain⟩

theorem baseChain_ends (hsize : p.links.size = p.size) (id : SymbolId) :
    ∃ top ∈ StateTransition.eval p.climb? ⟨[], some id⟩,
      p.baseChain id = ⟨top.passed.reverse, top.next.isSome⟩ :=
  ascend_ends (trail_nil p id) (by simp [hsize])

/-- The walk up from `start` is on its trail until the chain ends, and then it has the chain. -/
structure OnTrail (p : Program) (start : SymbolId) (c : Climb) : Prop where
  trail : ∀ id ∈ c.next, p.Trail start c.passed id ∧ start ∈ id :: c.passed
  ended : c.next = none → p.ChainOf start ⟨c.passed.reverse, false⟩

theorem OnTrail.turn {c c' : Climb} (hturn : p.climb? c = some c') (h : p.OnTrail start c) :
    p.OnTrail start c' := by
  obtain ⟨id, hnext, hid, rfl⟩ := climb?_eq_some hturn
  obtain ⟨htrail, hstart⟩ := h.trail id hnext
  refine ⟨fun base hbase => ⟨htrail.step hid hbase, List.mem_cons_of_mem _ hstart⟩, fun hbase => ?_⟩
  exact htrail.chain_end hid hbase

theorem baseChain_chainOf (hsize : p.links.size = p.size) (id : SymbolId) :
    p.ChainOf id (p.baseChain id) := by
  obtain ⟨top, hends, hchain⟩ := baseChain_ends hsize id
  have hbegin : p.OnTrail id ⟨[], some id⟩ := by
    refine ⟨?_, by simp⟩
    rintro _ ⟨⟩
    exact ⟨trail_nil p id, List.mem_cons_self⟩
  have htop : p.OnTrail id top := ends_keep (fun _ _ => OnTrail.turn) hends hbegin
  rw [hchain]
  cases hnext : top.next with
  | none => exact htop.ended hnext
  | some back =>
    obtain ⟨htrail, hstart⟩ := htop.trail back hnext
    have hback : back ∈ top.passed := climb?_eq_none (StateTransition.mem_eval.1 hends).2 back hnext
    refine ⟨iff_of_true rfl ⟨back, htrail.reached, (htrail.passed back hback).2⟩, ?_,
      List.nodup_reverse.2 htrail.nodup, ?_⟩
    · exact fun hno => absurd hno (by simp)
    · rcases List.mem_cons.1 hstart with rfl | hstart
      · exact List.mem_reverse.2 hback
      · exact List.mem_reverse.2 hstart

/-! ## Interfaces -/

theorem interfaces_eq_nil (h : p.links.size ≤ id) : p.interfaces id = [] := by
  unfold Program.interfaces
  rw [Array.getElem?_eq_none h]

/-- Types without repeats list together no more interfaces than all types do. -/
theorem length_interfaces_le (hsize : p.links.size = p.size) {ids : List SymbolId}
    (hn : ids.Nodup) : (ids.flatMap p.interfaces).length ≤ p.interfaceCount := by
  unfold interfaceCount
  rw [List.length_flatMap, List.length_flatMap, ← List.sum_toFinset _ hn,
    ← List.sum_toFinset _ List.nodup_range]
  refine Finset.sum_le_sum_of_ne_zero fun id _ hne => ?_
  rw [List.mem_toFinset, List.mem_range]
  by_contra hge
  rw [interfaces_eq_nil (by omega)] at hne
  exact hne rfl

theorem listed_eq (types : List SymbolId) :
    p.listed types = types.reverse.flatMap p.interfaces := by
  have hfold : ∀ stack, types.foldl (fun stack id => p.interfaces id ++ stack) stack =
      types.reverse.flatMap p.interfaces ++ stack := by
    induction types with
    | nil => simp
    | cons id types ih => simp [ih]
  simpa [listed] using hfold []

/-- The interfaces on the stack and those found come from `first`, and what they list is not
lost. -/
structure Collecting (p : Program) (own : SymbolId) (first stack found : List SymbolId) : Prop where
  sound : ∀ x, x ∈ stack ∨ x ∈ found → ∃ y ∈ first, ReflTransGen p.Lists y x
  begun : ∀ y ∈ first, y = own ∨ y ∈ found ∨ y ∈ stack
  closed : ∀ x ∈ found, ∀ i, p.Lists x i → i = own ∨ i ∈ found ∨ i ∈ stack
  nodup : found.Nodup

variable {own i : SymbolId} {first stack found : List SymbolId}

theorem collecting_new (first : List SymbolId) : p.Collecting own first first [] where
  sound := by
    rintro x (hx | hx)
    · exact ⟨x, hx, .refl⟩
    · exact absurd hx List.not_mem_nil
  begun := fun y hy => .inr (.inr hy)
  closed := by simp
  nodup := List.nodup_nil

theorem Collecting.skip (h : p.Collecting own first (i :: stack) found)
    (hi : i = own ∨ i ∈ found) : p.Collecting own first stack found := by
  have hmoved : ∀ x, x = own ∨ x ∈ found ∨ x ∈ i :: stack → x = own ∨ x ∈ found ∨ x ∈ stack := by
    rintro x (hx | hx | hx)
    · exact .inl hx
    · exact .inr (.inl hx)
    · rcases List.mem_cons.1 hx with rfl | hx
      · exact hi.imp_right .inl
      · exact .inr (.inr hx)
  refine ⟨fun x hx => h.sound x (hx.imp_left (List.mem_cons_of_mem _)), ?_, ?_, h.nodup⟩
  · exact fun y hy => hmoved y (h.begun y hy)
  · exact fun x hx j hj => hmoved j (h.closed x hx j hj)

theorem Collecting.expand (h : p.Collecting own first (i :: stack) found) (hi : i ∉ found) :
    p.Collecting own first (p.interfaces i ++ stack) (found ++ [i]) := by
  have hmoved : ∀ x, x = own ∨ x ∈ found ∨ x ∈ i :: stack →
      x = own ∨ x ∈ found ++ [i] ∨ x ∈ p.interfaces i ++ stack := by
    intro x hx
    simp only [List.mem_cons, List.mem_append] at hx ⊢
    tauto
  refine ⟨?_, fun y hy => hmoved y (h.begun y hy), ?_, ?_⟩
  · obtain ⟨y, hy, hup⟩ := h.sound i (.inl List.mem_cons_self)
    intro x hx
    simp only [List.mem_append, List.mem_singleton] at hx
    rcases hx with (hx | hx) | hx | rfl
    · exact ⟨y, hy, hup.tail hx⟩
    · exact h.sound x (.inl (List.mem_cons_of_mem _ hx))
    · exact h.sound x (.inr hx)
    · exact ⟨y, hy, hup⟩
  · intro x hx j hj
    rcases List.mem_append.1 hx with hx | hx
    · exact hmoved j (h.closed x hx j hj)
    · rw [List.mem_singleton.1 hx] at hj
      exact .inr (.inr (List.mem_append_left _ hj))
  · rw [← List.concat_eq_append, List.nodup_concat]
    exact ⟨hi, h.nodup⟩

/-- How far a walk through interfaces has come: those on the stack, and those found. -/
structure Gathering where
  stack : List SymbolId
  found : List SymbolId

/-- One turn of the walk through the interfaces of `own`, over when nothing is on the stack. An
interface that was found before is dropped, and so is `own`. -/
def gather? (p : Program) (own : SymbolId) : Gathering → Option Gathering
  | ⟨[], _⟩ => none
  | ⟨i :: stack, found⟩ =>
    some (if i = own ∨ i ∈ found then ⟨stack, found⟩ else ⟨p.interfaces i ++ stack, found ++ [i]⟩)

theorem gather?_eq_some {g g' : Gathering} (h : p.gather? own g = some g') :
    ∃ i stack, g.stack = i :: stack ∧
      ((i = own ∨ i ∈ g.found) ∧ g' = ⟨stack, g.found⟩ ∨
        (i ≠ own ∧ i ∉ g.found) ∧ g' = ⟨p.interfaces i ++ stack, g.found ++ [i]⟩) := by
  obtain ⟨_ | ⟨i, stack⟩, found⟩ := g
  · exact absurd h (by simp [gather?])
  · refine ⟨i, stack, rfl, ?_⟩
    rw [gather?, Option.some.injEq] at h
    by_cases hi : i = own ∨ i ∈ found
    · rw [if_pos hi] at h
      exact .inl ⟨hi, h.symm⟩
    · rw [if_neg hi] at h
      exact .inr ⟨not_or.1 hi, h.symm⟩

-- What is on the stack and what the types not yet found can still put there is less than `n`: a
-- turn that finds an interface may let the stack grow, but only by what that interface lists.
theorem collect_ends (hsize : p.links.size = p.size) {n : Nat} (hnodup : found.Nodup)
    (hn : stack.length + p.interfaceCount < n + (found.flatMap p.interfaces).length) :
    ⟨[], p.collect own n stack found⟩ ∈ StateTransition.eval (p.gather? own) ⟨stack, found⟩ := by
  induction n generalizing stack found with
  | zero =>
    have hle := length_interfaces_le hsize hnodup
    omega
  | succ n ih =>
    cases stack with
    | nil => exact StateTransition.mem_eval.2 ⟨.refl, rfl⟩
    | cons i stack =>
      rw [collect]
      rw [List.length_cons] at hn
      by_cases hi : i = own ∨ i ∈ found
      · rw [if_pos (by simpa using hi)]
        refine ends_of_turn ?_ (ih hnodup (by omega))
        rw [gather?, if_pos hi]
      · rw [if_neg (by simpa using hi)]
        have hnodup' : (found ++ [i]).Nodup := by
          rw [← List.concat_eq_append, List.nodup_concat]
          exact ⟨(not_or.1 hi).2, hnodup⟩
        refine ends_of_turn ?_ (ih hnodup' ?_)
        · rw [gather?, if_neg hi]
        · rw [List.length_append, List.flatMap_append, List.length_append, List.flatMap_singleton]
          omega

theorem Collecting.turn {g g' : Gathering} (hturn : p.gather? own g = some g')
    (h : p.Collecting own first g.stack g.found) : p.Collecting own first g'.stack g'.found := by
  obtain ⟨i, stack, hstack, ⟨hi, rfl⟩ | ⟨hi, rfl⟩⟩ := gather?_eq_some hturn
  · rw [hstack] at h
    exact h.skip hi
  · rw [hstack] at h
    exact h.expand hi.2

/-- The walk through the interfaces of a type comes to an end, with all of them found. -/
theorem allInterfaces_ends (hsize : p.links.size = p.size) (id : SymbolId) :
    ⟨[], p.allInterfaces id⟩ ∈
      StateTransition.eval (p.gather? id) ⟨p.listed (p.baseChain id).types, []⟩ := by
  have hlength : (p.listed (p.baseChain id).types).length ≤ p.interfaceCount := by
    rw [listed_eq]
    exact length_interfaces_le hsize (List.nodup_reverse.2 (baseChain_chainOf hsize id).nodup)
  exact collect_ends hsize List.nodup_nil (by simp; omega)

theorem allInterfaces_collecting (hsize : p.links.size = p.size) (id : SymbolId) :
    p.Collecting id (p.listed (p.baseChain id).types) [] (p.allInterfaces id) :=
  ends_keep (fun _ _ => Collecting.turn) (allInterfaces_ends hsize id) (collecting_new _)

/-- The interfaces found for a type, apart from the type itself. -/
theorem mem_allInterfaces_iff (hsize : p.links.size = p.size) {id x : SymbolId} (hx : x ≠ id) :
    x ∈ p.allInterfaces id ↔
      ∃ y ∈ (p.baseChain id).types, ∃ i, p.Lists y i ∧ ReflTransGen p.Lists i x := by
  have hchain := baseChain_chainOf hsize id
  have hfirst : ∀ i, i ∈ p.listed (p.baseChain id).types ↔
      ∃ y ∈ (p.baseChain id).types, p.Lists y i := by
    simp [listed_eq, Lists]
  have hall := allInterfaces_collecting hsize id
  constructor
  · intro hmem
    obtain ⟨i, hi, hup⟩ := hall.sound x (.inr hmem)
    obtain ⟨y, hy, hlists⟩ := (hfirst i).1 hi
    exact ⟨y, hy, i, hlists, hup⟩
  · rintro ⟨y, hy, i, hlists, hup⟩
    have hreach : x = id ∨ x ∈ p.allInterfaces id := by
      clear hx
      induction hup with
      | refl => simpa using hall.begun i ((hfirst i).2 ⟨y, hy, hlists⟩)
      | @tail z x _ hstep ih =>
        rcases ih with rfl | hz
        -- `id` itself is not collected, but what it lists was put on the stack with its chain
        · simpa using hall.begun x ((hfirst x).2 ⟨z, hchain.start, hstep⟩)
        · simpa using hall.closed z hz x hstep
    exact hreach.resolve_left hx

/-! ## Assignability -/

-- An interface has no base, so a step to an interface is followed by such steps only.
theorem assignable_iff (hleaf : ∀ id i, p.Lists id i → p.base i = none) {x : SymbolId} :
    p.Assignable id x ↔ ReflTransGen p.BaseOf id x ∨
      ∃ y i, ReflTransGen p.BaseOf id y ∧ p.Lists y i ∧ ReflTransGen p.Lists i x := by
  constructor
  · intro h
    induction h with
    | refl => exact .inl .refl
    | @tail y x _ hstep ih =>
      rcases ih with hchain | ⟨z, i, hchain, hlists, hup⟩
      · rcases hstep with hbase | hlists
        · exact .inl (hchain.tail hbase)
        · exact .inr ⟨y, x, hchain, hlists, .refl⟩
      · rcases hstep with hbase | hlists'
        · have hnone : p.base y = none := by
            rcases ReflTransGen.cases_tail hup with rfl | ⟨j, -, hj⟩
            · exact hleaf z _ hlists
            · exact hleaf j y hj
          rw [BaseOf, hnone] at hbase
          exact absurd hbase (by simp)
        · exact .inr ⟨z, i, hchain, hlists, hup.tail hlists'⟩
  · have hbase : ∀ {a b}, ReflTransGen p.BaseOf a b → p.Assignable a b :=
      fun h => ReflTransGen.mono (fun _ _ => Or.inl) _ _ h
    rintro (hchain | ⟨y, i, hchain, hlists, hup⟩)
    · exact hbase hchain
    · exact ((hbase hchain).tail (.inr hlists)).trans
        (ReflTransGen.mono (fun _ _ => Or.inr) _ _ hup)

/-- The closure fails exactly for a circular chain, and otherwise has what a type can be treated
as. -/
theorem closure_meets (hsize : p.links.size = p.size)
    (hleaf : ∀ id i, p.Lists id i → p.base i = none) (id : SymbolId) :
    Meets (p.closure id) (¬p.Circular id) fun members => ∀ x, x ∈ members ↔ p.Assignable id x := by
  have hchain := baseChain_chainOf hsize id
  unfold closure
  dsimp only
  cases hcyclic : (p.baseChain id).cyclic with
  | true => exact fun hno => hno (hchain.cyclic.1 hcyclic)
  | false =>
    have htypes := hchain.types hcyclic
    refine ⟨fun hcircular => ?_, fun x => ?_⟩
    · rw [← hchain.cyclic, hcyclic] at hcircular
      exact Bool.false_ne_true hcircular
    · rw [mem_ordered, List.mem_append, htypes, assignable_iff hleaf]
      by_cases hx : x = id
      · subst hx
        exact iff_of_true (.inl .refl) (.inl .refl)
      · rw [mem_allInterfaces_iff hsize hx]
        simp only [htypes]
        refine or_congr_right ?_
        constructor
        · rintro ⟨y, hy, i, hlists, hup⟩
          exact ⟨y, i, hy, hlists, hup⟩
        · rintro ⟨y, i, hy, hlists, hup⟩
          exact ⟨y, hy, i, hlists, hup⟩

end Program

end TestReach
