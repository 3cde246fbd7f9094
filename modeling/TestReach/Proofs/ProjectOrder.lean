import TestReach.ProjectOrder
import TestReach.Proofs.Meets
import TestReach.Proofs.Ordered
import Mathlib.Data.Fintype.EquivFin
import Mathlib.Data.List.GetD
import Mathlib.Data.List.Lex
import Mathlib.Data.List.Perm.Subperm
import Mathlib.Logic.Relation
import Mathlib.Order.WellFounded

/-!
# The order of projects, exactly

The order is made by taking again and again the first project that is ready. What is taken this way
is described without the loop (`ProjectOrder.Exact`): it is the set of projects from which no cycle
of references can be reached, and it stands in the least of all the orders in which projects come
after what they refer to. One step of the loop preserves the reason for this (`Underway.next`), and
when no project is ready every project left over leads to a cycle (`exists_ready`).
-/

namespace TestReach.ProjectOrder

open Relation

variable {ps : List ProjectDecl} {refs : List (List Nat)} {done l : List Nat} {i j : Nat}

/-! ## References -/

/-- A reference denotes the last project of its name. -/
def Denotes (ps : List ProjectDecl) (reference : String) (j : Nat) : Prop :=
  (∃ q, ps[j]? = some q ∧ q.name = reference) ∧
    ∀ k q, j < k → ps[k]? = some q → q.name ≠ reference

theorem Denotes.lt {reference : String} (h : Denotes ps reference j) : j < ps.length := by
  obtain ⟨⟨q, hq, -⟩, -⟩ := h
  exact (List.getElem?_eq_some_iff.1 hq).1

theorem positionOf_isSome_iff {name : String} :
    (positionOf ps name).isSome = true ↔ ∃ q ∈ ps, q.name = name := by
  rw [positionOf, Option.isSome_map, List.find?_isSome]
  constructor
  · rintro ⟨⟨q, i⟩, hq, hname⟩
    refine ⟨q, ?_, beq_iff_eq.1 hname⟩
    exact List.mem_of_getElem? (List.mem_zipIdx_iff_getElem?.1 (List.mem_reverse.1 hq))
  · rintro ⟨q, hq, rfl⟩
    obtain ⟨i, hi⟩ := List.getElem?_of_mem hq
    exact ⟨(q, i), List.mem_reverse.2 (List.mem_zipIdx_iff_getElem?.2 hi), beq_self_eq_true _⟩

theorem denotes_of_positionOf {name : String} (h : positionOf ps name = some j) :
    Denotes ps name j := by
  obtain ⟨⟨q, j⟩, hfind, rfl⟩ := Option.map_eq_some_iff.1 h
  obtain ⟨hname, later, earlier, heq, hlater⟩ := List.find?_eq_some_iff_append.1 hfind
  have hzip : ps.zipIdx = earlier.reverse ++ (q, j) :: later.reverse := by
    simpa using congrArg List.reverse heq
  have hascending := pairwise_zipIdx ps
  rw [hzip, List.pairwise_append] at hascending
  refine ⟨⟨q, ?_, beq_iff_eq.1 hname⟩, fun k r hk hr => ?_⟩
  · exact List.mem_zipIdx_iff_getElem?.1 (hzip ▸ by simp)
  · have hmem : (r, k) ∈ ps.zipIdx := List.mem_zipIdx_iff_getElem?.2 hr
    rw [hzip, List.mem_append, List.mem_cons] at hmem
    rcases hmem with hmem | hmem | hmem
    · have hlt : k < j := hascending.2.2 _ hmem _ List.mem_cons_self
      omega
    · obtain ⟨rfl, rfl⟩ := Prod.mk.inj hmem
      omega
    · simpa using hlater _ (List.mem_reverse.1 hmem)

theorem Denotes.unique {name : String} {k : Nat} (h : Denotes ps name j) (h' : Denotes ps name k) :
    j = k := by
  obtain ⟨⟨q, hq, hname⟩, hafter⟩ := h
  obtain ⟨⟨q', hq', hname'⟩, hafter'⟩ := h'
  rcases Nat.lt_trichotomy j k with hlt | heq | hlt
  · exact absurd hname' (hafter k q' hlt hq')
  · exact heq
  · exact absurd hname (hafter' j q hlt hq)

theorem resolveReference_meets (ps : List ProjectDecl) (p : ProjectDecl) (reference : String) :
    Meets (resolveReference ps p reference) (∃ q ∈ ps, q.name = reference)
      (Denotes ps reference) := by
  rw [resolveReference, ← positionOf_isSome_iff]
  cases hposition : positionOf ps reference with
  | none => exact Bool.false_ne_true
  | some i => exact ⟨rfl, denotes_of_positionOf hposition⟩

theorem resolveReference_error {p : ProjectDecl} {reference : String} {e : LoadError}
    (h : resolveReference ps p reference = .error e) : e = .unknownProject reference p.name := by
  unfold resolveReference at h
  split at h
  · cases h
  · exact (Except.error.inj h).symm

/-- The positions that the references of each project denote. -/
def Resolved (ps : List ProjectDecl) (refs : List (List Nat)) : Prop :=
  List.Forall₂ (fun p is => List.Forall₂ (Denotes ps) p.references is) ps refs

theorem references_meets (ps : List ProjectDecl) :
    Meets (references ps) (∀ p ∈ ps, ∀ reference ∈ p.references, ∃ q ∈ ps, q.name = reference)
      (Resolved ps) :=
  Meets.mapM ps fun p _ =>
    Meets.mapM p.references fun reference _ => resolveReference_meets ps p reference

/-- All that the place of a project depends on. -/
def outline (d : ProjectDecl) : ProjectDecl where
  name := d.name
  references := d.references

theorem positionOf_outline (ps : List ProjectDecl) (name : String) :
    positionOf (ps.map outline) name = positionOf ps name := by
  rw [positionOf, positionOf, List.zipIdx_map, ← List.map_reverse, List.find?_map, Option.map_map]
  rfl

theorem order_outline (ps : List ProjectDecl) : order (ps.map outline) = order ps := by
  have hreference : ∀ p, resolveReference (ps.map outline) (outline p) = resolveReference ps p := by
    intro p
    funext reference
    rw [resolveReference, resolveReference, positionOf_outline]
    rfl
  have hreferences : references (ps.map outline) = references ps := by
    rw [references, references, List.mapM_map]
    simp only [Function.comp_def, hreference]
    rfl
  rw [order, order, hreferences]

/-! ## Projects after what they refer to -/

/-- The project at `i` refers to the one at `j`; to itself does not count. -/
def DependsOn (ps : List ProjectDecl) (i j : Nat) : Prop :=
  i ≠ j ∧ ∃ p, ps[i]? = some p ∧ ∃ reference ∈ p.references, Denotes ps reference j

theorem DependsOn.lt (h : DependsOn ps i j) : j < ps.length := by
  obtain ⟨-, p, -, reference, -, hj⟩ := h
  exact hj.lt

/-- References lead from the project at `i` to a cycle. Since a project does not depend on itself,
the cycle has at least two projects. -/
def ReachesCycle (ps : List ProjectDecl) (i : Nat) : Prop :=
  ∃ k, ReflTransGen (DependsOn ps) i k ∧ TransGen (DependsOn ps) k k

/-- Each project of a list comes after all others that it refers to. -/
def Follows (ps : List ProjectDecl) (l : List Nat) : Prop :=
  ∀ before i after, l = before ++ i :: after → ∀ j, DependsOn ps i j → j ∈ before

theorem follows_nil (ps : List ProjectDecl) : Follows ps [] := by
  intro before i after heq
  simp at heq

theorem Follows.concat (h : Follows ps l) (hi : ∀ j, DependsOn ps i j → j ∈ l) :
    Follows ps (l ++ [i]) := by
  intro before k after heq j hj
  rcases List.eq_nil_or_concat after with rfl | ⟨after', last, rfl⟩
  · obtain ⟨rfl, hk⟩ := List.append_inj' heq rfl
    obtain rfl : i = k := List.head_eq_of_cons_eq hk
    exact hi j hj
  · rw [List.concat_eq_append, ← List.cons_append, ← List.append_assoc] at heq
    obtain ⟨rfl, -⟩ := List.append_inj' heq rfl
    exact h before k after' rfl j hj

theorem Follows.idxOf_lt (h : Follows ps l) (hi : i ∈ l) (hij : DependsOn ps i j) :
    j ∈ l ∧ l.idxOf j < l.idxOf i := by
  obtain ⟨before, after, rfl, hbefore⟩ := List.eq_append_cons_of_mem hi
  have hj : j ∈ before := h before i after rfl j hij
  refine ⟨List.mem_append_left _ hj, ?_⟩
  rw [List.idxOf_append_of_mem hj, List.idxOf_append_of_notMem hbefore]
  exact Nat.lt_add_right _ (List.idxOf_lt_length_iff.2 hj)

/-- A project with all that it refers to before it reaches no cycle. -/
theorem Follows.not_reachesCycle (h : Follows ps l) (hi : i ∈ l) : ¬ReachesCycle ps i := by
  have hdown : ∀ {k m}, k ∈ l → TransGen (DependsOn ps) k m →
      m ∈ l ∧ l.idxOf m < l.idxOf k := by
    intro k m hk hpath
    induction hpath with
    | single hstep => exact h.idxOf_lt hk hstep
    | tail _ hstep ih =>
      obtain ⟨hm, hlt⟩ := h.idxOf_lt ih.1 hstep
      exact ⟨hm, Nat.lt_trans hlt ih.2⟩
  rintro ⟨k, hpath, hcycle⟩
  have hk : k ∈ l := by
    rcases reflTransGen_iff_eq_or_transGen.1 hpath with rfl | hpath
    · exact hi
    · exact (hdown hi hpath).1
  exact absurd (hdown hk hcycle).2 (Nat.lt_irrefl _)

/-- Of the projects that are left over and reach no cycle, one has all that it refers to before
it. -/
theorem exists_ready (hi : i < ps.length) (hleft : i ∉ done) (hcycle : ¬ReachesCycle ps i) :
    ∃ k < ps.length, k ∉ done ∧ ∀ j, DependsOn ps k j → j ∈ done := by
  let Reached := { k : Nat // k < ps.length ∧ ReflTransGen (DependsOn ps) i k }
  have hfinite : Finite Reached :=
    Finite.of_injective (fun k : Reached => (⟨k.1, k.2.1⟩ : Fin ps.length)) fun a b hab =>
      Subtype.ext (Fin.mk.inj hab)
  -- what is reached from `i` has no cycle in it, so going down along references comes to an end
  let Below (a b : Reached) : Prop := TransGen (DependsOn ps) b.1 a.1
  have htrans : IsTrans Reached Below := ⟨fun a b c hab hbc => hbc.trans hab⟩
  have hirrefl : Std.Irrefl Below := ⟨fun a ha => hcycle ⟨a.1, a.2.2, ha⟩⟩
  have hwf : WellFounded Below := Finite.wellFounded_of_trans_of_irrefl Below
  obtain ⟨⟨k, hk, hpath⟩, hkleft, hmin⟩ :=
    hwf.has_min { a | a.1 ∉ done } ⟨⟨i, hi, .refl⟩, hleft⟩
  refine ⟨k, hk, hkleft, fun j hj => ?_⟩
  by_contra hjleft
  exact hmin ⟨j, hj.lt, hpath.tail hj⟩ hjleft (.single hj)

/-! ## Taking the first that is ready -/

theorem Resolved.dependsOn_iff (h : Resolved ps refs) :
    DependsOn ps i j ↔ i ≠ j ∧ j ∈ refs.getD i [] := by
  refine and_congr_right fun _ => ?_
  by_cases hi : i < ps.length
  · have hi' : i < refs.length := h.length_eq ▸ hi
    have hget := h.get hi hi'
    simp only [List.get_eq_getElem] at hget
    rw [List.getElem?_eq_getElem hi, List.getD_eq_getElem _ _ hi']
    constructor
    · rintro ⟨p, hp, reference, hreference, hj⟩
      obtain rfl := Option.some.inj hp
      obtain ⟨j', hj', hdenotes⟩ := exists_right_of_mem hget hreference
      exact hj.unique hdenotes ▸ hj'
    · intro hj
      obtain ⟨reference, hreference, hdenotes⟩ := exists_left_of_mem hget hj
      exact ⟨_, rfl, reference, hreference, hdenotes⟩
  · have hi' : ¬i < refs.length := h.length_eq ▸ hi
    simp [List.getElem?_eq_none (Nat.le_of_not_lt hi),
      List.getElem?_eq_none (Nat.le_of_not_lt hi')]

theorem Resolved.isReady_iff (h : Resolved ps refs) :
    isReady refs done i = true ↔ i ∉ done ∧ ∀ j, DependsOn ps i j → j ∈ done := by
  rw [isReady, Bool.and_eq_true, Bool.not_eq_true', List.contains_eq_mem,
    decide_eq_false_iff_not, List.all_eq_true]
  refine and_congr_right fun _ => forall_congr' fun j => ?_
  rw [h.dependsOn_iff, Bool.or_eq_true, List.contains_iff_mem, beq_iff_eq]
  constructor
  · rintro hall ⟨hne, hj⟩
    exact (hall hj).resolve_right fun heq => hne heq.symm
  · intro hall hj
    by_cases heq : j = i
    · exact .inr heq
    · exact .inl (hall ⟨fun heq' => heq heq'.symm, hj⟩)

/-- The lists agree up to a place where the first has the smaller entry. -/
def Precedes (l l' : List Nat) : Prop :=
  ∃ common i r j r', l = common ++ i :: r ∧ l' = common ++ j :: r' ∧ i < j

theorem Precedes.lex {l' : List Nat} (h : Precedes l l') : List.Lex (· < ·) l l' := by
  obtain ⟨common, i, r, j, r', rfl, rfl, hij⟩ := h
  exact List.Lex.append_left _ (.rel hij) common

theorem Precedes.concat {l' : List Nat} (h : Precedes l l') (i : Nat) : Precedes (l ++ [i]) l' := by
  obtain ⟨common, k, r, j, r', rfl, rfl, hkj⟩ := h
  exact ⟨common, k, r ++ [i], j, r', by simp, rfl, hkj⟩

/-- An order that has been made so far. No order of at least as many projects is before it, unless
it goes on from where this one has come to. -/
structure Underway (ps : List ProjectDecl) (done : List Nat) : Prop where
  nodup : done.Nodup
  bound : ∀ i ∈ done, i < ps.length
  follows : Follows ps done
  least : ∀ l, l.Nodup → (∀ i ∈ l, i < ps.length) → Follows ps l → done.length ≤ l.length →
    done <+: l ∨ Precedes done l

theorem underway_nil (ps : List ProjectDecl) : Underway ps [] where
  nodup := .nil
  bound := by simp
  follows := follows_nil ps
  least := fun _ _ _ _ _ => .inl List.nil_prefix

/-- The first project that is ready goes next. -/
theorem Underway.next (h : Underway ps done) (hrefs : Resolved ps refs)
    (hfind : (List.range refs.length).find? (isReady refs done) = some i) :
    Underway ps (done ++ [i]) := by
  obtain ⟨hready, hi, hfirst⟩ := List.find?_range_eq_some.1 hfind
  obtain ⟨hnew, hbefore⟩ := hrefs.isReady_iff.1 hready
  refine ⟨?_, ?_, h.follows.concat hbefore, ?_⟩
  · rw [← List.concat_eq_append, List.nodup_concat]
    exact ⟨hnew, h.nodup⟩
  · intro k hk
    rcases List.mem_append.1 hk with hk | hk
    · exact h.bound k hk
    · rw [List.mem_singleton.1 hk, hrefs.length_eq]
      exact List.mem_range.1 hi
  · intro l hnodup hbound hfollows hlength
    rw [List.length_append, List.length_singleton] at hlength
    rcases h.least l hnodup hbound hfollows (by omega) with ⟨rest, rfl⟩ | hprecedes
    · cases rest with
      | nil =>
        rw [List.append_nil] at hlength
        omega
      | cons j rest =>
        -- what the other order has next is ready as well, so it is not before `i`
        have hjnew : j ∉ done := fun hj => (List.nodup_append.1 hnodup).2.2 j hj j (by simp) rfl
        have hjready : isReady refs done j = true :=
          hrefs.isReady_iff.2 ⟨hjnew, hfollows done j rest rfl⟩
        have hle : i ≤ j := Nat.le_of_not_lt fun hlt => by simpa [hjready] using hfirst j hlt
        rcases Nat.lt_or_eq_of_le hle with hlt | rfl
        · exact .inr ⟨done, i, [], j, rest, rfl, rfl, hlt⟩
        · exact .inl ⟨rest, by simp⟩
    · exact .inr (hprecedes.concat i)

/-- The loop ends when no project is ready, with the others as they were declared. -/
theorem extend_ends (hrefs : Resolved ps refs) {n : Nat} (h : Underway ps done)
    (hn : ps.length ≤ done.length + n) : ∃ front,
      extend refs n done = front ++ (List.range ps.length).filter (fun i => !front.contains i) ∧
        Underway ps front ∧ ∀ i < ps.length, isReady refs front i = false := by
  induction n generalizing done with
  | zero =>
    have hsub := h.nodup.subperm fun i hi => List.mem_range.2 (h.bound i hi)
    have hperm : done.Perm (List.range ps.length) := hsub.perm_of_length_le (by simpa using hn)
    have hall : ∀ {i}, i < ps.length → i ∈ done := fun hi =>
      hperm.mem_iff.2 (List.mem_range.2 hi)
    refine ⟨done, ?_, h, fun i hi => ?_⟩
    · rw [extend, List.filter_eq_nil_iff.2, List.append_nil]
      intro i hi
      simpa using hall (List.mem_range.1 hi)
    · simp [isReady, hall hi]
  | succ n ih =>
    rw [extend]
    cases hfind : (List.range refs.length).find? (isReady refs done) with
    | none =>
      rw [← hrefs.length_eq] at hfind ⊢
      refine ⟨done, rfl, h, fun i hi => ?_⟩
      simpa using List.find?_eq_none.1 hfind i (List.mem_range.2 hi)
    | some i =>
      refine ih (h.next hrefs hfind) ?_
      rw [List.length_append, List.length_singleton]
      omega

/-! ## The order -/

/-- An order of all projects in two parts: those that reach no cycle, in the least order in which
they follow what they refer to, and the others as they were declared. -/
structure Exact (ps : List ProjectDecl) (front rest : List Nat) : Prop where
  perm : (front ++ rest).Perm (List.range ps.length)
  mem_front : ∀ i, i ∈ front ↔ i < ps.length ∧ ¬ReachesCycle ps i
  follows : Follows ps front
  least : ∀ l, l.Perm front → Follows ps l → front = l ∨ List.Lex (· < ·) front l
  rest : rest.Pairwise (· < ·)

theorem Underway.exact (h : Underway ps done) (hrefs : Resolved ps refs)
    (hend : ∀ i < ps.length, isReady refs done i = false) :
    Exact ps done ((List.range ps.length).filter fun i => !done.contains i) where
  perm := by
    refine (List.perm_ext_iff_of_nodup ?_ List.nodup_range).2 fun i => ?_
    · refine List.nodup_append.2 ⟨h.nodup, List.nodup_range.filter _, ?_⟩
      rintro i hi _ hj rfl
      simp [hi] at hj
    · simp only [List.mem_append, List.mem_filter, List.mem_range]
      by_cases hi : i ∈ done
      · simp [hi, h.bound i hi]
      · simp [hi]
  mem_front := by
    intro i
    refine ⟨fun hi => ⟨h.bound i hi, h.follows.not_reachesCycle hi⟩, ?_⟩
    rintro ⟨hi, hcycle⟩
    by_contra hleft
    obtain ⟨k, hk, hready⟩ := exists_ready hi hleft hcycle
    exact Bool.false_ne_true ((hend k hk).symm.trans (hrefs.isReady_iff.2 hready))
  follows := h.follows
  least := by
    intro l hperm hfollows
    have hbound : ∀ i ∈ l, i < ps.length := fun i hi => h.bound i (hperm.subset hi)
    rcases h.least l (hperm.nodup_iff.2 h.nodup) hbound hfollows hperm.length_eq.ge with
      hbefore | hprecedes
    · exact .inl (hbefore.eq_of_length hperm.length_eq.symm)
    · exact .inr hprecedes.lex
  rest := List.pairwise_lt_range.filter _

theorem order_meets (ps : List ProjectDecl) :
    Meets (order ps) (∀ p ∈ ps, ∀ reference ∈ p.references, ∃ q ∈ ps, q.name = reference)
      fun order => ∃ front rest, order = front ++ rest ∧ Exact ps front rest := by
  unfold order
  rcases (references_meets ps).cases with ⟨e, he, hno⟩ | ⟨refs, hrefs, hyes, hresolved⟩
  · rw [he]
    exact hno
  · rw [hrefs]
    obtain ⟨front, horder, hfront, hend⟩ := extend_ends hresolved (n := refs.length)
      (underway_nil ps) (by simp [hresolved.length_eq])
    exact ⟨hyes, front, _, horder, hfront.exact hresolved hend⟩

/-- Without cycles every project follows what it refers to. -/
theorem Exact.follows_all {front rest : List Nat} (h : Exact ps front rest)
    (hcycle : ∀ k, ¬TransGen (DependsOn ps) k k) : Follows ps (front ++ rest) := by
  have hrest : rest = [] := by
    refine List.eq_nil_iff_forall_not_mem.2 fun i hi => ?_
    have hnodup := h.perm.nodup_iff.2 List.nodup_range
    have hlt := List.mem_range.1 (h.perm.subset (List.mem_append_right _ hi))
    have hfront : i ∈ front := (h.mem_front i).2 ⟨hlt, fun ⟨k, _, hk⟩ => hcycle k hk⟩
    exact (List.nodup_append.1 hnodup).2.2 i hfront i hi rfl
  rw [hrest, List.append_nil]
  exact h.follows

/-- The reference of a project is the first of all, in the order they are declared in, that names no
project. -/
structure FirstUnknown (ps : List ProjectDecl) (p : ProjectDecl) (reference : String) : Prop where
  unknown : ∀ q ∈ ps, q.name ≠ reference
  first : ∃ before after earlier later, ps = before ++ p :: after ∧
    p.references = earlier ++ reference :: later ∧
    (∀ q ∈ before, ∀ r ∈ q.references, ∃ q' ∈ ps, q'.name = r) ∧
    ∀ r ∈ earlier, ∃ q' ∈ ps, q'.name = r

theorem references_error {e : LoadError} (h : references ps = .error e) :
    ∃ p reference, FirstUnknown ps p reference ∧ e = .unknownProject reference p.name := by
  obtain ⟨before, p, after, hps, hbefore, hp⟩ := exists_first_failure h
  obtain ⟨earlier, reference, later, hreferences, hearlier, hreference⟩ := exists_first_failure hp
  have hmeets := resolveReference_meets ps p
  refine ⟨p, reference, ⟨?_, before, after, earlier, later, hps, hreferences, ?_, ?_⟩,
    resolveReference_error hreference⟩
  · intro q hq hname
    obtain ⟨j, hj⟩ := (hmeets reference).exists_ok_iff.2 ⟨q, hq, hname⟩
    rw [hreference] at hj
    cases hj
  · intro q hq
    have hall := Meets.mapM q.references fun r _ => resolveReference_meets ps q r
    exact hall.exists_ok_iff.1 (hbefore q hq)
  · exact fun r hr => (hmeets r).exists_ok_iff.1 (hearlier r hr)

/-- If every reference names a project, the order is the exact one, in which all projects follow
what they refer to unless there is a cycle. If not, the first reference that names none is
reported. -/
theorem order_exact (ps : List ProjectDecl) :
    ((∀ p ∈ ps, ∀ reference ∈ p.references, ∃ q ∈ ps, q.name = reference) →
      ∃ front rest, order ps = .ok (front ++ rest) ∧ Exact ps front rest ∧
        ((∀ k, ¬TransGen (DependsOn ps) k k) → Follows ps (front ++ rest))) ∧
    ((∃ p ∈ ps, ∃ reference ∈ p.references, ∀ q ∈ ps, q.name ≠ reference) →
      ∃ p reference, FirstUnknown ps p reference ∧
        order ps = .error (.unknownProject reference p.name)) := by
  refine ⟨fun hall => ?_, ?_⟩
  · obtain ⟨order, horder⟩ := (order_meets ps).exists_ok_iff.2 hall
    obtain ⟨-, front, rest, rfl, hexact⟩ := (order_meets ps).of_ok horder
    exact ⟨front, rest, horder, hexact, hexact.follows_all⟩
  · rintro ⟨p, hp, reference, hreference, hunknown⟩
    rcases (references_meets ps).cases with ⟨e, he, -⟩ | ⟨refs, -, hall, -⟩
    · obtain ⟨p', reference', hfirst, rfl⟩ := references_error he
      exact ⟨p', reference', hfirst, by rw [order, he]⟩
    · obtain ⟨q, hq, hname⟩ := hall p hp reference hreference
      exact absurd hname (hunknown q hq)

/-- Two projects that refer to each other and one that refers to them, a project that refers to
itself, and a name that is declared twice. -/
def loopedProjects : List ProjectDecl :=
  [{ name := "Web", references := ["Api", "Core"] },
   { name := "Api", references := ["Core"] },
   { name := "Left", references := ["Core", "Right"] },
   { name := "Right", references := ["Left"] },
   { name := "Tools", references := ["Left"] },
   { name := "Core", references := ["Core"] },
   { name := "Core", references := ["Core"] }]

/-- References to projects that are not there. -/
def strayProjects : List ProjectDecl :=
  [{ name := "Web", references := ["Api"] },
   { name := "Api", references := ["Web", "Lost", "Gone"] },
   { name := "Core", references := ["Gone"] }]

theorem order_exact_loopedProjects :
    (∀ p ∈ loopedProjects, ∀ reference ∈ p.references, ∃ q ∈ loopedProjects, q.name = reference) ∧
      order loopedProjects = .ok [6, 1, 0, 5, 2, 3, 4] ∧
      (∃ front rest, order loopedProjects = .ok (front ++ rest) ∧
        Exact loopedProjects front rest ∧
        ((∀ k, ¬TransGen (DependsOn loopedProjects) k k) →
          Follows loopedProjects (front ++ rest))) ∧
      order strayProjects = .error (.unknownProject "Lost" "Api") ∧
      (∃ p ∈ strayProjects, ∃ reference ∈ p.references, ∀ q ∈ strayProjects, q.name ≠ reference) ∧
      ∃ p reference, FirstUnknown strayProjects p reference ∧
        order strayProjects = .error (.unknownProject reference p.name) := by
  have hall : ∀ p ∈ loopedProjects, ∀ reference ∈ p.references,
      ∃ q ∈ loopedProjects, q.name = reference := by decide
  have hstray : ∃ p ∈ strayProjects, ∃ reference ∈ p.references,
      ∀ q ∈ strayProjects, q.name ≠ reference := by decide
  exact ⟨hall, by decide, (order_exact loopedProjects).1 hall, by decide, hstray,
    (order_exact strayProjects).2 hstray⟩

end TestReach.ProjectOrder
