import TestReach.Proofs.Run

/-!
# Runs that classify in any order

The methods of a project may be classified in any order (`Schedule`). Under a token that holds
throughout, every classifier that gives each method its verdict leads to the same run: each project
adds its methods, on the sides that their verdicts say (`Criteria.runBy_adds`). Methods one after
the other, and methods in the order of a schedule, are two such classifiers.
-/

namespace TestReach

variable {σ α β : Type}

/-! ## A token that holds -/

/-- The state after `n` checks of a token. -/
def Watch.afterChecks (w : Watch (StateM σ)) (token : Token) : Nat → σ → σ
  | 0, st => st
  | n + 1, st => afterChecks w token n ((w.check token).run st).2

/-- However often the token is checked from a state on, it holds. -/
def Watch.HoldsFrom (w : Watch (StateM σ)) (token : Token) (st : σ) : Prop :=
  ∀ n, ((w.check token).run (w.afterChecks token n st)).1 = .ok ()

/-- From states where the token holds, what `x` gives has the property, and the token still
holds. -/
def Holding (w : Watch (StateM σ)) (token : Token) (x : StateM σ α) (post : α → Prop) : Prop :=
  ∀ st, w.HoldsFrom token st → post (x.run st).1 ∧ w.HoldsFrom token (x.run st).2

namespace Holding

variable {w : Watch (StateM σ)} {token : Token}

theorem pure {a : α} {post : α → Prop} (h : post a) :
    Holding w token (Pure.pure a : StateM σ α) post :=
  fun _ hst => ⟨h, hst⟩

theorem mono {x : StateM σ α} {post post' : α → Prop} (h : Holding w token x post)
    (hp : ∀ a, post a → post' a) : Holding w token x post' :=
  fun st hst => ⟨hp _ (h st hst).1, (h st hst).2⟩

theorem and_gives {x : StateM σ α} {post post' : α → Prop} (h : Holding w token x post)
    (h' : Gives x post') : Holding w token x fun a => post a ∧ post' a :=
  fun st hst => ⟨⟨(h st hst).1, h' st⟩, (h st hst).2⟩

theorem bind {x : StateM σ α} {f : α → StateM σ β} {post : α → Prop} {post' : β → Prop}
    (h : Holding w token x post) (hf : ∀ a, post a → Holding w token (f a) post') :
    Holding w token (x >>= f) post' := by
  intro st hst
  obtain ⟨hpost, hst'⟩ := h st hst
  exact hf _ hpost _ hst'

theorem check (w : Watch (StateM σ)) (token : Token) :
    Holding w token (w.check token) (· = .ok ()) :=
  fun _ hst => ⟨hst 0, fun n => hst (n + 1)⟩

end Holding

/-- A token without a deadline holds in a session where its family is not cancelled. -/
theorem Session.holdsFrom (s : Session) {token : Token} (hdeadline : token.deadline = none)
    (hfamily : s.isCancelled token = false) : Session.watch.HoldsFrom token s := by
  have hcheck : (Session.watch.check token).run s = (s.check token, s) := rfl
  have hstays : ∀ n, Session.watch.afterChecks token n s = s := by
    intro n
    induction n with
    | zero => rfl
    | succ n ih => rw [Watch.afterChecks, hcheck, ih]
  intro n
  rw [hstays n, hcheck, Session.check, hfamily]
  simp [Token.status, hdeadline]

theorem AsksOnce.holding {w : Watch (StateM σ)} {token : Token}
    {answer : Except QueryError (List SymbolId)}
    {x : StateM σ (Except QueryError (List SymbolId))} (h : AsksOnce w token answer x) :
    Holding w token x (· = answer) := by
  intro st hst
  obtain ⟨hcheck, hst'⟩ := Holding.check w token st hst
  rw [h st, hcheck]
  exact ⟨rfl, hst'⟩

/-! ## Questions that are always answered -/

namespace Criteria

variable {c : Criteria} {ask : SymbolId → StateM σ (Except QueryError (List SymbolId))}
  {callersOf : SymbolId → List SymbolId} {f : Findings} {w : Watch (StateM σ)} {token : Token}

theorem search_answered (hask : ∀ id, Holding w token (ask id) (· = .ok (callersOf id)))
    (v : Verdicts) (start : SymbolId) (n : Nat) (queue met : List SymbolId) (d : Detector) :
    Holding w token (c.search ask v start n queue met d) fun r => ∃ e, r.1 = .ok e := by
  induction n generalizing queue met d with
  | zero => exact .pure ⟨_, rfl⟩
  | succ n ih =>
    cases queue with
    | nil => exact .pure ⟨_, rfl⟩
    | cons id queue =>
      unfold search
      split
      · exact .pure ⟨_, rfl⟩
      · exact ih queue met _
      · refine (hask id).bind fun r hr => ?_
        subst hr
        exact ih _ _ _

theorem classify_answered (hask : ∀ id, Holding w token (ask id) (· = .ok (callersOf id)))
    (id : SymbolId) (f : Findings) :
    Holding w token (c.classify ask id f) fun r => ∃ b, r.1 = .ok b := by
  unfold classify
  split
  · exact .pure ⟨true, rfl⟩
  · split
    · unfold classifyOneHop
      refine (hask id).bind fun r hr => ?_
      subst hr
      exact .pure ⟨_, rfl⟩
    · unfold classifyTransitive
      split
      · exact .pure ⟨_, rfl⟩
      · refine (search_answered hask _ _ _ _ _ _).bind fun r hr => ?_
        obtain ⟨e, he⟩ := hr
        obtain ⟨_ | e', d⟩ := r
        · exact absurd he (by simp)
        · exact .pure ⟨_, rfl⟩

/-- When every question is answered, every method gets its verdict. -/
theorem classifyAll_holding (hask : ∀ id, Holding w token (ask id) (· = .ok (callersOf id)))
    (hby : AnswersBy ask callersOf)
    (hnum : ∀ id, ∀ caller ∈ callersOf id, caller < c.numberLimit) {v : SymbolId → Bool}
    (hv : ∀ id, v id = true ↔ c.Tested callersOf id) (ids : List SymbolId)
    (hf : f.Sound c callersOf) :
    Holding w token (c.classifyAll ask ids f) fun r =>
      r.1 = .ok (ids.map v) ∧ r.2.Sound c callersOf := by
  induction ids generalizing f with
  | nil => exact .pure ⟨rfl, hf⟩
  | cons id ids ih =>
    have hboth := (classify_answered hask id f).and_gives (classify_gives hby hnum hf id)
    unfold classifyAll
    refine hboth.bind ?_
    rintro ⟨_ | b', f'⟩ ⟨⟨b, hb⟩, hr⟩
    · exact absurd hb (by simp)
    · have hverdict : b' = v id := by
        rw [Bool.eq_iff_iff, hv]
        exact hr.right b' rfl
      refine (ih hr.sound).bind fun r' hr' => ?_
      obtain ⟨r', f''⟩ := r'
      obtain ⟨rfl, hsound⟩ := hr'
      exact .pure ⟨by rw [hverdict]; rfl, hsound⟩

end Criteria

/-! ## Schedules -/

/-- For the methods that a project has to classify, the order in which it does. -/
structure Schedule where
  order : ProjectRef → List SymbolId → List SymbolId
  perm : ∀ ref ids, (order ref ids).Perm ids

namespace Criteria

/-- The verdicts on some methods, from the verdicts on the same methods in another order. -/
def inOrder (ids order : List SymbolId) (verdicts : List Bool) : List Bool :=
  ids.map fun id => ((order.zip verdicts).lookup id).getD false

/-- Classify methods in the order of a schedule; the verdicts come in the order of the list. -/
def classifyIn {m : Type → Type} [Monad m] (c : Criteria) (schedule : Schedule) : Classifier m :=
  fun ref ask ids f => do
    match ← c.classifyAll ask (schedule.order ref ids) f with
    | (.error e, f) => return (.error e, f)
    | (.ok verdicts, f) => return (.ok (inOrder ids (schedule.order ref ids) verdicts), f)

/-- Analyse all projects of a front end, the methods of each in the order of a schedule. -/
def runIn {m : Type → Type} [Monad m] (c : Criteria) (schedule : Schedule) (w : Watch m)
    (front : FrontEnd m) (timeout : Option Nat) (token : Token) :
    m (Except ClockOverflow Outcome) :=
  c.runBy (c.classifyIn schedule) w front timeout token

theorem inOrder_map (v : SymbolId → Bool) {ids order : List SymbolId} (h : order.Perm ids) :
    inOrder ids order (order.map v) = ids.map v := by
  have hlookup : ∀ {id : SymbolId} {order : List SymbolId}, id ∈ order →
      (order.zip (order.map v)).lookup id = some (v id) := by
    intro id order hid
    induction order with
    | nil => exact absurd hid List.not_mem_nil
    | cons a order ih =>
      rw [List.map_cons, List.zip_cons_cons, List.lookup_cons]
      by_cases ha : id = a
      · simp [ha]
      · rw [beq_false_of_ne ha]
        exact ih ((List.mem_cons.1 hid).resolve_left ha)
  refine List.map_congr_left fun id hid => ?_
  rw [hlookup (h.mem_iff.2 hid), Option.getD_some]

variable {c : Criteria} {v : SymbolId → Bool} {know : List SymbolId → Findings → Prop}

/-- Under a token that holds a classifier gives the verdicts of `v`, and what is known after some
methods goes on to what is known after some more. -/
def Classifies (c : Criteria) (v : SymbolId → Bool) (know : List SymbolId → Findings → Prop)
    (w : Watch (StateM σ)) (token : Token) (classifier : Classifier (StateM σ)) : Prop :=
  ∀ ref ids done f, know done f →
    Holding w token (classifier ref ((c.program.frontEnd w).callers token) ids f) fun r =>
      r.1 = .ok (ids.map v) ∧ know (done ++ ids) r.2

/-- A classifier may take the methods in any order, if this makes no difference to what is known. -/
theorem Classifies.classifyIn {w : Watch (StateM σ)} {token : Token}
    (h : c.Classifies v know w token fun _ => c.classifyAll)
    (hknow : ∀ {ids ids' f}, List.Perm ids ids' → know ids f → know ids' f)
    (schedule : Schedule) : c.Classifies v know w token (c.classifyIn schedule) := by
  intro ref ids done f hf
  refine (h ref (schedule.order ref ids) done f hf).bind fun r hr => ?_
  obtain ⟨r, f'⟩ := r
  obtain ⟨rfl, hf'⟩ := hr
  have hverdicts := inOrder_map v (schedule.perm ref ids)
  exact .pure ⟨congrArg Except.ok hverdicts, hknow ((schedule.perm ref ids).append_left done) hf'⟩

theorem classifies_sound (w : Watch (StateM σ)) (token : Token)
    (hnum : ∀ id, ∀ caller ∈ c.program.callers id, caller < c.numberLimit)
    (hv : ∀ id, v id = true ↔ c.Tested c.program.callers id) :
    c.Classifies v (fun _ f => f.Sound c c.program.callers) w token fun _ => c.classifyAll :=
  fun _ ids _ _ hf => classifyAll_holding
    (fun id => (c.program.frontEnd_callers_asksOnce w token id).holding)
    (c.program.frontEnd_answersBy w token) hnum hv ids hf

end Criteria

/-! ## Runs -/

/-- What a project answers: its methods, or why it cannot be analysed. -/
def Project.listing (project : Project) : Except QueryError (List SymbolId) :=
  match project.error with
  | some reason => .error (.unavailable project.name reason)
  | none => .ok project.methods

namespace Program

/-- The methods that a project contributes: none if it cannot be analysed. -/
def contribution (p : Program) (ref : ProjectRef) : List SymbolId :=
  match p.listMethods ref with
  | .ok methods => methods
  | .error _ => []

theorem contribution_eq (p : Program) (ref : ProjectRef) :
    p.contribution ref = (p.listMethods ref).toOption.getD [] := by
  rw [contribution]
  cases p.listMethods ref <;> rfl

/-- How a project is left out, if it is. -/
def leftOut (p : Program) (ref : ProjectRef) : Option SkippedProject :=
  (errorOf? (p.listMethods ref)).map fun e => ⟨ref.name, e.message⟩

theorem map_projectRefs {β : Type} (p : Program)
    (g : String → Except QueryError (List SymbolId) → β) :
    (p.projectRefs.map fun ref => g ref.name (p.listMethods ref)) =
      p.projects.map fun project => g project.name project.listing := by
  rw [projectRefs, List.map_map]
  conv_rhs => rw [← List.zipIdx_map_fst 0 p.projects, List.map_map]
  refine List.map_congr_left fun x hx => ?_
  have hget := List.mem_zipIdx_iff_getElem?.1 hx
  cases herror : x.1.error with
  | none => simp only [Function.comp_apply, listMethods, hget, herror, Project.listing]
  | some reason => simp only [Function.comp_apply, listMethods, hget, herror, Project.listing]

theorem flatMap_projectRefs {β : Type} (p : Program) (g : String → List SymbolId → List β) :
    (p.projectRefs.flatMap fun ref => g ref.name (p.contribution ref)) =
      p.projects.flatMap fun project =>
        g project.name (if project.error.isNone then project.methods else []) := by
  simp only [List.flatMap_def, contribution_eq]
  rw [p.map_projectRefs fun name listing => g name (listing.toOption.getD [])]
  congr 1
  refine List.map_congr_left fun project _ => ?_
  rw [Project.listing]
  cases project.error <;> rfl

end Program

namespace Criteria

variable {c : Criteria} {v : SymbolId → Bool} {know : List SymbolId → Findings → Prop}
  {classifier : Classifier (StateM σ)} {done : List SymbolId} {refs refs' : List ProjectRef}
  {s s' s'' : RunState}

/-- Some projects add their methods to what a run has done, each on the side that `v` says. -/
structure Adds (c : Criteria) (v : SymbolId → Bool) (refs : List ProjectRef) (s s' : RunState) :
    Prop where
  tested : s'.outcome.tested = s.outcome.tested ++ refs.flatMap fun ref =>
    ((c.program.contribution ref).filter v).map (c.describe ref)
  untested : s'.outcome.untested = s.outcome.untested ++ refs.flatMap fun ref =>
    ((c.program.contribution ref).filter (!v ·)).map (c.describe ref)
  claimed : s'.claimed = s.claimed ++ refs.flatMap c.program.contribution
  analyzed : s'.outcome.projectsAnalyzed =
    s.outcome.projectsAnalyzed + .ofNat ((refs.map c.program.leftOut).countP Option.isNone)
  skipped : s'.outcome.skippedProjects =
    s.outcome.skippedProjects ++ (refs.map c.program.leftOut).filterMap id

theorem Adds.trans (h : c.Adds v refs s s') (h' : c.Adds v refs' s' s'') :
    c.Adds v (refs ++ refs') s s'' where
  tested := by rw [h'.tested, h.tested, List.flatMap_append, List.append_assoc]
  untested := by rw [h'.untested, h.untested, List.flatMap_append, List.append_assoc]
  claimed := by rw [h'.claimed, h.claimed, List.flatMap_append, List.append_assoc]
  analyzed := by
    rw [h'.analyzed, h.analyzed, List.map_append, List.countP_append, UInt64.ofNat_add,
      UInt64.add_assoc]
  skipped := by
    rw [h'.skipped, h.skipped, List.map_append, List.filterMap_append, List.append_assoc]

theorem runProjectBy_adds {w : Watch (StateM σ)} {token : Token}
    (hclassifies : c.Classifies v know w token classifier) (ref : ProjectRef)
    (hs : know done s.findings) (hnew : (s.claimed ++ c.program.contribution ref).Nodup) :
    Holding w token (c.runProjectBy classifier (c.program.frontEnd w) token ref s) fun s' =>
      c.Adds v [ref] s s' ∧ know (done ++ c.program.contribution ref) s'.findings := by
  unfold runProjectBy
  refine (c.program.frontEnd_methods_asksOnce w token ref).holding.bind fun r hr => ?_
  subst hr
  cases hlist : c.program.listMethods ref with
  | error e =>
    have hnone : c.program.contribution ref = [] := by rw [Program.contribution, hlist]
    have hout : c.program.leftOut ref = some ⟨ref.name, e.message⟩ := by
      rw [Program.leftOut, hlist, errorOf?_error, Option.map_some]
    refine .pure ⟨⟨?_, ?_, by simp [hnone], ?_, ?_⟩, by rwa [hnone, List.append_nil]⟩
    · simp [hnone, Outcome.skip]
    · simp [hnone, Outcome.skip]
    · simp [hout, Outcome.skip]
    · simp [hout, Outcome.skip]
  | ok methods =>
    have hsome : c.program.contribution ref = methods := by rw [Program.contribution, hlist]
    have hin : c.program.leftOut ref = none := by
      rw [Program.leftOut, hlist, errorOf?_ok, Option.map_none]
    rw [hsome, List.nodup_append] at hnew
    -- no method is listed twice, so all of them are new
    have hfresh : firstNew s.claimed methods = methods :=
      firstNew_eq_self hnew.2.1 fun id hid hclaimed => hnew.2.2 id hclaimed id hid rfl
    dsimp only
    rw [hfresh]
    refine (hclassifies ref methods done s.findings hs).bind fun r hr => ?_
    obtain ⟨r, f⟩ := r
    obtain ⟨rfl, hf⟩ := hr
    have hzip : methods.zip (methods.map v) = methods.map fun id => (id, v id) := by
      simpa using List.zip_map' (f := fun id => id) (g := v) (l := methods)
    refine .pure ⟨⟨?_, ?_, by simp [hsome], ?_, ?_⟩, by rwa [hsome]⟩
    · simp [Outcome.merge, partOf, foldl_add, Outcome.empty, hzip, hsome, List.filter_map,
        Function.comp_def]
    · simp [Outcome.merge, partOf, foldl_add, Outcome.empty, hzip, hsome, List.filter_map,
        Function.comp_def]
    · simp [Outcome.merge, partOf, hin]
    · simp [Outcome.merge, partOf, foldl_add, Outcome.empty, hin]

theorem runProjectsBy_adds {w : Watch (StateM σ)} {token : Token}
    (hclassifies : c.Classifies v know w token classifier) (refs : List ProjectRef)
    (hs : know done s.findings)
    (hnew : (s.claimed ++ refs.flatMap c.program.contribution).Nodup) :
    Holding w token (c.runProjectsBy classifier w (c.program.frontEnd w) none token refs s) fun r =>
      ∃ s', r = .ok s' ∧ c.Adds v refs s s' ∧
        know (done ++ refs.flatMap c.program.contribution) s'.findings := by
  induction refs generalizing s done with
  | nil =>
    exact .pure ⟨s, rfl, ⟨by simp, by simp, by simp, by simp, by simp⟩, by simpa using hs⟩
  | cons ref refs ih =>
    rw [List.flatMap_cons, ← List.append_assoc] at hnew
    have hone := runProjectBy_adds hclassifies ref hs (List.nodup_append.1 hnew).1
    refine hone.bind fun s' hs' => ?_
    obtain ⟨hadds, hknow⟩ := hs'
    have hclaimed : s'.claimed = s.claimed ++ c.program.contribution ref := by
      simpa using hadds.claimed
    refine (ih hknow (hclaimed ▸ hnew)).mono ?_
    rintro r ⟨s'', rfl, hadds', hknow'⟩
    rw [List.append_assoc, ← List.flatMap_cons] at hknow'
    exact ⟨s'', rfl, hadds.trans hadds', hknow'⟩

/-- A run adds all projects to an empty outcome, and knows in the end what is known after all their
methods. -/
theorem runBy_adds {w : Watch (StateM σ)} {token : Token}
    (hclassifies : c.Classifies v know w token classifier) (hstart : know [] {})
    (hnew : (c.program.projectRefs.flatMap c.program.contribution).Nodup) :
    Holding w token (c.runBy classifier w (c.program.frontEnd w) none token) fun r =>
      ∃ s, r = .ok (finish s) ∧
        c.Adds v c.program.projectRefs { outcome := Outcome.empty c.propagation } s ∧
        know (c.program.projectRefs.flatMap c.program.contribution) s.findings := by
  have hall := runProjectsBy_adds (s := { outcome := Outcome.empty c.propagation }) hclassifies
    c.program.projectRefs hstart hnew
  refine hall.bind fun r hr => ?_
  obtain ⟨s, rfl, hs⟩ := hr
  exact .pure ⟨s, rfl, hs⟩

end Criteria

end TestReach
