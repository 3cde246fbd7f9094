import TestReach.Proofs.Answer

/-!
# Cancelled runs

A token without a deadline fails for one reason only: its family is cancelled. The moments at which
this may happen during a run are the checks of the token, one for each question, and they are
counted from the start of the run (`Watch.cancelledAt`).

A run that may be cancelled is compared with one whose token holds throughout. As long as no
question is refused the two go the same way (`KeepsPace`). The visit in which a question is refused
is left out as a whole, and so are all visits after it, because a family that is cancelled stays so
(`Watch.Latches`). What the cancelled run reports is therefore the beginning of what the other
reports (`Truncates`).
-/

namespace TestReach

variable {σ τ α β : Type}

/-! ## Moments of a run -/

namespace Watch

variable (w : Watch (StateM σ)) (token : Token) (start : σ)

theorem afterChecks_succ (n : Nat) :
    w.afterChecks token (n + 1) start = ((w.check token).run (w.afterChecks token n start)).2 := by
  induction n generalizing start with
  | zero => rfl
  | succ n ih => exact ih _

/-- Whether the family of a token is cancelled at a check that comes after `n` others. -/
def cancelledAt (n : Nat) : Bool :=
  ((w.cancelled token.family).run (w.afterChecks token n start)).1

/-- A family that is cancelled at one check is cancelled at all later ones. -/
def Latches : Prop :=
  ∀ n m, n ≤ m → w.cancelledAt token start n = true → w.cancelledAt token start m = true

/-- The family was cancelled at one of the first `n` checks. -/
def CancelledWithin (n : Nat) : Prop :=
  ∃ k < n, w.cancelledAt token start k = true

variable {w token start}

theorem CancelledWithin.mono {n m : Nat} (h : w.CancelledWithin token start n) (hle : n ≤ m) :
    w.CancelledWithin token start m := by
  obtain ⟨k, hk, hc⟩ := h
  exact ⟨k, hk.trans_le hle, hc⟩

theorem check_eq (hdeadline : token.deadline = none) (n : Nat) :
    ((w.check token).run (w.afterChecks token n start)).1 =
      if w.cancelledAt token start n then .error .cancelled else .ok () := by
  have hstatus : ((w.check token).run (w.afterChecks token n start)).1 =
      token.status ((w.now).run ((w.cancelled token.family).run (w.afterChecks token n start)).2).1
        (w.cancelledAt token start n) := rfl
  rw [hstatus, Token.status, hdeadline]

end Watch

/-! ## Recorded questions -/

/-- The state of a recorded run: there was one check for each question, and a question at whose
check the family was cancelled was refused. -/
structure OnRecord (w : Watch (StateM σ)) (token : Token) (start : σ) (s : σ × List Event) :
    Prop where
  world : s.1 = w.afterChecks token s.2.length start
  refused : ∀ k e, s.2[k]? = some e → w.cancelledAt token start k = true →
    e.failure? = some .cancelled

theorem OnRecord.start (w : Watch (StateM σ)) (token : Token) (start : σ) :
    OnRecord w token start (start, []) :=
  ⟨rfl, by simp⟩

theorem OnRecord.concat {w : Watch (StateM σ)} {token : Token} {start : σ} {s : σ × List Event}
    (h : OnRecord w token start s) {e : Event}
    (he : w.cancelledAt token start s.2.length = true → e.failure? = some .cancelled) :
    OnRecord w token start (w.afterChecks token (s.2.length + 1) start, s.2 ++ [e]) := by
  refine ⟨by rw [List.length_append, List.length_singleton], fun k e' hk hc => ?_⟩
  rcases Nat.lt_trichotomy k s.2.length with hlt | rfl | hgt
  · rw [List.getElem?_append_left hlt] at hk
    exact h.refused k e' hk hc
  · rw [List.getElem?_concat_length] at hk
    obtain rfl := Option.some.inj hk
    exact he hc
  · have hlen : (s.2 ++ [e]).length ≤ k := by simpa using Nat.succ_le_of_lt hgt
    rw [List.getElem?_eq_none hlen] at hk
    cases hk

theorem AsksOnce.noting_run {w : Watch (StateM σ)} {token : Token} {start : σ}
    {answer : Except QueryError (List SymbolId)}
    {x : StateM σ (Except QueryError (List SymbolId))} (hx : AsksOnce w token answer x)
    (hdeadline : token.deadline = none) {s : σ × List Event} (hs : OnRecord w token start s)
    (event : Except QueryError (List SymbolId) → Event) :
    let given := if w.cancelledAt token start s.2.length then .error .cancelled else answer
    (noting event x).run s =
      (given, (w.afterChecks token (s.2.length + 1) start, s.2 ++ [event given])) := by
  have hrun := hx s.1
  rw [hs.world, w.check_eq hdeadline, ← w.afterChecks_succ] at hrun
  have hnoting : (noting event x).run s =
      ((x.run s.1).1, ((x.run s.1).2, s.2 ++ [event (x.run s.1).1])) := rfl
  rw [hnoting, hs.world, hrun]
  cases w.cancelledAt token start s.2.length <;> rfl

/-! ## Keeping pace -/

section KeepsPace

variable (w : Watch (StateM σ)) (token : Token) (start : σ) (w' : Watch (StateM τ))
  (token' : Token)

/-- While its token is not cancelled, `x` goes the way of `y`, whose token holds. -/
def KeepsPace (x : StateM (σ × List Event) α) (y : StateM τ α) : Prop :=
  ∀ s st, OnRecord w token start s → w'.HoldsFrom token' st →
    OnRecord w token start (x.run s).2 ∧ s.2 <+: (x.run s).2.2 ∧
      w'.HoldsFrom token' (y.run st).2 ∧
      (w.CancelledWithin token start (x.run s).2.2.length ∨ (x.run s).1 = (y.run st).1)

variable {w token start w' token'}

namespace KeepsPace

theorem bind {x : StateM (σ × List Event) α} {y : StateM τ α}
    {f : α → StateM (σ × List Event) β} {g : α → StateM τ β}
    (h : KeepsPace w token start w' token' x y)
    (hf : ∀ a, KeepsPace w token start w' token' (f a) (g a)) :
    KeepsPace w token start w' token' (x >>= f) (y >>= g) := by
  intro s st hs hst
  obtain ⟨hs₁, hlog₁, hst₁, hpace₁⟩ := h s st hs hst
  -- the two may go on with different values, so the second step is looked at from each side
  obtain ⟨hs₂, hlog₂, -, hpace₂⟩ := hf (x.run s).1 _ _ hs₁ hst₁
  obtain ⟨-, -, hst₂, -⟩ := hf (y.run st).1 _ _ hs₁ hst₁
  refine ⟨hs₂, hlog₁.trans hlog₂, hst₂, ?_⟩
  rcases hpace₁ with hcancelled | hsame
  · exact .inl (hcancelled.mono hlog₂.length_le)
  · refine hpace₂.imp_right fun hvalue => hvalue.trans ?_
    rw [hsame]
    rfl

theorem compositional :
    Compositional (KeepsPace w token start w' token') where
  pure _ _ _ hs hst := ⟨hs, List.prefix_rfl, hst, .inr rfl⟩
  bind := bind

theorem question (hdeadline : token.deadline = none)
    {event : Except QueryError (List SymbolId) → Event}
    (hevent : ∀ answer, (event answer).failure? = errorOf? answer)
    {answer : Except QueryError (List SymbolId)}
    {x : StateM σ (Except QueryError (List SymbolId))}
    {y : StateM τ (Except QueryError (List SymbolId))} (hx : AsksOnce w token answer x)
    (hy : AsksOnce w' token' answer y) :
    KeepsPace w token start w' token' (noting event x) y := by
  intro s st hs hst
  obtain ⟨hanswer, hst'⟩ := hy.holding st hst
  rw [hx.noting_run hdeadline hs event]
  refine ⟨hs.concat fun hc => ?_, List.prefix_append _ _, hst', ?_⟩
  · rw [hevent, if_pos hc, errorOf?_error]
  · cases hc : w.cancelledAt token start s.2.length with
    | true => exact .inl ⟨s.2.length, by simp, hc⟩
    | false => exact .inr (by simp [hanswer])

end KeepsPace

/-! ## Visits that are cut short -/

theorem Visit.failure?_eq (v : Visit) : v.failure? = firstFailure v.events := by
  rw [Visit.failure?, Visit.events, ← List.singleton_append, firstFailure_append]
  cases v.listing <;> rfl

/-- A visit that ends after the family was cancelled is not finished. -/
theorem OnRecord.visit_not_finished (hlatch : w.Latches token start) {world : σ}
    {log : List Event} {v : Visit} (h : OnRecord w token start (world, log ++ v.events))
    (hc : w.CancelledWithin token start (log ++ v.events).length) : v.failure? ≠ none := by
  obtain ⟨k, hk, hflag⟩ := hc
  -- the first question of the visit, or a later one of it, was put after that
  obtain ⟨j, hj, hkj⟩ : ∃ j < v.events.length, k ≤ log.length + j := by
    by_cases hlog : k < log.length
    · exact ⟨0, by simp [Visit.events], by omega⟩
    · rw [List.length_append] at hk
      exact ⟨k - log.length, by omega, by omega⟩
  have hget : (log ++ v.events)[log.length + j]? = some (v.events.get ⟨j, hj⟩) := by
    simp [hj]
  have hrefused := h.refused _ _ hget (hlatch _ _ hkj hflag)
  intro hnone
  rw [v.failure?_eq, firstFailure_eq_none_iff] at hnone
  have hanswered := hnone _ (List.get_mem v.events ⟨j, hj⟩)
  rw [hrefused] at hanswered
  cases hanswered

end KeepsPace

/-- What a visit reports is put after what was reported before. -/
theorem Visit.Takes.grows {c : Criteria} {v : Visit} {s s' : RunState} (h : v.Takes c s s') :
    s.outcome.tested <+: s'.outcome.tested ∧ s.outcome.untested <+: s'.outcome.untested := by
  cases h with
  | leftOut hv f => exact ⟨List.prefix_rfl, List.prefix_rfl⟩
  | finished hv hl f => exact ⟨List.prefix_append _ _, List.prefix_append _ _⟩

/-- A visit that is not finished reports nothing. -/
theorem Visit.Takes.unchanged {c : Criteria} {v : Visit} {s s' : RunState} (h : v.Takes c s s')
    (hv : v.failure? ≠ none) :
    s'.outcome.tested = s.outcome.tested ∧ s'.outcome.untested = s.outcome.untested := by
  cases h with
  | leftOut hv f => exact ⟨rfl, rfl⟩
  | finished hv' hl f => exact absurd hv' hv

/-- The state of a run that may be cancelled, after `n` questions, beside that of a run that is
not: they are the same, or the first reports the beginning of what the second reports. -/
structure Truncates (w : Watch (StateM σ)) (token : Token) (start : σ) (n : Nat)
    (s s' : RunState) : Prop where
  pace : w.CancelledWithin token start n ∨ s = s'
  tested : s.outcome.tested <+: s'.outcome.tested
  untested : s.outcome.untested <+: s'.outcome.untested

namespace Criteria

variable {c : Criteria} {w : Watch (StateM σ)} {token : Token} {start : σ}
  {w' : Watch (StateM τ)} {token' : Token}

theorem runProject_keepsPace (hdeadline : token.deadline = none) (ref : ProjectRef)
    (s : RunState) :
    KeepsPace w token start w' token'
      (c.runProject (c.program.frontEnd w).recorded token ref s)
      (c.runProject (c.program.frontEnd w') token' ref s) := by
  refine c.runProject_related KeepsPace.compositional (fun ref => ?_) (fun id => ?_) ref s
  · exact .question hdeadline (fun _ => rfl) (c.program.frontEnd_methods_asksOnce w token ref)
      (c.program.frontEnd_methods_asksOnce w' token' ref)
  · exact .question hdeadline (fun _ => rfl) (c.program.frontEnd_callers_asksOnce w token id)
      (c.program.frontEnd_callers_asksOnce w' token' id)

theorem runProject_grows (front : FrontEnd (StateM τ)) (token : Token) (ref : ProjectRef)
    (s : RunState) : Gives (c.runProject front token ref s) fun s' =>
      s.outcome.tested <+: s'.outcome.tested ∧ s.outcome.untested <+: s'.outcome.untested := by
  intro st
  have hfollows : Follows (c.runProject front.recorded token ref s)
      (c.runProject front token ref s) :=
    c.runProject_related Follows.compositional (fun _ => .noting _ _) (fun _ => .noting _ _) ref s
  obtain ⟨v, -, -, -, htakes⟩ := (c.runProject_notes front token ref s).run st
  rw [← (hfollows st []).1]
  exact htakes.grows

/-- One project more: the run that may be cancelled still reports the beginning of what the other
reports. -/
theorem runProject_truncates (hdeadline : token.deadline = none) (hlatch : w.Latches token start)
    (ref : ProjectRef) {r : σ × List Event} {st : τ} (hr : OnRecord w token start r)
    (hst : w'.HoldsFrom token' st) {s s' : RunState}
    (h : Truncates w token start r.2.length s s') :
    let interrupted := (c.runProject (c.program.frontEnd w).recorded token ref s).run r
    let whole := (c.runProject (c.program.frontEnd w') token' ref s').run st
    OnRecord w token start interrupted.2 ∧ w'.HoldsFrom token' whole.2 ∧
      Truncates w token start interrupted.2.2.length interrupted.1 whole.1 := by
  intro interrupted whole
  obtain ⟨hr₁, hlog, -, -⟩ :=
    runProject_keepsPace (c := c) hdeadline ref s r st hr hst
  obtain ⟨-, -, hst₁, hpace⟩ :=
    runProject_keepsPace (c := c) hdeadline ref s' r st hr hst
  have hgrows := runProject_grows (c := c) (c.program.frontEnd w') token' ref s' st
  refine ⟨hr₁, hst₁, ?_⟩
  by_cases hcancelled : w.CancelledWithin token start interrupted.2.2.length
  · -- the project is left out, so that only the other run may report more
    obtain ⟨events, hevents, v, -, -, rfl, htakes⟩ :=
      c.runProject_notes (c.program.frontEnd w) token ref s r.1 r.2
    have hrecord : OnRecord w token start (interrupted.2.1, r.2 ++ v.events) := hevents ▸ hr₁
    have hv := hrecord.visit_not_finished hlatch (hevents ▸ hcancelled)
    obtain ⟨htested, huntested⟩ := htakes.unchanged hv
    exact ⟨.inl hcancelled, htested ▸ h.tested.trans hgrows.1,
      huntested ▸ h.untested.trans hgrows.2⟩
  · have hsame : s = s' :=
      h.pace.resolve_left fun hc => hcancelled (hc.mono hlog.length_le)
    subst hsame
    have hvalue : interrupted.1 = whole.1 := hpace.resolve_left hcancelled
    rw [hvalue]
    exact ⟨.inr rfl, List.prefix_rfl, List.prefix_rfl⟩

theorem runProjects_truncates (hdeadline : token.deadline = none) (hlatch : w.Latches token start)
    (refs : List ProjectRef) {r : σ × List Event} {st : τ} (hr : OnRecord w token start r)
    (hst : w'.HoldsFrom token' st) {s s' : RunState}
    (h : Truncates w token start r.2.length s s') :
    let interrupted :=
      (c.runProjects w.recorded (c.program.frontEnd w).recorded none token refs s).run r
    let whole := (c.runProjects w' (c.program.frontEnd w') none token' refs s').run st
    OnRecord w token start interrupted.2 ∧
      ∃ t t', interrupted.1 = .ok t ∧ whole.1 = .ok t' ∧
        Truncates w token start interrupted.2.2.length t t' := by
  induction refs generalizing r st s s' with
  | nil => exact ⟨hr, s, s', rfl, rfl, h⟩
  | cons ref refs ih =>
    obtain ⟨hr₁, hst₁, h₁⟩ := runProject_truncates hdeadline hlatch ref hr hst h
    exact ih hr₁ hst₁ h₁

/-- A run whose token is cancelled at some moment, beside a run over the same program whose token
holds throughout: both give an outcome, the lists of the first are the beginnings of the lists of
the second, a project whose listing is asked for when the family is cancelled is left out for that
reason, and still each project is counted or left out. -/
theorem cancelled_run_truncates (c : Criteria) (w : Watch (StateM σ)) (token : Token) (st : σ)
    (hdeadline : token.deadline = none) (hlatch : w.Latches token st) (w' : Watch (StateM τ))
    (token' : Token) (st' : τ) (hholds : w'.HoldsFrom token' st') :
    ∃ o o', ((c.run w (c.program.frontEnd w) none token).run st).1 = .ok o ∧
      ((c.run w' (c.program.frontEnd w') none token').run st').1 = .ok o' ∧
      o.tested <+: o'.tested ∧ o.untested <+: o'.untested ∧
      let vs := c.visits w (c.program.frontEnd w) none token st
      vs.map (·.ref) = c.program.projectRefs ∧
        o.skippedProjects = vs.filterMap Visit.skipped? ∧
        (∀ before v after, vs = before ++ v :: after →
          w.cancelledAt token st (before.flatMap Visit.events).length = true →
          v.skipped? = some ⟨v.ref.name, "analysis cancelled"⟩) ∧
        ∃ n, o.projectsAnalyzed = .ofNat n ∧
          n + o.skippedProjects.length = c.program.projects.length := by
  obtain ⟨hrecord, t, t', ht, ht', htruncates⟩ := runProjects_truncates (c := c) hdeadline hlatch
    c.program.projectRefs (.start w token st) hholds
    (s := { outcome := Outcome.empty c.propagation }) ⟨.inr rfl, List.prefix_rfl, List.prefix_rfl⟩
  have hrecorded := c.run_eq_of_runProjects ht
  have hwhole := c.run_eq_of_runProjects ht'
  have ho : ((c.run w (c.program.frontEnd w) none token).run st).1 = .ok (finish t) := by
    rw [← (c.run_follows w (c.program.frontEnd w) none token st []).1, hrecorded]
  obtain ⟨hrefs, t₁, hacc, ht₁⟩ := c.run_accounting ho
  have hskipped := (congrArg Outcome.skippedProjects ht₁).trans hacc.skipped
  refine ⟨finish t, finish t', ho, by rw [hwhole], htruncates.tested, htruncates.untested, hrefs,
    hskipped, ?_, ?_⟩
  · intro before v after hvs hc
    have hlog := c.run_record ho
    rw [hrecorded, hvs, List.flatMap_append, List.flatMap_cons] at hlog
    -- the listing of the project stands in the record right after the visits before it
    have hget : (before.flatMap Visit.events ++ (v.events ++ after.flatMap Visit.events))[
        (before.flatMap Visit.events).length]? = some (.listed v.ref v.listing) := by
      simp [Visit.events]
    have hrefused := hrecord.refused _ _ (hlog ▸ hget) hc
    have hfailure : v.failure? = some .cancelled := by
      rw [Visit.failure?, show errorOf? v.listing = _ from hrefused, Option.some_or]
    rw [Visit.skipped?, hfailure]
    rfl
  · refine ⟨_, (congrArg Outcome.projectsAnalyzed ht₁).trans hacc.analyzed, ?_⟩
    have hlength := congrArg List.length hrefs
    rw [List.length_map] at hlength
    rw [hskipped, countP_finished_add_skipped, hlength]
    simp [Program.frontEnd, Program.projectRefs]

end Criteria

/-- A watch that counts its checks, and on which every family is cancelled from check `n` on. -/
def Watch.cancelledFrom (n : Nat) : Watch (StateM Nat) where
  now := return 0
  cancelled _ := do
    let checks ← get
    set (checks + 1)
    return decide (n ≤ checks)

theorem Watch.cancelledFrom_latches (n : Nat) (token : Token) :
    (cancelledFrom n).Latches token 0 := by
  have hcount : ∀ k, (cancelledFrom n).afterChecks token k 0 = k := by
    intro k
    induction k with
    | zero => rfl
    | succ k ih =>
      rw [afterChecks_succ, ih]
      rfl
  have hflag : ∀ k, (cancelledFrom n).cancelledAt token 0 k = decide (n ≤ k) := by
    intro k
    rw [cancelledAt, hcount k]
    rfl
  intro k m hkm hk
  rw [hflag] at hk ⊢
  simp only [decide_eq_true_eq] at hk ⊢
  exact hk.trans hkm

/-- A test in a project that is analysed after the one it calls into, and untested methods on both
sides. -/
def testsAfterCore : Solution where
  projects :=
    [{ name := "Tests"
       references := ["Core"]
       types := [{ name := "ServiceTests"
                   methods := [{ name := "covers"
                                 attributes := ["Fact"]
                                 calls := ["Service::run"] },
                               { name := "helper" }] }] },
     { name := "Core"
       types := [{ name := "Service"
                   methods := [{ name := "idle" }, { name := "run" }] }] }]
  externalTypes := [{ name := "Fact" }]

/-- The token is cancelled at the fifth question, while the callers of `helper` are asked for. -/
theorem Criteria.cancelled_run_truncates_testsAfterCore :
    ∃ p, Program.load testsAfterCore = .ok p ∧
      let c : Criteria := ⟨p, .ofNames ["Fact"], .transitive⟩
      let w := Watch.cancelledFrom 4
      let token := (Session.newToken {}).1
      token.deadline = none ∧ w.Latches token 0 ∧
        Session.watch.HoldsFrom token (Session.newToken {}).2 ∧
        ∃ o o', ((c.run w (p.frontEnd w) none token).run 0).1 = .ok o ∧
          ((c.run Session.watch (p.frontEnd Session.watch) none token).run
            (Session.newToken {}).2).1 = .ok o' ∧
          o.tested <+: o'.tested ∧ o.untested <+: o'.untested ∧
          let vs := c.visits w (p.frontEnd w) none token 0
          vs.map (·.ref) = p.projectRefs ∧
            o.skippedProjects = vs.filterMap Visit.skipped? ∧
            (∀ before v after, vs = before ++ v :: after →
              w.cancelledAt token 0 (before.flatMap Visit.events).length = true →
              v.skipped? = some ⟨v.ref.name, "analysis cancelled"⟩) ∧
            ∃ n, o.projectsAnalyzed = .ofNat n ∧
              n + o.skippedProjects.length = p.projects.length := by
  have hloads : (Program.load testsAfterCore).toOption.map (fun _ => ()) = some () := by
    decide +kernel
  have hlatch := Watch.cancelledFrom_latches 4 (Session.newToken {}).1
  have hholds : Session.watch.HoldsFrom (Session.newToken {}).1 (Session.newToken {}).2 :=
    Session.holdsFrom _ rfl rfl
  obtain ⟨p, hload, -⟩ := exists_ok_of_map hloads
  exact ⟨p, hload, rfl, hlatch, hholds,
    Criteria.cancelled_run_truncates ⟨p, .ofNames ["Fact"], .transitive⟩ _ _ _ rfl hlatch
      Session.watch _ _ hholds⟩

end TestReach
