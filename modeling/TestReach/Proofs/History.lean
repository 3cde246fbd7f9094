import TestReach.Proofs.Meets
import TestReach.Proofs.Verdict

/-!
# Histories of classifications

One classifier is asked about methods again and again, under tokens of any kind, and between two
calls the world may change in any way. Each call is an *episode*: the verdicts that were kept before
it, the questions that it put and their answers, what it gave, and the verdicts kept after it. What
a call gives does not depend on the episodes before it: they leave the findings sound, and a sound
table says of a method what a search from it would find.
-/

namespace TestReach

variable {σ : Type}

/-- A call of a classifier: the world at that moment, the token, and the method. -/
structure Call (σ : Type) where
  world : σ
  token : Token
  id : SymbolId

/-- What happens during a call. -/
structure Episode where
  id : SymbolId
  /-- The verdicts kept before the call. -/
  before : Verdicts
  /-- The questions that were put, with their answers. -/
  events : List Event
  answer : Except QueryError Bool
  /-- The verdicts kept after the call. -/
  after : Verdicts

namespace Criteria

/-- The episode of one call, and what is found out after it. -/
def episode (c : Criteria) (front : FrontEnd (StateM σ)) (call : Call σ) (f : Findings) :
    Episode × Findings :=
  let r := ((c.classify (front.callers call.token) call.id f).run call.world).1
  let record :=
    ((c.classify (front.recorded.callers call.token) call.id f).run (call.world, [])).2.2
  ({ id := call.id, before := f.verdicts, events := record, answer := r.1,
     after := r.2.verdicts }, r.2)

/-- The episodes of calls that are made one after the other, whatever became of those before. -/
def episodes (c : Criteria) (front : FrontEnd (StateM σ)) : List (Call σ) → Findings → List Episode
  | [], _ => []
  | call :: calls, f =>
    let (e, f') := c.episode front call f
    e :: episodes c front calls f'

variable {c : Criteria} {callersOf : SymbolId → List SymbolId}

theorem episodes_ids (c : Criteria) (front : FrontEnd (StateM σ)) (calls : List (Call σ))
    (f : Findings) : (c.episodes front calls f).map (·.id) = calls.map (·.id) := by
  induction calls generalizing f with
  | nil => rfl
  | cons call calls ih => exact congrArg (call.id :: ·) (ih _)

/-- A call gives no verdict exactly when one of its questions fails, and then for that reason. -/
theorem episode_failure (c : Criteria) (front : FrontEnd (StateM σ)) (call : Call σ)
    (f : Findings) :
    firstFailure (c.episode front call f).1.events =
      errorOf? (c.episode front call f).1.answer := by
  have hrec := (c.classify_asking (front.callers call.token) call.id f).run call.world
  have hask : ∀ id, Follows (front.recorded.callers call.token id) (front.callers call.token id) :=
    fun id => .noting (.asked id) _
  have hplain := (c.classify_related Follows.compositional hask call.id f call.world []).1
  have he : (c.episode front call f).1.answer =
      ((c.classify (front.recorded.callers call.token) call.id f).run (call.world, [])).1.1 :=
    congrArg Prod.fst hplain.symm
  rw [he]
  exact hrec.failure

/-- What is known before a call does not matter as long as it is sound, and it stays sound. -/
theorem episode_classified {front : FrontEnd (StateM σ)}
    (hfront : ∀ token, AnswersBy (front.callers token) callersOf)
    (hnum : ∀ id, ∀ caller ∈ callersOf id, caller < c.numberLimit) (call : Call σ) {f : Findings}
    (hf : f.Sound c callersOf) :
    c.Classified callersOf f call.id
      ((c.episode front call f).1.answer, (c.episode front call f).2) :=
  classify_gives (hfront call.token) hnum hf call.id call.world

/-- What holds of the episode of every call from sound findings holds along every history. -/
theorem episodes_induct {front : FrontEnd (StateM σ)} {post : Episode → Prop}
    (hfront : ∀ token, AnswersBy (front.callers token) callersOf)
    (hnum : ∀ id, ∀ caller ∈ callersOf id, caller < c.numberLimit)
    (hpost : ∀ call f, f.Sound c callersOf → post (c.episode front call f).1)
    (calls : List (Call σ)) {f : Findings} (hf : f.Sound c callersOf) :
    ∀ e ∈ c.episodes front calls f, post e := by
  induction calls generalizing f with
  | nil => intro e he; exact absurd he List.not_mem_nil
  | cons call calls ih =>
    intro e he
    rcases List.mem_cons.1 he with rfl | he
    · exact hpost call f hf
    · exact ih (episode_classified hfront hnum call hf).sound e he

/-- Whatever a classifier was asked before and whichever questions failed: a verdict says whether a
test reaches the method, a call that fails leaves the verdicts as they were, and a call all of whose
questions are answered gives a verdict. The callers that a front end names are fixed, and symbols
are numbered with 32 bits. -/
theorem verdict_independent_of_history (p : Program) (markers : MarkerSet)
    (front : FrontEnd (StateM σ)) (callersOf : SymbolId → List SymbolId)
    (hfront : ∀ token, AnswersBy (front.callers token) callersOf)
    (hnum : ∀ id, ∀ caller ∈ callersOf id, caller < UInt32.size) (calls : List (Call σ)) :
    let history := Criteria.episodes ⟨p, markers, .transitive⟩ front calls {}
    history.map (·.id) = calls.map (·.id) ∧
      ∀ e ∈ history,
        (∀ b, e.answer = .ok b →
          (b = true ↔ ∃ test, Relation.ReflTransGen (CalledBy callersOf) e.id test ∧
            p.isTest markers test = true)) ∧
        (∀ err, e.answer = .error err → e.after = e.before) ∧
        ((∀ q ∈ e.events, q.failure? = none) → ∃ b, e.answer = .ok b) := by
  refine ⟨episodes_ids _ front calls {}, ?_⟩
  have hlimit : ∀ id, ∀ caller ∈ callersOf id,
      caller < Criteria.numberLimit ⟨p, markers, .transitive⟩ :=
    fun id caller hc => Nat.lt_of_lt_of_le (hnum id caller hc) (Nat.le_max_right _ _)
  refine episodes_induct hfront hlimit (fun call f hf => ?_) calls Findings.sound_new
  have hcl := episode_classified hfront hlimit call hf
  refine ⟨hcl.right, hcl.kept, fun hq => ?_⟩
  have hnone := episode_failure ⟨p, markers, .transitive⟩ front call f
  rw [firstFailure_eq_none_iff.2 hq] at hnone
  cases ha : (Criteria.episode ⟨p, markers, .transitive⟩ front call f).1.answer with
  | ok b => exact ⟨b, rfl⟩
  | error e =>
    rw [ha] at hnone
    exact absurd hnone (by simp)

/-- Two methods that call each other and a test that calls one of them, and a method that nothing
calls. -/
def testedLoop : Solution where
  projects :=
    [{ name := "App"
       types := [{ name := "Suite"
                   methods := [{ name := "covers"
                                 attributes := ["Test"]
                                 calls := ["Core::pong"] }] },
                 { name := "Core"
                   methods := [{ name := "ping", calls := ["Core::pong"] },
                               { name := "pong", calls := ["Core::ping"] },
                               { name := "idle" }] }] }]
  externalTypes := [{ name := "Test" }]

/-- `pong` three times, then `ping` and `idle`; the token is cancelled at the first call and at the
third. -/
def loopCalls : List (Call Session) :=
  let token : Token := { family := 0, started := 0, deadline := none }
  [⟨{ cancelled := [0] }, token, 5⟩, ⟨{}, token, 5⟩, ⟨{ cancelled := [0] }, token, 5⟩,
    ⟨{}, token, 4⟩, ⟨{}, token, 6⟩]

/-- The third call puts no question, and the fourth stops at the verdict that is kept of `pong`. -/
theorem verdict_independent_of_history_testedLoop :
    ∃ p, Program.load testedLoop = .ok p ∧
      let front := p.frontEnd Session.watch
      let history := Criteria.episodes ⟨p, .ofNames ["Test"], .transitive⟩ front loopCalls {}
      (∀ token, AnswersBy (front.callers token) p.callers) ∧
        (∀ id, ∀ caller ∈ p.callers id, caller < UInt32.size) ∧
        history.map (·.answer) =
          [.error .cancelled, .ok true, .ok true, .ok true, .ok false] ∧
        history.map (·.events.length) = [1, 1, 0, 1, 1] ∧
        ∀ e ∈ history,
          (∀ b, e.answer = .ok b →
            (b = true ↔ ∃ test, Relation.ReflTransGen (CalledBy p.callers) e.id test ∧
              p.isTest (.ofNames ["Test"]) test = true)) ∧
          (∀ err, e.answer = .error err → e.after = e.before) ∧
          ((∀ q ∈ e.events, q.failure? = none) → ∃ b, e.answer = .ok b) := by
  have hfound : (Program.load testedLoop).toOption.map (fun p =>
      let history := Criteria.episodes ⟨p, .ofNames ["Test"], .transitive⟩
        (p.frontEnd Session.watch) loopCalls {}
      (history.map (·.answer), history.map (·.events.length),
        p.callerIndex.toList.all (·.all (· < UInt32.size)))) =
      some ([.error .cancelled, .ok true, .ok true, .ok true, .ok false], [1, 1, 0, 1, 1],
        true) := by
    decide +kernel
  obtain ⟨p, hload, hfound⟩ := exists_ok_of_map hfound
  simp only [Prod.mk.injEq] at hfound
  obtain ⟨hanswers, hquestions, hsmall⟩ := hfound
  have hfront := p.frontEnd_answersBy Session.watch
  have hnum : ∀ id, ∀ caller ∈ p.callers id, caller < UInt32.size := by
    intro id caller hcaller
    rw [Program.callers, Array.getD_eq_getD_getElem?] at hcaller
    cases hentry : p.callerIndex[id]? with
    | none =>
      rw [hentry] at hcaller
      exact absurd hcaller List.not_mem_nil
    | some callers =>
      rw [hentry] at hcaller
      have hall := List.all_eq_true.1 hsmall callers (Array.mem_of_getElem? hentry).val
      exact of_decide_eq_true (List.all_eq_true.1 hall caller hcaller)
  exact ⟨p, hload, hfront, hnum, hanswers, hquestions,
    (verdict_independent_of_history p (.ofNames ["Test"]) _ _ hfront hnum loopCalls).2⟩

end Criteria

end TestReach
