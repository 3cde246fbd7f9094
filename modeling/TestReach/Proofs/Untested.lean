import TestReach.Proofs.Answer
import TestReach.Proofs.History
import TestReach.Proofs.Queries

/-!
# Untested for good

A search that finds no test records every method that it met as untested. From then on the verdict
on these methods, and on all that call one of them through any number of calls, is in the table:
`Criteria.untested_settles_callers`. It stays there whatever the classifier is asked in between, and
it is given without a question, so that a token that no longer holds makes no difference.
-/

namespace TestReach

open Relation

variable {σ : Type}

/-! ## Tables that grow -/

namespace Verdicts

variable {c : Criteria} {callersOf : SymbolId → List SymbolId} {v v' v'' : Verdicts} {id : SymbolId}

/-- What `v` says of a method `v'` says too. -/
def Keeps (v v' : Verdicts) : Prop :=
  ∀ id b, v.get? id = some b → v'.get? id = some b

theorem Keeps.refl (v : Verdicts) : v.Keeps v :=
  fun _ _ h => h

theorem Keeps.trans (h : v.Keeps v') (h' : v'.Keeps v'') : v.Keeps v'' :=
  fun id b hb => h' id b (h id b hb)

/-- The methods recorded as untested are no tests and, with each of them, have all that call it. -/
structure Conclusive (p : Program) (markers : MarkerSet) (v : Verdicts) : Prop where
  /-- No method has two verdicts. -/
  single : ∀ id ∈ v.tested, id ∉ v.untested
  unmarked : ∀ id, v.get? id = some false →
    ¬∃ T, .resolved T ∈ p.attributes id ∧ p.IsMarker markers T
  closed : ∀ id, v.get? id = some false → ∀ caller, id ∈ p.callees caller →
    v.get? caller = some false

theorem get?_eq_some_true_iff : v.get? id = some true ↔ id ∈ v.tested := by
  refine ⟨mem_tested_of_get?, fun h => ?_⟩
  rw [get?, if_pos (List.contains_iff_mem.2 h)]

theorem Sound.not_mem_untested (h : v.Sound c callersOf) (hid : id ∈ v.tested) :
    id ∉ v.untested :=
  fun hu => h.not_reached hu (h.tested id hid)

theorem Sound.get?_eq_some_false_iff (h : v.Sound c callersOf) :
    v.get? id = some false ↔ id ∈ v.untested := by
  refine ⟨mem_untested_of_get?, fun hu => ?_⟩
  have ht : id ∉ v.tested := fun ht => h.not_mem_untested ht hu
  rw [get?, if_neg (fun hc => ht (List.contains_iff_mem.1 hc)),
    if_pos (List.contains_iff_mem.2 hu)]

/-- A sound table keeps what it has grown from. -/
theorem Sound.keeps (h : v'.Sound c callersOf) (ht : v.tested ⊆ v'.tested)
    (hu : v.untested ⊆ v'.untested) : v.Keeps v' := by
  intro id b hb
  cases b with
  | true => exact get?_eq_some_true_iff.2 (ht (mem_tested_of_get? hb))
  | false => exact h.get?_eq_some_false_iff.2 (hu (mem_untested_of_get? hb))

end Verdicts

/-! ## What a classification records -/

namespace Criteria

variable {c : Criteria} {callersOf : SymbolId → List SymbolId} {f : Findings} {id : SymbolId}
  {ask : SymbolId → StateM σ (Except QueryError (List SymbolId))}

/-- After a classification of `id` the table has grown, and a negative verdict is in it. -/
structure Records (f : Findings) (id : SymbolId) (r : Except QueryError Bool × Findings) :
    Prop where
  tested : f.verdicts.tested ⊆ r.2.verdicts.tested
  untested : f.verdicts.untested ⊆ r.2.verdicts.untested
  own : r.1 = .ok false → id ∈ r.2.verdicts.untested

theorem concludes_records {e : SearchEnd} (h : c.EndsWell callersOf f.verdicts id e)
    (d : Detector) :
    Records f id (.ok (concludes f.verdicts id e).1, ⟨d, (concludes f.verdicts id e).2⟩) := by
  cases e with
  | found => exact ⟨List.subset_cons_self _ _, List.Subset.refl _, by rintro ⟨⟩⟩
  | exhausted met =>
    refine ⟨List.Subset.refl _, fun m hm => Verdicts.mem_addUntested.2 (.inr hm), fun _ => ?_⟩
    exact Verdicts.mem_addUntested.2 (.inl h.1)

theorem classifyTransitive_records (hask : AnswersBy ask callersOf)
    (hnum : ∀ id, ∀ caller ∈ callersOf id, caller < c.numberLimit) (hf : f.Sound c callersOf)
    (hid : c.isTest id = false) : Gives (c.classifyTransitive ask id f) (Records f id) := by
  refine (classifyTransitive_cases hask hnum hf hid).mono ?_
  rintro _ (⟨verdict, hg, rfl⟩ | ⟨d, -, ⟨e, rfl⟩ | ⟨e, hends, rfl⟩⟩)
  · refine ⟨List.Subset.refl _, List.Subset.refl _, ?_⟩
    rintro ⟨⟩
    exact Verdicts.mem_untested_of_get? hg
  · exact ⟨List.Subset.refl _, List.Subset.refl _, by rintro ⟨⟩⟩
  · exact concludes_records hends d

theorem classify_records (hask : AnswersBy ask callersOf)
    (hnum : ∀ id, ∀ caller ∈ callersOf id, caller < c.numberLimit)
    (hmode : c.propagation = .transitive) (hf : f.Sound c callersOf) (id : SymbolId) :
    Gives (c.classify ask id f) (Records f id) := by
  obtain ⟨d, hd, hs⟩ := isMarker_eq hf.detector id
  have hf' : Findings.Sound c callersOf { f with detector := d } := ⟨hs, hf.verdicts⟩
  unfold classify
  rw [hd]
  cases hid : c.isTest id with
  | true => exact .pure ⟨List.Subset.refl _, List.Subset.refl _, by rintro ⟨⟩⟩
  | false =>
    simp only [hmode]
    exact (classifyTransitive_records hask hnum hf' hid).mono fun r h =>
      ⟨h.tested, h.untested, h.own⟩

/-- Of a method that is recorded as untested nothing is asked. -/
theorem classify_of_untested (ask : SymbolId → StateM σ (Except QueryError (List SymbolId)))
    (hmode : c.propagation = .transitive) (hf : f.Sound c callersOf)
    (hid : id ∈ f.verdicts.untested) :
    ∃ d, c.classify ask id f = pure (.ok false, { f with detector := d }) := by
  obtain ⟨d, hd, -⟩ := isMarker_eq hf.detector id
  refine ⟨d, ?_⟩
  unfold classify
  rw [hd, hf.verdicts.unmarked id hid]
  simp only [hmode]
  unfold classifyTransitive
  rw [hf.verdicts.get?_eq_some_false_iff.2 hid]

/-! ## Along a history -/

variable {front : FrontEnd (StateM σ)}

theorem episode_keeps (hfront : ∀ token, AnswersBy (front.callers token) callersOf)
    (hnum : ∀ id, ∀ caller ∈ callersOf id, caller < c.numberLimit)
    (hmode : c.propagation = .transitive) (call : Call σ) (hf : f.Sound c callersOf) :
    f.verdicts.Keeps (c.episode front call f).2.verdicts := by
  have hrecords := classify_records (hfront call.token) hnum hmode hf call.id call.world
  exact (episode_classified hfront hnum call hf).sound.verdicts.keeps hrecords.tested
    hrecords.untested

/-- Each episode of a history starts from sound findings, which keep what was known at the start. -/
theorem exists_episode_of_mem (hfront : ∀ token, AnswersBy (front.callers token) callersOf)
    (hnum : ∀ id, ∀ caller ∈ callersOf id, caller < c.numberLimit)
    (hmode : c.propagation = .transitive) (calls : List (Call σ)) (hf : f.Sound c callersOf) :
    ∀ e ∈ c.episodes front calls f, ∃ call g, e = (c.episode front call g).1 ∧
      g.Sound c callersOf ∧ f.verdicts.Keeps g.verdicts := by
  induction calls generalizing f with
  | nil => exact fun e he => absurd he List.not_mem_nil
  | cons call calls ih =>
    intro e he
    rcases List.mem_cons.1 he with rfl | he
    · exact ⟨call, f, rfl, hf, .refl _⟩
    · obtain ⟨call', g, rfl, hg, hkeeps⟩ := ih (episode_classified hfront hnum call hf).sound e he
      exact ⟨call', g, rfl, hg, (episode_keeps hfront hnum hmode call hf).trans hkeeps⟩

theorem episode_of_untested (hmode : c.propagation = .transitive) (front : FrontEnd (StateM σ))
    (call : Call σ) (hf : f.Sound c callersOf) (hid : call.id ∈ f.verdicts.untested) :
    (c.episode front call f).1.answer = .ok false ∧ (c.episode front call f).1.events = [] := by
  obtain ⟨d, hplain⟩ := classify_of_untested (front.callers call.token) hmode hf hid
  obtain ⟨d', hrecorded⟩ := classify_of_untested (front.recorded.callers call.token) hmode hf hid
  simp only [episode, hplain, hrecorded]
  exact ⟨rfl, rfl⟩

/-- What an episode means for a later one: the table stays, and after a negative verdict all that
lead to the method have it too. -/
def SettledFor (callersOf : SymbolId → List SymbolId) (e later : Episode) : Prop :=
  e.after.Keeps later.before ∧
    (e.answer = .ok false → ReflTransGen (CalledBy callersOf) e.id later.id →
      later.answer = .ok false ∧ later.events = [])

theorem episodes_pairwise (hfront : ∀ token, AnswersBy (front.callers token) callersOf)
    (hnum : ∀ id, ∀ caller ∈ callersOf id, caller < c.numberLimit)
    (hmode : c.propagation = .transitive) (calls : List (Call σ)) (hf : f.Sound c callersOf) :
    (c.episodes front calls f).Pairwise (SettledFor callersOf) := by
  induction calls generalizing f with
  | nil => exact .nil
  | cons call calls ih =>
    have hsound := (episode_classified hfront hnum call hf).sound
    refine List.pairwise_cons.2 ⟨fun later hlater => ?_, ih hsound⟩
    obtain ⟨call', g, rfl, hg, hkeeps⟩ :=
      exists_episode_of_mem hfront hnum hmode calls hsound later hlater
    refine ⟨hkeeps, fun hfalse hpath => ?_⟩
    have hown : call.id ∈ (c.episode front call f).2.verdicts.untested :=
      (classify_records (hfront call.token) hnum hmode hf call.id call.world).own hfalse
    have hcaller := hsound.verdicts.untested_of_path hown hpath
    refine episode_of_untested hmode front call' hg (hg.verdicts.get?_eq_some_false_iff.1 ?_)
    exact hkeeps _ _ (hsound.verdicts.get?_eq_some_false_iff.2 hcaller)

end Criteria

/-! ## Loaded programs -/

namespace Program

open SymbolTable

/-- The step from a method to a method that it calls. -/
def Calls (p : Program) (caller id : SymbolId) : Prop :=
  id ∈ p.callees caller

variable {p : Program} {s : Solution} {blocks : List Block} {markers : MarkerSet}

theorem Represents.calledBy_iff (h : p.Represents s blocks) {id caller : SymbolId} :
    TestReach.CalledBy p.callers id caller ↔ p.Calls caller id := by
  refine (h.callers id caller).trans ⟨And.right, fun hcalls => ⟨?_, hcalls⟩⟩
  obtain ⟨b, hb, m, hm⟩ := h.methodAt_of_callees hcalls
  obtain ⟨-, -, -, -, b', hb', -, m', hm', -⟩ := (h.callees_iff hb hm).1 hcalls
  exact symbol?_eq_some_lt (h.layout.methodSymbols b' hb' id m' hm')

theorem Represents.conclusive (h : p.Represents s blocks) {v : Verdicts}
    (hv : v.Sound ⟨p, markers, .transitive⟩ p.callers) : v.Conclusive p markers where
  single := fun id => hv.not_mem_untested
  unmarked := by
    intro id hid hmarked
    have hfalse := hv.unmarked id (hv.get?_eq_some_false_iff.1 hid)
    rw [Criteria.isTest, h.isTest_eq.2 hmarked] at hfalse
    exact Bool.noConfusion hfalse
  closed := by
    intro id hid caller hcalls
    rw [hv.get?_eq_some_false_iff] at hid ⊢
    exact hv.closed id hid caller (h.calledBy_iff.2 hcalls)

end Program

/-- Whatever a classifier of a loaded program is asked in transitive mode, under tokens that hold or
do not: the methods recorded as untested are no tests and have all their callers among them, what is
recorded never changes, and after a negative verdict on a method every later call for it, or for a
method that reaches it through calls, gives a negative verdict without asking anything. -/
theorem Criteria.untested_settles_callers {s : Solution} {p : Program}
    (hload : Program.load s = .ok p) (markers : MarkerSet) (w : Watch (StateM σ))
    (calls : List (Call σ)) :
    let history := Criteria.episodes ⟨p, markers, .transitive⟩ (p.frontEnd w) calls {}
    history.map (·.id) = calls.map (·.id) ∧
      (∀ e ∈ history, e.before.Conclusive p markers ∧ e.after.Conclusive p markers ∧
        e.before.Keeps e.after) ∧
      history.Pairwise fun e later => e.after.Keeps later.before ∧
        (e.answer = .ok false → ReflTransGen p.Calls later.id e.id →
          later.answer = .ok false ∧ later.events = []) := by
  obtain ⟨hwf, news, outside, order, hloaded⟩ := (Program.load_meets s).of_ok hload
  have hp := hloaded.represents hwf
  have hfront := p.frontEnd_answersBy w
  have hnum := hp.callers_lt markers .transitive
  refine ⟨episodes_ids _ _ calls {}, fun e he => ?_, ?_⟩
  · obtain ⟨call, g, rfl, hg, -⟩ :=
      exists_episode_of_mem hfront hnum rfl calls Findings.sound_new e he
    have hafter := (episode_classified hfront hnum call hg).sound
    exact ⟨hp.conclusive hg.verdicts, hp.conclusive hafter.verdicts,
      episode_keeps hfront hnum rfl call hg⟩
  · refine (episodes_pairwise hfront hnum rfl calls Findings.sound_new).imp ?_
    rintro e later ⟨hkeeps, hsettled⟩
    refine ⟨hkeeps, fun hfalse hpath => hsettled hfalse ?_⟩
    refine ReflTransGen.mono (fun id caller hcalls => ?_) _ _ (reflTransGen_swap.2 hpath)
    exact hp.calledBy_iff.2 hcalls

/-- A method that is called from another project and, through that, from outside, beside one that a
test calls. -/
def quietCalls : Solution where
  projects :=
    [{ name := "Core"
       types := [{ name := "Service"
                   methods := [{ name := "run", calls := ["Service::run"] },
                               { name := "stop" }] }] },
     { name := "Tools"
       types := [{ name := "Tool"
                   methods := [{ name := "start", calls := ["Service::run"] }] }] }]
  externalTypes :=
    [{ name := "Script", methods := [{ name := "main", calls := ["Tool::start"] }] },
     { name := "Suite"
       methods := [{ name := "covers", attributes := ["Test"], calls := ["Service::stop"] }] },
     { name := "Test" }]

/-- A cancelled token and one that holds for `run`, then a cancelled one for `main` and an expired
one for `start`, which both lead to `run`, and a cancelled one for `stop`, which was not met. -/
def quietQuestions : List (Call Session) :=
  let token : Token := { family := 0, started := 0, deadline := none }
  [⟨{ cancelled := [0] }, token, 2⟩, ⟨{}, token, 2⟩, ⟨{ cancelled := [0] }, token, 7⟩,
    ⟨{ clock := 4 }, { token with deadline := some 3 }, 5⟩, ⟨{ cancelled := [0] }, token, 3⟩]

theorem Criteria.untested_settles_callers_quietCalls :
    ∃ p, Program.load quietCalls = .ok p ∧
      let history := Criteria.episodes ⟨p, .ofNames ["Test"], .transitive⟩
        (p.frontEnd Session.watch) quietQuestions {}
      history.map (·.answer) =
          [.error .cancelled, .ok false, .ok false, .ok false, .error .cancelled] ∧
        ReflTransGen p.Calls 7 2 ∧
        (∀ e ∈ history, e.before.Conclusive p (.ofNames ["Test"]) ∧
          e.after.Conclusive p (.ofNames ["Test"]) ∧ e.before.Keeps e.after) ∧
        history.Pairwise fun e later => e.after.Keeps later.before ∧
          (e.answer = .ok false → ReflTransGen p.Calls later.id e.id →
            later.answer = .ok false ∧ later.events = []) := by
  have hfound : (Program.load quietCalls).toOption.map (fun p =>
      ((Criteria.episodes ⟨p, .ofNames ["Test"], .transitive⟩ (p.frontEnd Session.watch)
        quietQuestions {}).map (·.answer), p.callees 7, p.callees 5)) =
      some ([.error .cancelled, .ok false, .ok false, .ok false, .error .cancelled], [5], [2]) := by
    decide +kernel
  obtain ⟨p, hload, hfound⟩ := exists_ok_of_map hfound
  simp only [Prod.mk.injEq] at hfound
  obtain ⟨hanswers, hmain, hstart⟩ := hfound
  have hpath : ReflTransGen p.Calls 7 2 := by
    refine .head (b := 5) ?_ (.single ?_)
    · simp [Program.Calls, hmain]
    · simp [Program.Calls, hstart]
  exact ⟨p, hload, hanswers, hpath, (Criteria.untested_settles_callers hload _ _ _).2⟩

end TestReach
