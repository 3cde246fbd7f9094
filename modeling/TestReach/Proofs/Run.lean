import TestReach.Proofs.Meets
import TestReach.Proofs.Verdict
import Mathlib.Data.List.Induction

/-!
# Every method once

The record of a run falls into *visits*, one for each project: the question for its methods and the
questions for callers that follow it. A visit is *finished* when all its questions were answered.

The finished visits alone decide what is reported. Each of them reports the methods of its list that
no earlier finished visit lists, in the order of their first occurrences (`reported`), so every
method is reported once, by the first finished project that lists it. A visit that is not finished
reports nothing and takes no method from a later one. `Accounting` says this of the state of a run,
and every visit preserves it.
-/

namespace TestReach

variable {σ α : Type}

/-! ## Visits -/

/-- What a project was asked during a run, with the answers. -/
structure Visit where
  ref : ProjectRef
  listing : Except QueryError (List SymbolId)
  /-- The questions for callers. -/
  asked : List Event

namespace Visit

/-- Why the visit was not finished, if it was not. -/
def failure? (v : Visit) : Option QueryError :=
  (errorOf? v.listing).or (firstFailure v.asked)

/-- All questions of the visit were answered. -/
def finished (v : Visit) : Bool :=
  v.failure?.isNone

/-- The methods that the project lists, as often as it lists them. -/
def methods (v : Visit) : List SymbolId :=
  match v.listing with
  | .ok methods => methods
  | .error _ => []

/-- The events of the visit. -/
def events (v : Visit) : List Event :=
  .listed v.ref v.listing :: v.asked

/-- How the project is reported if the visit was not finished. -/
def skipped? (v : Visit) : Option SkippedProject :=
  v.failure?.map fun e => ⟨v.ref.name, e.message⟩

end Visit

/-- The questions for callers at the beginning of a record, and the visits that follow. -/
def splitVisits : List Event → List Event × List Visit
  | [] => ([], [])
  | .asked id answer :: rest =>
    let (asked, visits) := splitVisits rest
    (.asked id answer :: asked, visits)
  | .listed ref answer :: rest =>
    let (asked, visits) := splitVisits rest
    ([], ⟨ref, answer, asked⟩ :: visits)

theorem splitVisits_asked {asked : List Event} (h : ∀ e ∈ asked, e.isAsked = true)
    (rest : List Event) :
    splitVisits (asked ++ rest) = (asked ++ (splitVisits rest).1, (splitVisits rest).2) := by
  induction asked with
  | nil => rfl
  | cons e asked ih =>
    have he := h e List.mem_cons_self
    cases e with
    | listed ref answer => exact Bool.noConfusion he
    | asked id answer =>
      simp only [List.cons_append, splitVisits, ih fun e' he' => h e' (List.mem_cons_of_mem _ he')]

/-- A record that is made of visits falls into these visits. -/
theorem splitVisits_flatMap {vs : List Visit} (h : ∀ v ∈ vs, ∀ e ∈ v.asked, e.isAsked = true) :
    splitVisits (vs.flatMap Visit.events) = ([], vs) := by
  induction vs with
  | nil => rfl
  | cons v vs ih =>
    have hv := ih fun u hu => h u (List.mem_cons_of_mem v hu)
    simp only [List.flatMap_cons, Visit.events, List.cons_append, splitVisits,
      splitVisits_asked (h v List.mem_cons_self), hv, List.append_nil]

/-- The visits of a run. -/
def Criteria.visits (c : Criteria) (w : Watch (StateM σ)) (front : FrontEnd (StateM σ))
    (timeout : Option Nat) (token : Token) (world : σ) : List Visit :=
  (splitVisits ((c.run w.recorded front.recorded timeout token).run (world, [])).2.2).2

/-! ## What visits report -/

/-- The methods that finished visits list. -/
def listedIn (vs : List Visit) : List SymbolId :=
  (vs.filter Visit.finished).flatMap Visit.methods

theorem mem_listedIn {vs : List Visit} {id : SymbolId} :
    id ∈ listedIn vs ↔ ∃ v ∈ vs, v.finished = true ∧ id ∈ v.methods := by
  simp only [listedIn, List.mem_flatMap, List.mem_filter, and_assoc]

theorem listedIn_append (vs ws : List Visit) :
    listedIn (vs ++ ws) = listedIn vs ++ listedIn ws := by
  simp only [listedIn, List.filter_append, List.flatMap_append]

/-- What a visit reports after others: the methods of its list that no finished visit before it
lists, in the order of their first occurrences. -/
def Visit.reports (earlier : List Visit) (v : Visit) : List (ProjectRef × SymbolId) :=
  if v.finished then
    (v.methods.filter fun id => !(listedIn earlier).contains id).eraseDups.map fun id => (v.ref, id)
  else []

/-- What visits report after others. -/
def reportedAfter (earlier : List Visit) : List Visit → List (ProjectRef × SymbolId)
  | [] => []
  | v :: vs => v.reports earlier ++ reportedAfter (earlier ++ [v]) vs

/-- What the visits of a run report, in order. -/
def reported (vs : List Visit) : List (ProjectRef × SymbolId) :=
  reportedAfter [] vs

theorem reportedAfter_append (earlier vs ws : List Visit) :
    reportedAfter earlier (vs ++ ws) =
      reportedAfter earlier vs ++ reportedAfter (earlier ++ vs) ws := by
  induction vs generalizing earlier with
  | nil => simp [reportedAfter]
  | cons v vs ih => simp [reportedAfter, ih, List.append_assoc]

theorem reported_concat (vs : List Visit) (v : Visit) :
    reported (vs ++ [v]) = reported vs ++ v.reports vs := by
  simp [reported, reportedAfter_append, reportedAfter]

theorem mem_reports {earlier : List Visit} {v : Visit} {ref : ProjectRef} {id : SymbolId} :
    (ref, id) ∈ v.reports earlier ↔
      v.ref = ref ∧ v.finished = true ∧ id ∈ v.methods ∧ id ∉ listedIn earlier := by
  unfold Visit.reports
  split
  · rename_i hf
    simp only [List.mem_map, List.mem_eraseDups, List.mem_filter, Bool.not_eq_true',
      Prod.mk.injEq, hf, true_and]
    constructor
    · rintro ⟨a, ⟨ha, hl⟩, rfl, rfl⟩
      exact ⟨rfl, ha, fun hm => by simp [hm] at hl⟩
    · rintro ⟨rfl, ha, hl⟩
      exact ⟨id, ⟨ha, by simpa using hl⟩, rfl, rfl⟩
  · rename_i hf
    simp [hf]

theorem reports_ids_eq (earlier : List Visit) (v : Visit) :
    (v.reports earlier).map (·.2) =
      if v.finished then firstNew (listedIn earlier) v.methods else [] := by
  unfold Visit.reports
  split
  · rw [firstNew_eq_eraseDups, List.map_map]
    exact List.map_id _
  · rfl

theorem reports_eq (earlier : List Visit) (v : Visit) :
    v.reports earlier = ((v.reports earlier).map (·.2)).map fun id => (v.ref, id) := by
  unfold Visit.reports
  split <;> simp

/-- A method is reported under the first finished project that lists it. -/
theorem mem_reported {vs : List Visit} {ref : ProjectRef} {id : SymbolId} :
    (ref, id) ∈ reported vs ↔ ∃ before v after, vs = before ++ v :: after ∧ v.ref = ref ∧
      v.finished = true ∧ id ∈ v.methods ∧ ∀ u ∈ before, u.finished = true → id ∉ u.methods := by
  have hlisted : ∀ us : List Visit, id ∉ listedIn us ↔
      ∀ u ∈ us, u.finished = true → id ∉ u.methods := by
    intro us
    rw [mem_listedIn]
    push Not
    rfl
  -- from the end, since what a visit reports depends on the visits before it
  induction vs using List.reverseRecOn with
  | nil => simp [reported, reportedAfter]
  | append_singleton vs v ih =>
    rw [reported_concat, List.mem_append, mem_reports, hlisted]
    refine (or_congr_left ih).trans ?_
    constructor
    · rintro (⟨before, u, after, rfl, h⟩ | ⟨href, hf, hid, hb⟩)
      · exact ⟨before, u, after ++ [v], by simp, h⟩
      · exact ⟨vs, v, [], rfl, href, hf, hid, hb⟩
    · rintro ⟨before, u, after, heq, h⟩
      rcases List.eq_nil_or_concat after with rfl | ⟨after', w, rfl⟩
      · obtain ⟨rfl, hv⟩ := List.append_inj' heq rfl
        obtain rfl : v = u := List.head_eq_of_cons_eq hv
        exact .inr h
      · rw [List.concat_eq_append, ← List.cons_append, ← List.append_assoc] at heq
        obtain ⟨rfl, -⟩ := List.append_inj' heq rfl
        exact .inl ⟨before, u, after', rfl, h⟩

theorem reported_listed {vs : List Visit} {ref : ProjectRef} {id : SymbolId}
    (h : (ref, id) ∈ reported vs) : id ∈ listedIn vs := by
  obtain ⟨before, v, after, rfl, -, hf, hid, -⟩ := mem_reported.1 h
  exact mem_listedIn.2 ⟨v, by simp, hf, hid⟩

/-- The methods that are reported are those that finished visits list. -/
theorem mem_reported_ids {vs : List Visit} {id : SymbolId} :
    id ∈ (reported vs).map (·.2) ↔ id ∈ listedIn vs := by
  induction vs using List.reverseRecOn with
  | nil => simp [reported, reportedAfter, listedIn]
  | append_singleton vs v ih =>
    rw [reported_concat, List.map_append, List.mem_append, reports_ids_eq, listedIn_append,
      List.mem_append, ih]
    by_cases hid : id ∈ listedIn vs
    · simp [hid]
    · cases hf : v.finished <;> simp [hid, mem_firstNew, mem_listedIn, hf]

/-- No method is reported twice. -/
theorem nodup_reported (vs : List Visit) : ((reported vs).map (·.2)).Nodup := by
  induction vs using List.reverseRecOn with
  | nil => exact List.nodup_nil
  | append_singleton vs v ih =>
    rw [reported_concat, List.map_append, reports_ids_eq]
    refine List.Nodup.append ih ?_ ?_
    · split
      · exact nodup_firstNew _ _
      · exact List.nodup_nil
    · intro id hid hnew
      obtain ⟨⟨ref, _⟩, hr, rfl⟩ := List.mem_map.1 hid
      split at hnew
      · exact (mem_firstNew.1 hnew).2 (reported_listed hr)
      · exact List.not_mem_nil hnew

/-! ## The account of a run -/

theorem foldl_add (describe : SymbolId → Entry) (verdicts : List (SymbolId × Bool)) (o : Outcome) :
    verdicts.foldl (fun o mv => o.add (describe mv.1) mv.2) o =
      { o with
        tested := o.tested ++ (verdicts.filter (·.2)).map (describe ·.1)
        untested := o.untested ++ (verdicts.filter (!·.2)).map (describe ·.1) } := by
  induction verdicts generalizing o with
  | nil => simp
  | cons mv verdicts ih =>
    obtain ⟨id, b⟩ := mv
    rw [List.foldl_cons, ih]
    cases b <;> simp [Outcome.add]

/-- Verdicts on distinct methods are the values of a function, which may be given elsewhere. -/
theorem exists_verdict {ids : List SymbolId} (hn : ids.Nodup) {verdicts : List Bool}
    (hl : verdicts.length = ids.length) (g : SymbolId → Bool) :
    ∃ verdict : SymbolId → Bool, (∀ id, id ∉ ids → verdict id = g id) ∧
      ids.zip verdicts = ids.map fun id => (id, verdict id) := by
  induction ids generalizing verdicts with
  | nil => exact ⟨g, fun _ _ => rfl, by simp⟩
  | cons a ids ih =>
    obtain ⟨ha, hn⟩ := List.nodup_cons.1 hn
    cases verdicts with
    | nil => simp at hl
    | cons b verdicts =>
      obtain ⟨verdict, hg, hz⟩ := ih hn (Nat.succ.inj hl)
      refine ⟨fun id => if id = a then b else verdict id, fun id hid => ?_, ?_⟩
      · rw [List.mem_cons, not_or] at hid
        simp only [if_neg hid.1]
        exact hg id hid.2
      · simp only [List.zip_cons_cons, hz, List.map_cons, ↓reduceIte, List.cons.injEq, true_and]
        refine List.map_congr_left fun id hid => ?_
        rw [if_neg (fun h : id = a => ha (h ▸ hid))]

/-- Each visit is counted or left out. -/
theorem countP_finished_add_skipped (vs : List Visit) :
    vs.countP Visit.finished + (vs.filterMap Visit.skipped?).length = vs.length := by
  induction vs with
  | nil => rfl
  | cons v vs ih =>
    rw [List.countP_cons, List.filterMap_cons, List.length_cons, ← ih]
    cases hv : v.failure? <;> simp [Visit.finished, Visit.skipped?, hv] <;> omega

/-- What a visit makes of the state of a run: a project that is left out adds the reason only, one
that is finished adds the methods that are not claimed yet. -/
inductive Visit.Takes (c : Criteria) (v : Visit) (s : RunState) : RunState → Prop where
  | leftOut {e : QueryError} (hv : v.failure? = some e) (f : Findings) :
    Takes c v s { s with outcome := s.outcome.skip v.ref.name e.message, findings := f }
  | finished (hv : v.failure? = none) {verdicts : List Bool}
    (hl : verdicts.length = (firstNew s.claimed v.methods).length) (f : Findings) :
    Takes c v s
      { outcome := s.outcome.merge (c.partOf v.ref (firstNew s.claimed v.methods) verdicts)
        claimed := s.claimed ++ firstNew s.claimed v.methods
        findings := f }

/-- An outcome has the methods that visits report, each on the side of its verdict. -/
def Criteria.Splits (c : Criteria) (vs : List Visit) (verdict : SymbolId → Bool) (o : Outcome) :
    Prop :=
  o.tested = ((reported vs).filter fun r => verdict r.2).map (fun r => c.describe r.1 r.2) ∧
    o.untested = ((reported vs).filter fun r => !verdict r.2).map fun r => c.describe r.1 r.2

/-- The state of a run after visits: projects are counted or left out, the methods of finished
visits are claimed, and those that the visits report are on one side each. -/
structure Accounting (c : Criteria) (vs : List Visit) (s : RunState) : Prop where
  analyzed : s.outcome.projectsAnalyzed = UInt64.ofNat (vs.countP Visit.finished)
  skipped : s.outcome.skippedProjects = vs.filterMap Visit.skipped?
  claimed : ∀ id, id ∈ s.claimed ↔ id ∈ listedIn vs
  sides : ∃ verdict, c.Splits vs verdict s.outcome

namespace Accounting

variable {c : Criteria} {vs : List Visit} {v : Visit} {s : RunState}

theorem start (c : Criteria) : Accounting c [] { outcome := Outcome.empty c.propagation } :=
  ⟨rfl, rfl, fun id => by simp [listedIn], fun _ => true, rfl, rfl⟩

/-- A visit that is not finished leaves the project out and claims nothing. -/
theorem skip (h : Accounting c vs s) {e : QueryError} (hv : v.failure? = some e) (f : Findings) :
    Accounting c (vs ++ [v])
      { s with outcome := s.outcome.skip v.ref.name e.message, findings := f } := by
  have hf : v.finished = false := by simp [Visit.finished, hv]
  have hr : reported (vs ++ [v]) = reported vs := by
    rw [reported_concat, Visit.reports, hf]
    exact List.append_nil _
  refine ⟨?_, ?_, fun id => ?_, ?_⟩
  · rw [List.countP_append, List.countP_singleton, hf]
    exact h.analyzed
  · rw [List.filterMap_append, ← h.skipped]
    simp [Outcome.skip, Visit.skipped?, hv]
  · rw [listedIn_append, h.claimed]
    simp [listedIn, hf]
  · obtain ⟨verdict, ht, hu⟩ := h.sides
    refine ⟨verdict, ?_⟩
    unfold Criteria.Splits
    rw [hr]
    exact ⟨ht, hu⟩

/-- A finished visit adds the methods of its list that are not claimed, each once. -/
theorem finish (h : Accounting c vs s) (hv : v.failure? = none) {verdicts : List Bool}
    (hl : verdicts.length = (firstNew s.claimed v.methods).length) (f : Findings) :
    Accounting c (vs ++ [v])
      { outcome := s.outcome.merge (c.partOf v.ref (firstNew s.claimed v.methods) verdicts)
        claimed := s.claimed ++ firstNew s.claimed v.methods
        findings := f } := by
  have hf : v.finished = true := by simp [Visit.finished, hv]
  have hfresh : firstNew s.claimed v.methods = (v.reports vs).map (·.2) := by
    rw [reports_ids_eq, if_pos hf, firstNew_eq_eraseDups, firstNew_eq_eraseDups]
    congr 1
    refine List.filter_congr fun id _ => ?_
    rw [Bool.eq_iff_iff]
    simp [h.claimed]
  obtain ⟨verdict, ht, hu⟩ := h.sides
  obtain ⟨verdict', hold, hzip⟩ := exists_verdict (nodup_firstNew s.claimed v.methods) hl verdict
  -- methods reported before keep their verdicts, since none of them is new
  have hkeep : ∀ r ∈ reported vs, verdict' r.2 = verdict r.2 := by
    intro r hr
    refine hold r.2 fun hnew => (mem_firstNew.1 hnew).2 ((h.claimed r.2).2 ?_)
    exact reported_listed hr
  refine ⟨?_, ?_, fun id => ?_, verdict', ?_⟩
  · rw [List.countP_append, List.countP_singleton, if_pos hf, UInt64.ofNat_add, ← h.analyzed]
    rfl
  · rw [List.filterMap_append, ← h.skipped]
    simp [Outcome.merge, Criteria.partOf, foldl_add, Outcome.empty, Visit.skipped?, hv]
  · have hone : id ∈ listedIn [v] ↔ id ∈ v.methods := by simp [listedIn, hf]
    rw [listedIn_append, List.mem_append, List.mem_append, h.claimed, mem_firstNew, h.claimed, hone]
    by_cases hid : id ∈ listedIn vs <;> simp [hid]
  · have hreports : ∀ side : Bool → Bool,
        ((v.reports vs).filter fun r => side (verdict' r.2)).map (fun r => c.describe r.1 r.2) =
          (((firstNew s.claimed v.methods).zip verdicts).filter fun mv => side mv.2).map
            fun mv => c.describe v.ref mv.1 := by
      intro side
      rw [hzip, hfresh, reports_eq]
      simp only [List.filter_map, List.map_map, Function.comp_def]
    unfold Criteria.Splits
    rw [reported_concat, List.filter_append, List.filter_append, List.map_append, List.map_append,
      List.filter_congr fun r hr => hkeep r hr,
      List.filter_congr fun r hr => congrArg (!·) (hkeep r hr), ← ht, ← hu, hreports (·),
      hreports (!·)]
    simp [Outcome.merge, Criteria.partOf, foldl_add, Outcome.empty]

/-- The account goes on over every visit. -/
theorem step {s' : RunState} (h : Accounting c vs s) (hv : v.Takes c s s') :
    Accounting c (vs ++ [v]) s' := by
  cases hv with
  | leftOut hv f => exact h.skip hv f
  | finished hv hl f => exact h.finish hv hl f

end Accounting

/-! ## Running -/

/-- The clock can show every deadline that a run may set. -/
def Watch.Admits (w : Watch (StateM σ)) (timeout : Option Nat) (token : Token) :
    Prop :=
  ∀ seconds, timeout = some seconds →
    Gives w.now fun now => ∃ t, token.expiring now seconds = .ok t

namespace Criteria

variable (c : Criteria)

theorem classifyAll_length (ask : SymbolId → StateM σ (Except QueryError (List SymbolId)))
    (ids : List SymbolId) (f : Findings) :
    Gives (c.classifyAll ask ids f) fun r => ∀ verdicts, r.1 = .ok verdicts →
      verdicts.length = ids.length := by
  induction ids generalizing f with
  | nil => exact .pure (by rintro _ ⟨⟩; rfl)
  | cons id rest ih =>
    refine (Gives.trivial (c.classify ask id f)).bind fun r _ => ?_
    obtain ⟨_ | verdict, f'⟩ := r
    · exact .pure (by rintro _ ⟨⟩)
    · refine (ih f').bind fun r hr => ?_
      obtain ⟨_ | verdicts, f''⟩ := r
      · exact .pure (by rintro _ ⟨⟩)
      · refine .pure ?_
        rintro _ ⟨⟩
        exact congrArg Nat.succ (hr verdicts rfl)

/-- One project is one visit. -/
theorem runProject_notes (front : FrontEnd (StateM σ)) (token : Token) (ref : ProjectRef)
    (s : RunState) :
    Notes (c.runProject front.recorded token ref s) fun s' events =>
      ∃ v : Visit, v.ref = ref ∧ (∀ e ∈ v.asked, e.isAsked = true) ∧ events = v.events ∧
        v.Takes c s s' := by
  unfold runProject runProjectBy
  refine (Notes.noting _ (front.methods token ref)).bind fun answer events hevents => ?_
  subst hevents
  cases answer with
  | error e =>
    exact .pure ⟨⟨ref, .error e, []⟩, rfl, by simp, rfl, .leftOut rfl s.findings⟩
  | ok methods =>
    have hboth := (c.classifyAll_asking (front.callers token) (firstNew s.claimed methods)
      s.findings).and_gives (c.classifyAll_length _ _ _)
    refine hboth.bind fun r asked hr => ?_
    obtain ⟨hr, hlen⟩ := hr
    obtain ⟨e | verdicts, f⟩ := r
    · refine .pure ⟨⟨ref, .ok methods, asked⟩, rfl, hr.asked, by simp [Visit.events], ?_⟩
      exact .leftOut (v := ⟨ref, .ok methods, asked⟩) hr.failure f
    · refine .pure ⟨⟨ref, .ok methods, asked⟩, rfl, hr.asked, by simp [Visit.events], ?_⟩
      exact .finished (v := ⟨ref, .ok methods, asked⟩) hr.failure (hlen verdicts rfl) f

/-- The projects of a run are visited one after the other. -/
theorem runProjects_notes (w : Watch (StateM σ)) (front : FrontEnd (StateM σ))
    (timeout : Option Nat) (token : Token) (refs : List ProjectRef) (s : RunState) :
    Notes (c.runProjects w.recorded front.recorded timeout token refs s) fun r events =>
      ∀ s', r = .ok s' → ∃ vs : List Visit, vs.map (·.ref) = refs ∧
        (∀ v ∈ vs, ∀ e ∈ v.asked, e.isAsked = true) ∧ events = vs.flatMap Visit.events ∧
        ∀ us, Accounting c us s → Accounting c (us ++ vs) s' := by
  induction refs generalizing s with
  | nil =>
    refine .pure ?_
    rintro _ ⟨⟩
    exact ⟨[], rfl, by simp, rfl, fun us h => by rwa [List.append_nil]⟩
  | cons ref rest ih =>
    unfold runProjects runProjectsBy
    refine (projectToken_notes w timeout token).bind fun r events hevents => ?_
    subst hevents
    cases r with
    | error e => exact .pure (by rintro _ ⟨⟩)
    | ok t =>
      refine (c.runProject_notes front t ref s).bind fun s₁ events h₁ => ?_
      obtain ⟨v, href, hasked, rfl, hv⟩ := h₁
      refine (ih s₁).mono fun r more hmore s' hs' => ?_
      obtain ⟨vs, hrefs, hall, rfl, hvs⟩ := hmore s' hs'
      refine ⟨v :: vs, by simp [href, hrefs], ?_, by simp, fun us h => ?_⟩
      · intro u hu
        rcases List.mem_cons.1 hu with rfl | hu
        · exact hasked
        · exact hall u hu
      · have hfinal := hvs _ (h.step hv)
        rwa [List.append_assoc] at hfinal

/-- The record of a run that gives an outcome is made of its visits, and these account for the
outcome. -/
theorem run_notes (w : Watch (StateM σ)) (front : FrontEnd (StateM σ)) (timeout : Option Nat)
    (token : Token) :
    Notes (c.run w.recorded front.recorded timeout token) fun r events =>
      ∀ o, r = .ok o → events = (splitVisits events).2.flatMap Visit.events ∧
        (splitVisits events).2.map (·.ref) = front.projects ∧
        ∃ s, Accounting c (splitVisits events).2 s ∧ o = finish s := by
  refine (c.runProjects_notes w front timeout token _ _).bind fun r events hr => ?_
  cases r with
  | error e => exact .pure (by rintro _ ⟨⟩)
  | ok s =>
    obtain ⟨vs, hrefs, hall, rfl, hvs⟩ := hr s rfl
    refine .pure ?_
    rintro _ ⟨⟩
    rw [List.append_nil, splitVisits_flatMap hall]
    exact ⟨rfl, hrefs, s, hvs [] (.start c), rfl⟩

/-- The account of a whole run, over the visits that its record falls into. -/
theorem run_accounting {w : Watch (StateM σ)} {front : FrontEnd (StateM σ)} {timeout : Option Nat}
    {token : Token} {world : σ} {o : Outcome}
    (h : ((c.run w front timeout token).run world).1 = .ok o) :
    (c.visits w front timeout token world).map (·.ref) = front.projects ∧
      ∃ s, Accounting c (c.visits w front timeout token world) s ∧ o = finish s := by
  have hsame := (c.run_follows w front timeout token world []).1
  exact ((c.run_notes w front timeout token).run world o (hsame.trans h)).2

theorem run_record {w : Watch (StateM σ)} {front : FrontEnd (StateM σ)} {timeout : Option Nat}
    {token : Token} {world : σ} {o : Outcome}
    (h : ((c.run w front timeout token).run world).1 = .ok o) :
    ((c.run w.recorded front.recorded timeout token).run (world, [])).2.2 =
      (c.visits w front timeout token world).flatMap Visit.events := by
  have hsame := (c.run_follows w front timeout token world []).1
  exact ((c.run_notes w front timeout token).run world o (hsame.trans h)).1

theorem runProjects_gives_state {w : Watch (StateM σ)} {timeout : Option Nat} {token : Token}
    (h : w.Admits timeout token) (front : FrontEnd (StateM σ)) (refs : List ProjectRef)
    (s : RunState) :
    Gives (c.runProjects w front timeout token refs s) fun r => ∃ s', r = .ok s' := by
  have htoken : Gives (projectToken w timeout token) fun r => ∃ t, r = .ok t := by
    unfold projectToken
    cases timeout with
    | none => exact .pure ⟨token, rfl⟩
    | some seconds => exact (h seconds rfl).bind fun now hnow => .pure hnow
  induction refs generalizing s with
  | nil => exact .pure ⟨s, rfl⟩
  | cons ref rest ih =>
    unfold runProjects runProjectsBy
    refine htoken.bind fun r hr => ?_
    obtain ⟨t, rfl⟩ := hr
    exact (Gives.trivial _).bind fun s' _ => ih s'

theorem run_eq_of_runProjects {w : Watch (StateM σ)} {front : FrontEnd (StateM σ)}
    {timeout : Option Nat} {token : Token} {st : σ} {t : RunState}
    (h : ((c.runProjects w front timeout token front.projects
      { outcome := Outcome.empty c.propagation }).run st).1 = .ok t) :
    (c.run w front timeout token).run st =
      (.ok (finish t), ((c.runProjects w front timeout token front.projects
        { outcome := Outcome.empty c.propagation }).run st).2) := by
  unfold run runBy
  unfold runProjects at h ⊢
  rw [StateT.run_bind]
  cases hx : (c.runProjectsBy (fun _ => c.classifyAll) w front timeout token front.projects
    { outcome := Outcome.empty c.propagation }).run st with
  | mk r st' =>
    rw [hx] at h
    obtain rfl : r = .ok t := h
    rfl

/-- Whatever the front end does and whatever becomes of the token: the run gives an outcome, unless
a deadline is past what the clock can show; every project is visited once, in order, and is either
counted or left out; and the methods that finished projects list are reported once each, on one
side, under the first finished project that lists them, in the order of the projects and of the
first occurrences in their lists. -/
theorem run_reports_each_method_once (w : Watch (StateM σ)) (front : FrontEnd (StateM σ))
    (timeout : Option Nat) (token : Token) (world : σ) :
    (w.Admits timeout token → ∃ o, ((c.run w front timeout token).run world).1 = .ok o) ∧
      ∀ o, ((c.run w front timeout token).run world).1 = .ok o →
        let vs := c.visits w front timeout token world
        vs.map (·.ref) = front.projects ∧
          (front.projects.length < UInt64.size →
            o.projectsAnalyzed.toNat + o.skippedProjects.length = front.projects.length) ∧
          o.projectsAnalyzed = UInt64.ofNat (vs.countP Visit.finished) ∧
          o.skippedProjects = vs.filterMap Visit.skipped? ∧
          (∀ id, id ∈ (reported vs).map (·.2) ↔ ∃ v ∈ vs, v.finished = true ∧ id ∈ v.methods) ∧
          ((reported vs).map (·.2)).Nodup ∧
          (∀ ref id, (ref, id) ∈ reported vs ↔
            ∃ before v after, vs = before ++ v :: after ∧ v.ref = ref ∧ v.finished = true ∧
              id ∈ v.methods ∧ ∀ u ∈ before, u.finished = true → id ∉ u.methods) ∧
          ∃ verdict : SymbolId → Bool,
            o.tested = ((reported vs).filter fun r => verdict r.2).map
              (fun r => c.describe r.1 r.2) ∧
            o.untested = ((reported vs).filter fun r => !verdict r.2).map
              fun r => c.describe r.1 r.2 := by
  refine ⟨fun hadmits => ?_, fun o ho => ?_⟩
  · have hgives : Gives (c.run w front timeout token) fun r => ∃ o, r = .ok o := by
      refine (c.runProjects_gives_state hadmits front _ _).bind fun r hr => ?_
      obtain ⟨s, rfl⟩ := hr
      exact .pure ⟨_, rfl⟩
    exact hgives world
  · obtain ⟨hrefs, s, hacc, rfl⟩ := c.run_accounting ho
    refine ⟨hrefs, fun hlt => ?_, hacc.analyzed, hacc.skipped, fun id => ?_, nodup_reported _,
      fun ref id => mem_reported, hacc.sides⟩
    · have hlen := countP_finished_add_skipped (c.visits w front timeout token world)
      have hprojects := congrArg List.length hrefs
      rw [List.length_map] at hprojects
      rw [hprojects] at hlen
      have hcount : (finish s).projectsAnalyzed.toNat =
          (c.visits w front timeout token world).countP Visit.finished := by
        rw [show (finish s).projectsAnalyzed = _ from hacc.analyzed]
        refine UInt64.toNat_ofNat_of_lt' ?_
        omega
      rw [hcount, show (finish s).skippedProjects = _ from hacc.skipped, hlen]
    · rw [mem_reported_ids, mem_listedIn]

end Criteria

/-- A test, a method that it calls, and one that nothing calls. -/
def calledAndIdle : Solution where
  projects :=
    [{ name := "Lib"
       types := [{ name := "Suite"
                   methods := [{ name := "covers"
                                 attributes := ["Fact"]
                                 calls := ["Suite::used"] },
                               { name := "used" },
                               { name := "idle" }] }] }]
  externalTypes := [{ name := "Fact" }]

/-- A clock that stands still, and no family is ever cancelled. -/
def Watch.still : Watch (StateM Nat) where
  now := return 0
  cancelled _ := return false

/-- A front end whose projects list the same methods again and again. The first question for the
callers of `idle` fails, which is in the middle of `Early`, and `Unlisted` has no list. -/
def Program.overlapping (p : Program) : FrontEnd (StateM Nat) where
  projects := [⟨0, "Early"⟩, ⟨1, "Middle"⟩, ⟨2, "Unlisted"⟩, ⟨3, "Late"⟩]
  methods _ ref :=
    let lists : List (Except QueryError (List SymbolId)) :=
      [.ok [3, 4], .ok [4, 3, 4], .error (.unavailable "Unlisted" "no list"), .ok [3, 2]]
    return lists[ref.index]?.getD (.ok [])
  callers _ id := do
    let failed ← get
    if id = 4 && failed = 0 then
      set 1
      return .error (.unavailable "Early" "no callers")
    else return .ok (p.callers id)

/-- `Early` takes nothing from `Middle`, which reports `idle` and `used`, and `covers` is left for
`Late`. -/
theorem Criteria.run_reports_each_method_once_calledAndIdle :
    ∃ p o, Program.load calledAndIdle = .ok p ∧
      let c : Criteria := ⟨p, .ofNames ["Fact"], .transitive⟩
      let token := (Session.newToken {}).1
      let vs := c.visits Watch.still p.overlapping (some 5) token 0
      Watch.still.Admits (some 5) token ∧
        ((c.run Watch.still p.overlapping (some 5) token).run 0).1 = .ok o ∧
        p.overlapping.projects.length < UInt64.size ∧
        o.projectsAnalyzed.toNat + o.skippedProjects.length = p.overlapping.projects.length ∧
        o.skippedProjects.map (·.name) = ["Early", "Unlisted"] ∧
        ((reported vs).map (·.2)).Nodup ∧
        o.tested = [⟨"Middle", "Suite", "used", []⟩, ⟨"Late", "Suite", "covers", []⟩] ∧
        o.untested = [⟨"Middle", "Suite", "idle", []⟩] := by
  have hfound : (Program.load calledAndIdle).toOption.map (fun p =>
      ((Criteria.run ⟨p, .ofNames ["Fact"], .transitive⟩ Watch.still p.overlapping (some 5)
        (Session.newToken {}).1).run 0).1.toOption.map fun o =>
          (o.skippedProjects.map (·.name), o.tested, o.untested)) =
      some (some (["Early", "Unlisted"],
        [⟨"Middle", "Suite", "used", []⟩, ⟨"Late", "Suite", "covers", []⟩],
        [⟨"Middle", "Suite", "idle", []⟩])) := by
    decide +kernel
  obtain ⟨p, hload, hfound⟩ := exists_ok_of_map hfound
  obtain ⟨o, hrun, hfound⟩ := exists_ok_of_map hfound
  obtain ⟨hskipped, hsides⟩ := Prod.mk.inj hfound
  obtain ⟨htested, huntested⟩ := Prod.mk.inj hsides
  have hadmits : Watch.still.Admits (some 5) (Session.newToken {}).1 := by
    rintro seconds ⟨⟩ world
    have htoken : (Session.newToken {}).1.expiring 0 5 = .ok ⟨0, 0, some 5000000000⟩ := by decide
    exact ⟨_, htoken⟩
  have hsize : p.overlapping.projects.length < UInt64.size :=
    (by decide : 4 < UInt64.size)
  have honce := (Criteria.run_reports_each_method_once ⟨p, .ofNames ["Fact"], .transitive⟩
    Watch.still p.overlapping (some 5) (Session.newToken {}).1 0).2 o hrun
  obtain ⟨-, hcount, -, -, -, hnodup, -⟩ := honce
  exact ⟨p, o, hload, hadmits, hrun, hsize, hcount hsize, hskipped, hnodup, htested, huntested⟩

end TestReach
