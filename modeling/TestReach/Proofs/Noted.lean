import TestReach.Proofs.Schedule

/-!
# What a run notes

The diagnostics of an outcome are what the detector of the run has noted. Whatever the front end
answers and whatever becomes of the token, they are diagnostics of the program, each listed once and
in ascending order (`Criteria.run_noted`).

Under a token that holds throughout, a run over a loaded solution has looked at all that it had to.
In every order of classification it then reports the same methods, and diagnostics between the same
two bounds: `Criteria.run_reports_in_any_order`.
-/

namespace TestReach

variable {σ : Type}

/-- The outcome lists a diagnostic. -/
def Outcome.Lists (o : Outcome) : Diagnostic → Prop
  | .unresolved name => name ∈ o.unresolvedAttributes
  | .malformed typeName => typeName ∈ o.malformedTypes

theorem Criteria.finish_lists {s : RunState} {x : Diagnostic} :
    (finish s).Lists x ↔ s.findings.detector.Noted x := by
  cases x <;> rfl

/-! ## Every run -/

namespace Criteria

variable {c : Criteria} {d : Detector} {f : Findings}
  {ask : SymbolId → StateM σ (Except QueryError (List SymbolId))}

/-- The detector has looked at some methods of the program, and at nothing else. -/
def Looking (c : Criteria) (d : Detector) : Prop :=
  ∃ M, c.Seen M d

namespace Looking

theorem isMarker (h : c.Looking d) (id : SymbolId) : c.Looking (c.isMarker id d).2 := by
  obtain ⟨M, hseen⟩ := h
  obtain ⟨d', hd', hseen'⟩ := hseen.isMarker id
  rw [hd']
  exact ⟨_, hseen'⟩

theorem anyIsMarker (h : c.Looking d) (ids : List SymbolId) :
    c.Looking (c.anyIsMarker d ids).2 := by
  obtain ⟨M, hseen⟩ := h
  obtain ⟨d', hd', hseen'⟩ := hseen.anyIsMarker ids
  rw [hd']
  exact ⟨_, hseen'⟩

theorem standing (h : c.Looking d) (v : Verdicts) (id : SymbolId) :
    c.Looking (c.standing v id d).2 := by
  have hmarker := h.isMarker id
  unfold Criteria.standing
  split
  · exact h
  · exact h
  · split <;> simp_all

theorem search (h : c.Looking d) (v : Verdicts) (start : SymbolId) (n : Nat)
    (queue met : List SymbolId) :
    Gives (c.search ask v start n queue met d) fun r => c.Looking r.2 := by
  induction n generalizing queue met d with
  | zero => exact .pure h
  | succ n ih =>
    cases queue with
    | nil => exact .pure h
    | cons id queue =>
      have hlook : c.Looking
          (if id = start then (Standing.pending, d) else c.standing v id d).2 := by
        split
        · exact h
        · exact h.standing v id
      unfold Criteria.search
      split <;> rename_i heq <;> rw [heq] at hlook
      · exact .pure hlook
      · exact ih hlook queue met
      · refine (Gives.trivial (ask id)).bind fun r _ => ?_
        cases r with
        | error e => exact .pure hlook
        | ok callers => exact ih hlook _ _

theorem classify (h : c.Looking f.detector) (id : SymbolId) :
    Gives (c.classify ask id f) fun r => c.Looking r.2.detector := by
  have hmarker := h.isMarker id
  unfold Criteria.classify
  split <;> rename_i heq <;> rw [heq] at hmarker
  · exact .pure hmarker
  · split
    · unfold classifyOneHop
      refine (Gives.trivial (ask id)).bind fun r _ => ?_
      cases r with
      | error e => exact .pure hmarker
      | ok callers => exact .pure (hmarker.anyIsMarker callers)
    · unfold classifyTransitive
      split
      · exact .pure hmarker
      · refine (hmarker.search _ id _ _ _).bind fun r hr => ?_
        obtain ⟨_ | e, d'⟩ := r
        · exact .pure hr
        · exact .pure hr

theorem classifyAll (h : c.Looking f.detector) (ids : List SymbolId) :
    Gives (c.classifyAll ask ids f) fun r => c.Looking r.2.detector := by
  induction ids generalizing f with
  | nil => exact .pure h
  | cons id ids ih =>
    unfold Criteria.classifyAll
    refine (h.classify id).bind fun r hr => ?_
    obtain ⟨_ | verdict, f'⟩ := r
    · exact .pure hr
    · refine (ih hr).bind fun r hr => ?_
      obtain ⟨_ | verdicts, f''⟩ := r
      · exact .pure hr
      · exact .pure hr

theorem runProject {s : RunState} (h : c.Looking s.findings.detector) (front : FrontEnd (StateM σ))
    (token : Token) (ref : ProjectRef) :
    Gives (c.runProject front token ref s) fun s' => c.Looking s'.findings.detector := by
  unfold Criteria.runProject runProjectBy
  refine (Gives.trivial (front.methods token ref)).bind fun r _ => ?_
  cases r with
  | error e => exact .pure h
  | ok methods =>
    refine (h.classifyAll _).bind fun r hr => ?_
    obtain ⟨_ | verdicts, f⟩ := r
    · exact .pure hr
    · exact .pure hr

theorem runProjects {s : RunState} (h : c.Looking s.findings.detector) (w : Watch (StateM σ))
    (front : FrontEnd (StateM σ)) (timeout : Option Nat) (token : Token)
    (refs : List ProjectRef) :
    Gives (c.runProjects w front timeout token refs s) fun r =>
      ∀ s', r = .ok s' → c.Looking s'.findings.detector := by
  induction refs generalizing s with
  | nil =>
    refine .pure ?_
    rintro _ ⟨⟩
    exact h
  | cons ref refs ih =>
    unfold Criteria.runProjects runProjectsBy
    refine (Gives.trivial (projectToken w timeout token)).bind fun r _ => ?_
    cases r with
    | error e => exact .pure (by rintro _ ⟨⟩)
    | ok t => exact (h.runProject front t ref).bind fun s' hs' => ih hs'

end Looking

/-- In every outcome the diagnostics are those that the detector of the run has noted: diagnostics
of the program, in ascending order. -/
theorem run_noted (c : Criteria) (w : Watch (StateM σ)) (front : FrontEnd (StateM σ))
    (timeout : Option Nat) (token : Token) :
    Gives (c.run w front timeout token) fun r => ∀ o, r = .ok o →
      Ascending o.unresolvedAttributes ∧ Ascending o.malformedTypes ∧
        ∃ M, ∀ x, o.Lists x ↔
          ∃ a ∈ c.program.seen c.markers M, c.program.diagnosticOf? a = some x := by
  have hnew : c.Looking {} := ⟨∅, seen_new⟩
  unfold run runBy
  refine (hnew.runProjects (s := { outcome := Outcome.empty c.propagation }) w front timeout token
    front.projects).bind fun r hr => ?_
  cases r with
  | error e => exact .pure (by rintro _ ⟨⟩)
  | ok s =>
    obtain ⟨M, hseen⟩ := hr s rfl
    refine .pure ?_
    rintro _ ⟨⟩
    exact ⟨hseen.unresolved, hseen.malformed, M, fun x => finish_lists.trans (hseen.noted x)⟩

/-! ## Runs under a token that holds -/

/-- The diagnostics of an outcome lie between two bounds: those that classifying some methods surely
notes, and those that it may note. -/
structure Diagnoses (c : Criteria) (ids : List SymbolId) (o : Outcome) : Prop where
  sure : ∀ x, c.NotedBy (c.surelySeen c.program.callers) ids x → o.Lists x
  possible : ∀ x, o.Lists x → c.NotedBy (c.possiblySeen c.program.callers) ids x

theorem diagnoses_finish {ids : List SymbolId} {s : RunState}
    (h : s.findings.Covers c c.program.callers ids) : c.Diagnoses ids (finish s) where
  sure _ hx := finish_lists.2 (h.noted hx)
  possible _ hx := h.of_noted (finish_lists.1 hx)

/-- Whatever the order in which the methods of each project are classified, a run over a loaded
solution under a token that holds reports the same methods on the same sides, counts and leaves out
the same projects, and has diagnostics between the same bounds; the diagnostics are the same too
where the bounds agree. -/
theorem run_reports_in_any_order {τ : Type} {s : Solution} {p : Program}
    (hload : Program.load s = .ok p) (names : List String) (mode : Propagation)
    (schedule : Schedule) {w : Watch (StateM σ)} {token : Token} {st : σ}
    (hw : w.HoldsFrom token st) {w' : Watch (StateM τ)} {token' : Token} {st' : τ}
    (hw' : w'.HoldsFrom token' st') :
    let c : Criteria := ⟨p, .ofNames names, mode⟩
    let ids := p.projectRefs.flatMap p.contribution
    ∃ o o', ((c.run w (p.frontEnd w) none token).run st).1 = .ok o ∧
      ((c.runIn schedule w' (p.frontEnd w') none token').run st').1 = .ok o' ∧
      (o'.tested = o.tested ∧ o'.untested = o.untested ∧
        o'.projectsAnalyzed = o.projectsAnalyzed ∧ o'.skippedProjects = o.skippedProjects) ∧
      c.Diagnoses ids o ∧ c.Diagnoses ids o' ∧
      ((mode = .transitive → ∀ x, c.NotedBy (c.possiblySeen p.callers) ids x →
          c.NotedBy (c.surelySeen p.callers) ids x) →
        o'.unresolvedAttributes = o.unresolvedAttributes ∧
          o'.malformedTypes = o.malformedTypes) := by
  classical
  intro c ids
  have hv : ∀ id, decide (c.Tested p.callers id) = true ↔ c.Tested p.callers id :=
    fun id => decide_eq_true_iff
  obtain ⟨hwf, news, outside, order, hloaded⟩ := (Program.load_meets s).of_ok hload
  have hnum := (hloaded.represents hwf).callers_lt (.ofNames names) mode
  have hlisted := classifies_covers (c := c) hnum hv w token
  have hscheduled := (classifies_covers (c := c) hnum hv w' token').classifyIn
    Findings.Covers.of_perm schedule
  obtain ⟨order, t, horder, -, hrun, hreports, hcovers⟩ :=
    runBy_reports hload hv hlisted .new hw
  obtain ⟨order', t', horder', -, hrun', hreports', hcovers'⟩ :=
    runBy_reports hload hv hscheduled .new hw'
  obtain rfl : order = order' := Except.ok.inj (horder.symm.trans horder')
  refine ⟨finish t, finish t', hrun, hrun', ⟨?_, ?_, ?_, ?_⟩, diagnoses_finish hcovers,
    diagnoses_finish hcovers', hcovers'.lists_eq hcovers⟩
  · rw [hreports.tested, hreports'.tested]
  · rw [hreports.untested, hreports'.untested]
  · rw [hreports.analyzed, hreports'.analyzed]
  · rw [hreports.skipped, hreports'.skipped]

end Criteria

end TestReach
