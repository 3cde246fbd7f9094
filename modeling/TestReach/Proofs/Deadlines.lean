import TestReach.Command.Analyze
import TestReach.Proofs.Loading
import TestReach.Proofs.Run
import TestReach.Proofs.TokenFamily
import TestReach.Proofs.Validation
import TestReach.Workspace

/-!
# Deadlines that the clock can show

The timeout for projects is checked when the settings are made and added to the clock when a project
has its turn. The check only asks that it is not zero, while the clock has room for a number of
seconds below `2 ^ 63`. So an analysis gives an outcome exactly when there is room at every turn for
the timeout after what the clock says then, and no timeout from `2 ^ 63` on leaves any
(`Command.runWith_gives_outcome_iff`).
-/

namespace TestReach

variable {σ : Type}

/-- The clock can show the instant so many seconds after a reading. -/
def Instant.HasRoom (now : Instant) (seconds : Nat) : Prop :=
  now / 1000000000 + seconds < Nat.pow 2 63

theorem Instant.shown_add_iff (now : Instant) (seconds : Nat) :
    Instant.Shown (now + Duration.ofSeconds seconds) ↔ now.HasRoom seconds := by
  have hdiv : (now + seconds * 1000000000) / 1000000000 = now / 1000000000 + seconds :=
    Nat.add_mul_div_right now seconds (by decide)
  unfold Instant.Shown Instant.HasRoom Duration.ofSeconds
  rw [hdiv]

theorem Token.expiring_of_hasRoom {now : Instant} {seconds : Nat} (h : now.HasRoom seconds)
    (t : Token) : ∃ t', t.expiring now seconds = .ok t' :=
  ⟨_, Token.limited_eq ((Instant.shown_add_iff now seconds).2 h) t⟩

theorem Token.expiring_of_not_hasRoom {now : Instant} {seconds : Nat} (h : ¬now.HasRoom seconds)
    (t : Token) : t.expiring now seconds = .error ⟨⟩ := by
  rw [← Instant.shown_add_iff] at h
  rw [Token.expiring, Token.limited, Instant.after, if_neg h]

/-! ## Turns -/

namespace Criteria

variable (c : Criteria) {w : Watch (StateM σ)} {seconds : Nat} {world : σ}
  (front : FrontEnd (StateM σ)) (token : Token)

theorem projectToken_run :
    (projectToken w (some seconds) token).run world =
      (token.expiring (w.now.run world).1 seconds, (w.now.run world).2) := rfl

/-- Without room for the deadline of its first project a run ends there. -/
theorem runProjects_cons_of_not_hasRoom (h : ¬(w.now.run world).1.HasRoom seconds)
    (ref : ProjectRef) (rest : List ProjectRef) (s : RunState) :
    ((c.runProjects w front (some seconds) token (ref :: rest) s).run world).1 = .error ⟨⟩ := by
  rw [runProjects, runProjectsBy, StateT.run_bind, projectToken_run,
    Token.expiring_of_not_hasRoom h]
  rfl

/-- With room for it the run comes to the other projects. -/
theorem runProjects_cons_of_hasRoom (h : (w.now.run world).1.HasRoom seconds) (ref : ProjectRef)
    (s : RunState) : ∃ s' world', ∀ rest,
      (c.runProjects w front (some seconds) token (ref :: rest) s).run world =
        (c.runProjects w front (some seconds) token rest s').run world' := by
  obtain ⟨t, ht⟩ := Token.expiring_of_hasRoom h token
  refine ⟨((c.runProject front t ref s).run (w.now.run world).2).1,
    ((c.runProject front t ref s).run (w.now.run world).2).2, fun rest => ?_⟩
  rw [runProjects, runProjectsBy, StateT.run_bind, projectToken_run, ht]
  rfl

/-- The clock when a run over some projects comes to the one at a position. -/
def clockAt (w : Watch (StateM σ)) (timeout : Option Nat) (refs : List ProjectRef) (s : RunState)
    (world : σ) (k : Nat) : Instant :=
  (w.now.run ((c.runProjects w front timeout token (refs.take k) s).run world).2).1

theorem exists_runProjects_eq_ok_iff (refs : List ProjectRef) (s : RunState) (world : σ) :
    (∃ s', ((c.runProjects w front (some seconds) token refs s).run world).1 = .ok s') ↔
      ∀ k < refs.length,
        (c.clockAt front token w (some seconds) refs s world k).HasRoom seconds := by
  induction refs generalizing s world with
  | nil => exact iff_of_true ⟨s, rfl⟩ (by simp)
  | cons ref rest ih =>
    by_cases hroom : (w.now.run world).1.HasRoom seconds
    · obtain ⟨s', world', hstep⟩ := c.runProjects_cons_of_hasRoom front token hroom ref s
      rw [hstep rest, ih s' world', List.length_cons, Nat.forall_lt_succ_left]
      have hlater : ∀ k, c.clockAt front token w (some seconds) (ref :: rest) s world (k + 1) =
          c.clockAt front token w (some seconds) rest s' world' k := by
        intro k
        rw [clockAt, List.take_succ_cons, hstep (rest.take k), clockAt]
      simp only [hlater]
      exact (and_iff_right hroom).symm
    · rw [c.runProjects_cons_of_not_hasRoom front token hroom ref rest s]
      exact iff_of_false (by simp) fun hall => hroom (hall 0 (Nat.succ_pos _))

/-- A run gives an outcome exactly when there is room for the timeout at the turn of every
project. -/
theorem exists_run_eq_ok_iff (timeout : Option Nat) (world : σ) :
    (∃ o, ((c.run w front timeout token).run world).1 = .ok o) ↔
      ∀ seconds, timeout = some seconds → ∀ k < front.projects.length,
        (c.clockAt front token w timeout front.projects
          { outcome := Outcome.empty c.propagation } world k).HasRoom seconds := by
  have hrun : (∃ o, ((c.run w front timeout token).run world).1 = .ok o) ↔
      ∃ s, ((c.runProjects w front timeout token front.projects
        { outcome := Outcome.empty c.propagation }).run world).1 = .ok s := by
    rw [run, runBy, runProjects, StateT.run_bind]
    obtain ⟨result, world'⟩ := (c.runProjectsBy (fun _ => c.classifyAll) w front timeout token
      front.projects { outcome := Outcome.empty c.propagation }).run world
    cases result with
    | error e => exact iff_of_false (by rintro ⟨o, ⟨⟩⟩) (by simp)
    | ok s => exact iff_of_true ⟨finish s, rfl⟩ ⟨s, rfl⟩
  rw [hrun]
  cases timeout with
  | none =>
    have hadmits : w.Admits none token := by rintro seconds ⟨⟩
    exact iff_of_true (c.runProjects_gives_state hadmits front _ _ world) (by simp)
  | some seconds =>
    rw [exists_runProjects_eq_ok_iff]
    simp

end Criteria

/-! ## Analyses -/

theorem Config.fault?_withTimeout {config : Config} (h : config.fault? = none) {n : Nat}
    (hn : n ≠ 0) : { config with projectTimeout := some n }.fault? = none := by
  rw [Config.fault?_eq_none_iff] at h ⊢
  exact ⟨h.1, h.2.1, h.2.2.1, by simpa using hn⟩

theorem Program.length_projectRefs {s : Solution} {p : Program} (hload : load s = .ok p) :
    p.projectRefs.length = s.projects.length := by
  obtain ⟨-, news, outside, order, hloaded⟩ := (load_meets s).of_ok hload
  have hlength := hloaded.perm.length_eq
  rw [List.length_range] at hlength
  rw [projectRefs, List.length_map, hloaded.projects, arrange]
  simpa using hlength

namespace Command

variable (h : Host (StateM σ)) (config : Config) (p : Program) (world : σ)

/-- The clock when an analysis comes to the project at a position. -/
def turnClock (k : Nat) : Instant :=
  Criteria.clockAt ⟨p, config.markerSet, config.mode⟩ (p.frontEnd h.watch) (h.newToken.run world).1
    h.watch config.projectTimeout p.projectRefs { outcome := Outcome.empty config.mode }
    (h.newToken.run world).2 k

theorem exists_runWith_eq_ok_iff :
    (∃ o, ((runWith h config p).run world).1 = .ok o) ↔
      ∀ seconds, config.projectTimeout = some seconds → ∀ k < p.projectRefs.length,
        (turnClock h config p world k).HasRoom seconds :=
  Criteria.exists_run_eq_ok_iff ⟨p, config.markerSet, config.mode⟩ (p.frontEnd h.watch)
    (h.newToken.run world).1 config.projectTimeout (h.newToken.run world).2

/-- With settings that pass the check an analysis gives an outcome exactly when there is room for
the timeout at the turn of every project. The check lets every timeout through but zero, and one
from `2 ^ 63` seconds on ends every analysis with a project in it. -/
theorem runWith_gives_outcome_iff {s : Solution} (hload : Program.load s = .ok p)
    (hvalid : config.fault? = none) :
    ((∃ o, ((runWith h config p).run world).1 = .ok o) ↔
      ∀ seconds, config.projectTimeout = some seconds → ∀ k < s.projects.length,
        turnClock h config p world k / 1000000000 + seconds < Nat.pow 2 63) ∧
    ∀ seconds ≠ 0, { config with projectTimeout := some seconds }.fault? = none ∧
      (Nat.pow 2 63 ≤ seconds → s.projects ≠ [] →
        ((runWith h { config with projectTimeout := some seconds } p).run world).1 =
          .error ⟨⟩) := by
  have hlength := Program.length_projectRefs hload
  refine ⟨?_, fun seconds hpositive => ⟨Config.fault?_withTimeout hvalid hpositive, ?_⟩⟩
  · rw [exists_runWith_eq_ok_iff, hlength]
    rfl
  · intro hlarge hsome
    cases hresult : ((runWith h { config with projectTimeout := some seconds } p).run world).1 with
    | error e => rfl
    | ok o =>
      -- already at the first turn there is no room
      have hall := (exists_runWith_eq_ok_iff h _ p world).1 ⟨o, hresult⟩ seconds rfl
      have hroom := hall 0 (by rw [hlength]; exact List.length_pos_iff.2 hsome)
      exact absurd (Nat.le_trans hlarge (Nat.le_add_left _ _)) (Nat.not_le.2 hroom)

/-- A project with a test and what it calls, and another project that refers to it. -/
def testedCalls : Solution where
  projects :=
    [{ name := "App"
       types := [{ name := "Calc"
                   methods := [{ name := "Target" },
                               { name := "Helper", calls := ["Calc::Target"] }] },
                 { name := "CalcTests"
                   methods := [{ name := "TestA"
                                 attributes := ["Fact"]
                                 calls := ["Calc::Helper"] }] }] },
     { name := "Tool", references := ["App"] }]
  externalTypes := [{ name := "Fact" }]

/-- One marker and a timeout. -/
def factWithin (seconds : Nat) : Config where
  markers := ["Fact"]
  projectTimeout := some seconds

/-- On a clock that has just begun there is room for five minutes at both turns. -/
theorem runWith_gives_outcome_iff_testedCalls :
    ∃ p o, Program.load testedCalls = .ok p ∧ (factWithin 300).fault? = none ∧
      ((runWith Workspace.host (factWithin 300) p).run {}).1 = .ok o ∧
      { factWithin 300 with projectTimeout := some 1 }.fault? = none := by
  have hclock : (Program.load testedCalls).toOption.map (fun p => (List.range 2).all fun k =>
      turnClock Workspace.host (factWithin 300) p {} k == 0) = some true := by decide +kernel
  have hvalid : (factWithin 300).fault? = none := by decide +kernel
  obtain ⟨p, hload, hturns⟩ := exists_ok_of_map hclock
  have hiff := runWith_gives_outcome_iff Workspace.host (factWithin 300) p {} hload hvalid
  have hroom : ∀ seconds, (factWithin 300).projectTimeout = some seconds →
      ∀ k < testedCalls.projects.length,
        turnClock Workspace.host (factWithin 300) p {} k / 1000000000 + seconds <
          Nat.pow 2 63 := by
    rintro seconds ⟨⟩ k hk
    rw [eq_of_beq (List.all_eq_true.1 hturns k (List.mem_range.2 hk))]
    decide
  obtain ⟨o, ho⟩ := hiff.1.2 hroom
  exact ⟨p, o, hload, hvalid, ho, (hiff.2 1 (by decide)).1⟩

/-- The largest timeout that settings can have passes the check and ends the analysis. -/
theorem runWith_overflows_testedCalls :
    ∃ p, Program.load testedCalls = .ok p ∧ (factWithin (UInt64.size - 1)).fault? = none ∧
      ((runWith Workspace.host (factWithin (UInt64.size - 1)) p).run {}).1 = .error ⟨⟩ := by
  have hvalid : (factWithin (UInt64.size - 1)).fault? = none := by decide +kernel
  have hends : (Program.load testedCalls).toOption.map (fun p =>
      ((runWith Workspace.host (factWithin (UInt64.size - 1)) p).run {}).1.toOption.isNone) =
      some true := by decide +kernel
  obtain ⟨p, hload, hnone⟩ := exists_ok_of_map hends
  refine ⟨p, hload, hvalid, ?_⟩
  cases hresult : ((runWith Workspace.host (factWithin (UInt64.size - 1)) p).run {}).1 with
  | error e => rfl
  | ok o =>
    rw [hresult] at hnone
    cases hnone

end Command

end TestReach
