import TestReach.Proofs.Answer

/-!
# A project that breaks

Nothing that is loaded of a solution depends on whether a project can be analysed, only whether the
project is listed: the symbols, what they refer to, the callers of each method and the order of the
projects stay the same when a project breaks (`Program.load_of_cleared_eq`). What the solution says
of its methods stays the same as well. So a run reports the same as before, except that the methods
of the project are missing and the project is left out
(`Criteria.broken_project_affects_itself_only`).
-/

namespace TestReach

variable {σ τ : Type}

/-! ## Loading with and without errors -/

/-- The project without a reason why it cannot be analysed. -/
def ProjectDecl.cleared (d : ProjectDecl) : ProjectDecl :=
  { d with error := none }

theorem SymbolTable.declareProjects_cleared (t : SymbolTable) (ps : List ProjectDecl) :
    t.declareProjects (ps.map ProjectDecl.cleared) = t.declareProjects ps := by
  induction ps generalizing t with
  | nil => rfl
  | cons p ps ih => simp only [List.map_cons, declareProjects, ih, ProjectDecl.cleared]

theorem ProjectOrder.order_cleared (ps : List ProjectDecl) :
    order (ps.map ProjectDecl.cleared) = order ps := by
  rw [← order_outline, List.map_map]
  exact order_outline ps

/-- Solutions that differ only in the errors of projects load alike, up to these errors. -/
theorem Program.load_of_cleared_eq {s s' : Solution}
    (hprojects : s'.projects.map ProjectDecl.cleared = s.projects.map ProjectDecl.cleared)
    (houtside : s'.externalTypes = s.externalTypes) {p : Program} (hload : load s = .ok p) :
    ∃ p', load s' = .ok p' ∧ p'.table = p.table ∧ p'.links = p.links ∧
      p'.callerIndex = p.callerIndex ∧
      p'.projects.map (fun q => (q.name, q.methods)) =
        p.projects.map fun q => (q.name, q.methods) := by
  have horder : ProjectOrder.order s'.projects = ProjectOrder.order s.projects := by
    rw [← ProjectOrder.order_cleared, hprojects, ProjectOrder.order_cleared]
  have htable : SymbolTable.ofSolution s' = SymbolTable.ofSolution s := by
    rw [SymbolTable.ofSolution, SymbolTable.ofSolution, houtside,
      ← SymbolTable.declareProjects_cleared, hprojects, SymbolTable.declareProjects_cleared]
  have hname : ∀ i : Nat, (s'.projects.getD i default).name = (s.projects.getD i default).name := by
    intro i
    have hget := congrArg (fun ps => (ps.getD i (ProjectDecl.cleared default)).name) hprojects
    simp only [List.getD_eq_getElem?_getD, List.getElem?_map, Option.getD_map] at hget ⊢
    exact hget
  unfold load at hload ⊢
  rw [htable, horder]
  split at hload
  · cases hload
  · split at hload
    · cases hload
    · split at hload
      · cases hload
      · obtain rfl := Except.ok.inj hload
        refine ⟨_, rfl, rfl, rfl, rfl, ?_⟩
        simp only [arrange, List.map_map, Function.comp_def, hname]

/-! ## What the solution says -/

namespace Solution

/-- What the solution says of a method depends on the declared types only. -/
theorem tested_congr {s s' : Solution} (h : s'.sites = s.sites) (names : List String)
    (mode : Propagation) : s'.Tested names mode = s.Tested names mode := by
  have hbase : s'.IsBase = s.IsBase := by
    unfold IsBase
    rw [h]
  have hlists : s'.ListsInterface = s.ListsInterface := by
    unfold ListsInterface
    rw [h]
  have hmarker : s'.IsMarker names = s.IsMarker names := by
    unfold IsMarker CircularBases CanBe
    rw [hbase, hlists]
  have hmarked : s'.SelfMarked names = s.SelfMarked names := by
    unfold SelfMarked
    rw [h, hmarker]
  have hcalled : s'.CalledBy = s.CalledBy := by
    unfold CalledBy methodSites
    rw [h]
  funext m
  cases mode with
  | transitive => simp only [Tested, hcalled, hmarked]
  | oneHop => simp only [Tested, hcalled, hmarked]

theorem side_append (s : Solution) (names : List String) (mode : Propagation) (verdict : Bool)
    (positions more : List Nat) :
    s.side names mode verdict (positions ++ more) =
      s.side names mode verdict positions ++ s.side names mode verdict more := by
  simp only [side, analysed, List.flatMap_append, List.filter_append, List.map_append]

/-- The solution in which the project at a position cannot be analysed. -/
def breaking (s : Solution) (i : Nat) (reason : String) : Solution :=
  { s with projects := s.projects.modify i fun d => { d with error := some reason } }

variable (s : Solution) (i : Nat) (reason : String)

theorem breaking_cleared : (s.breaking i reason).projects.map ProjectDecl.cleared =
    s.projects.map ProjectDecl.cleared := by
  refine List.ext_getElem? fun j => ?_
  rw [breaking, List.getElem?_map, List.getElem?_map, List.getElem?_modify, Option.map_eq_map,
    Option.map_map]
  congr 1
  funext d
  by_cases hij : i = j <;> simp [hij, ProjectDecl.cleared]

theorem breaking_sites : (s.breaking i reason).sites = s.sites := by
  have htypes : ∀ s : Solution, s.projects.flatMap (·.types) =
      (s.projects.map ProjectDecl.cleared).flatMap (·.types) := by
    intro s
    rw [List.flatMap_map]
    rfl
  rw [sites, sites, topTypes, topTypes, htypes, breaking_cleared, ← htypes]
  rfl

variable {s i} {d : ProjectDecl}

theorem getD_breaking_self (hd : s.projects[i]? = some d) :
    (s.breaking i reason).projects.getD i default = { d with error := some reason } := by
  simp [breaking, hd]

theorem getD_breaking_of_ne {j : Nat} (h : i ≠ j) :
    (s.breaking i reason).projects.getD j default = s.projects.getD j default := by
  simp [breaking, h]

theorem side_breaking_of_not_mem {positions : List Nat} (h : i ∉ positions) (names : List String)
    (mode : Propagation) (verdict : Bool) :
    (s.breaking i reason).side names mode verdict positions =
      s.side names mode verdict positions := by
  have hanalysed : (s.breaking i reason).analysed positions = s.analysed positions := by
    refine List.flatMap_congr fun j hj => ?_
    have hij : i ≠ j := (ne_of_mem_of_not_mem hj h).symm
    rw [getD_breaking_of_ne reason hij]
  rw [side, side, hanalysed, tested_congr (s.breaking_sites i reason)]

theorem leftOuts_breaking_of_not_mem {positions : List Nat} (h : i ∉ positions) :
    (s.breaking i reason).leftOuts positions = s.leftOuts positions := by
  refine List.map_congr_left fun j hj => ?_
  have hij : i ≠ j := (ne_of_mem_of_not_mem hj h).symm
  rw [getD_breaking_of_ne reason hij]

variable {before after : List Nat}

/-- The broken project has no entries, and the entries of the others are what they were. -/
theorem side_breaking (hd : s.projects[i]? = some d) (hbefore : i ∉ before) (hafter : i ∉ after)
    (names : List String) (mode : Propagation) (verdict : Bool) :
    (s.breaking i reason).side names mode verdict (before ++ i :: after) =
      s.side names mode verdict before ++ s.side names mode verdict after := by
  have hnone : (s.breaking i reason).analysed [i] = [] := by
    rw [analysed, List.flatMap_singleton, getD_breaking_self reason hd]
    rfl
  have hself : (s.breaking i reason).side names mode verdict [i] = [] := by
    rw [side, hnone]
    rfl
  rw [← List.singleton_append, side_append, side_append, hself, List.nil_append,
    side_breaking_of_not_mem reason hbefore, side_breaking_of_not_mem reason hafter]

theorem leftOuts_breaking (hd : s.projects[i]? = some d) (hbefore : i ∉ before)
    (hafter : i ∉ after) :
    (s.breaking i reason).leftOuts (before ++ i :: after) = s.leftOuts before ++
      some ⟨d.name, (QueryError.unavailable d.name reason).message⟩ :: s.leftOuts after := by
  have hself : ((s.breaking i reason).projects.getD i default).leftOut =
      some ⟨d.name, (QueryError.unavailable d.name reason).message⟩ := by
    rw [getD_breaking_self reason hd]
    rfl
  rw [← leftOuts_breaking_of_not_mem reason hbefore, ← leftOuts_breaking_of_not_mem reason hafter,
    ← hself]
  simp only [leftOuts, List.map_append, List.map_cons]

theorem leftOuts_of_analysed (hd : s.projects[i]? = some d) (herror : d.error = none)
    (before after : List Nat) :
    s.leftOuts (before ++ i :: after) = s.leftOuts before ++ none :: s.leftOuts after := by
  have hself : (s.projects.getD i default).leftOut = none := by
    simp [hd, ProjectDecl.leftOut, herror]
  simp only [leftOuts, List.map_append, List.map_cons, hself]

end Solution

/-! ## Runs -/

/-- A project that can be analysed is broken. The solution still loads, with the same symbols,
references, callers and project order. A run reports what it reported before without the methods of
the project, counts one project less, and leaves the project out at its place; which methods are
tested is still what the unbroken solution says. -/
theorem Criteria.broken_project_affects_itself_only {s : Solution} {p : Program}
    (hload : Program.load s = .ok p) {i : Nat} {d : ProjectDecl} (hd : s.projects[i]? = some d)
    (herror : d.error = none) (reason : String) :
    ∃ p' before after, Program.load (s.breaking i reason) = .ok p' ∧
      (p'.table = p.table ∧ p'.links = p.links ∧ p'.callerIndex = p.callerIndex ∧
        p'.projects.map (fun q => (q.name, q.methods)) =
          p.projects.map fun q => (q.name, q.methods)) ∧
      ProjectOrder.order s.projects = .ok (before ++ i :: after) ∧
      ProjectOrder.order (s.breaking i reason).projects = .ok (before ++ i :: after) ∧
      ∀ (names : List String) (mode : Propagation) (w : Watch (StateM σ)) (token : Token) (st : σ)
        (w' : Watch (StateM τ)) (token' : Token) (st' : τ),
        w.HoldsFrom token st → w'.HoldsFrom token' st' →
        ∃ o o',
          ((Criteria.run ⟨p, .ofNames names, mode⟩ w (p.frontEnd w) none token).run st).1 =
            .ok o ∧
          ((Criteria.run ⟨p', .ofNames names, mode⟩ w' (p'.frontEnd w') none token').run st').1 =
            .ok o' ∧
          (o.tested = s.side names mode true before ++ s.side names mode true [i] ++
            s.side names mode true after ∧
            o'.tested = s.side names mode true before ++ s.side names mode true after) ∧
          (o.untested = s.side names mode false before ++ s.side names mode false [i] ++
            s.side names mode false after ∧
            o'.untested = s.side names mode false before ++ s.side names mode false after) ∧
          (∃ n, o.projectsAnalyzed = .ofNat (n + 1) ∧ o'.projectsAnalyzed = .ofNat n) ∧
          o.skippedProjects =
            (s.leftOuts before).filterMap id ++ (s.leftOuts after).filterMap id ∧
          o'.skippedProjects = (s.leftOuts before).filterMap id ++
            ⟨d.name, (QueryError.unavailable d.name reason).message⟩ ::
              (s.leftOuts after).filterMap id := by
  obtain ⟨p', hload', hsame⟩ := Program.load_of_cleared_eq (s.breaking_cleared i reason) rfl hload
  obtain ⟨-, news, outside, order, hloaded⟩ := (Program.load_meets s).of_ok hload
  have horder' : ProjectOrder.order (s.breaking i reason).projects = .ok order := by
    rw [← ProjectOrder.order_cleared, s.breaking_cleared, ProjectOrder.order_cleared,
      hloaded.ordered]
  -- the project has one place in the order
  have hi : i ∈ order := by
    rw [hloaded.perm.mem_iff, List.mem_range]
    exact (List.getElem?_eq_some_iff.1 hd).1
  have hnodup : order.Nodup := hloaded.perm.nodup_iff.2 List.nodup_range
  obtain ⟨before, after, rfl⟩ := List.append_of_mem hi
  rw [List.nodup_middle, List.nodup_cons, List.mem_append, not_or] at hnodup
  obtain ⟨⟨hbefore, hafter⟩, -⟩ := hnodup
  refine ⟨p', before, after, hload', hsame, hloaded.ordered, horder', ?_⟩
  intro names mode w token st w' token' st' hw hw'
  obtain ⟨order₁, o, horder₁, -, hrun, hreports⟩ := run_reports hload names mode w token st hw
  obtain ⟨order₂, o', horder₂, -, hrun', hreports'⟩ :=
    run_reports hload' names mode w' token' st' hw'
  obtain rfl := Except.ok.inj (hloaded.ordered.symm.trans horder₁)
  obtain rfl := Except.ok.inj (horder'.symm.trans horder₂)
  have hside : ∀ verdict, s.side names mode verdict (before ++ i :: after) =
      s.side names mode verdict before ++ s.side names mode verdict [i] ++
        s.side names mode verdict after := by
    intro verdict
    rw [← List.singleton_append, s.side_append, s.side_append, List.append_assoc]
  have hside' := Solution.side_breaking reason hd hbefore hafter names mode
  have hleft := Solution.leftOuts_of_analysed hd herror before after
  have hleft' := Solution.leftOuts_breaking reason hd hbefore hafter
  refine ⟨o, o', hrun, hrun', ⟨?_, ?_⟩, ⟨?_, ?_⟩, ?_, ?_, ?_⟩
  · rw [hreports.tested, hside]
  · rw [hreports'.tested, hside']
  · rw [hreports.untested, hside]
  · rw [hreports'.untested, hside']
  · refine ⟨(s.leftOuts before).countP Option.isNone + (s.leftOuts after).countP Option.isNone,
      ?_, ?_⟩
    · rw [hreports.analyzed, hleft, List.countP_append, List.countP_cons_of_pos rfl, Nat.add_assoc]
    · rw [hreports'.analyzed, hleft', List.countP_append, List.countP_cons_of_neg (by simp)]
  · rw [hreports.skipped, hleft, List.filterMap_append, List.filterMap_cons_none rfl]
  · rw [hreports'.skipped, hleft', List.filterMap_append]
    rfl

/-- The project with the only test breaks, beside one that is broken already. -/
theorem Criteria.broken_project_affects_itself_only_circularCalls :
    ∃ p d p' before after, Program.load circularCalls = .ok p ∧
      circularCalls.projects[0]? = some d ∧ d.error = none ∧
      Session.watch.HoldsFrom (Session.newToken {}).1 (Session.newToken {}).2 ∧
      let s := circularCalls
      let token := (Session.newToken {}).1
      Program.load (s.breaking 0 "no compiler") = .ok p' ∧
        (p'.table = p.table ∧ p'.links = p.links ∧ p'.callerIndex = p.callerIndex ∧
          p'.projects.map (fun q => (q.name, q.methods)) =
            p.projects.map fun q => (q.name, q.methods)) ∧
        ProjectOrder.order s.projects = .ok (before ++ 0 :: after) ∧
        ProjectOrder.order (s.breaking 0 "no compiler").projects = .ok (before ++ 0 :: after) ∧
        ∃ o o',
          ((Criteria.run ⟨p, .ofNames ["Test"], .transitive⟩ Session.watch
            (p.frontEnd Session.watch) none token).run (Session.newToken {}).2).1 = .ok o ∧
          ((Criteria.run ⟨p', .ofNames ["Test"], .transitive⟩ Session.watch
            (p'.frontEnd Session.watch) none token).run (Session.newToken {}).2).1 = .ok o' ∧
          (o.tested = s.side ["Test"] .transitive true before ++
            s.side ["Test"] .transitive true [0] ++ s.side ["Test"] .transitive true after ∧
            o'.tested = s.side ["Test"] .transitive true before ++
              s.side ["Test"] .transitive true after) ∧
          (o.untested = s.side ["Test"] .transitive false before ++
            s.side ["Test"] .transitive false [0] ++ s.side ["Test"] .transitive false after ∧
            o'.untested = s.side ["Test"] .transitive false before ++
              s.side ["Test"] .transitive false after) ∧
          (∃ n, o.projectsAnalyzed = .ofNat (n + 1) ∧ o'.projectsAnalyzed = .ofNat n) ∧
          o.skippedProjects =
            (s.leftOuts before).filterMap id ++ (s.leftOuts after).filterMap id ∧
          o'.skippedProjects = (s.leftOuts before).filterMap id ++
            ⟨d.name, (QueryError.unavailable d.name "no compiler").message⟩ ::
              (s.leftOuts after).filterMap id := by
  have hloads : (Program.load circularCalls).toOption.map (fun _ => ()) = some () := by
    decide +kernel
  have hholds : Session.watch.HoldsFrom (Session.newToken {}).1 (Session.newToken {}).2 :=
    Session.holdsFrom _ rfl rfl
  obtain ⟨p, hload, -⟩ := exists_ok_of_map hloads
  obtain ⟨p', before, after, hload', hsame, horder, horder', hruns⟩ :=
    Criteria.broken_project_affects_itself_only (σ := Session) (τ := Session) hload (i := 0) rfl
      rfl "no compiler"
  exact ⟨p, _, p', before, after, hload, rfl, rfl, hholds, hload', hsame, horder, horder',
    hruns ["Test"] .transitive _ _ _ _ _ _ hholds hholds⟩

end TestReach
