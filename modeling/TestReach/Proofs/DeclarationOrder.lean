import TestReach.Proofs.Answer
import TestReach.Proofs.Reordering

/-!
# Runs over reordered solutions

Another order of declarations gives every symbol another number, and lets a run meet callers,
methods and projects in another order. What is reported can be said without numbers and without an
order (`Solution.Accounts`), so that runs over reordered solutions report the same, up to the order
of the lists.
-/

namespace TestReach

open Text

variable {σ τ : Type}

/-! ## What a run reports, up to order -/

open scoped Classical in
/-- An outcome has what a solution says of its methods and projects. -/
structure Solution.Accounts (s : Solution) (names : List String) (mode : Propagation)
    (o : Outcome) : Prop where
  tested : o.tested.Perm (((s.projects.flatMap ProjectDecl.analysed).filter
    fun x => decide (s.Tested names mode x.2)).map fun x => x.2.entry x.1)
  untested : o.untested.Perm (((s.projects.flatMap ProjectDecl.analysed).filter
    fun x => !decide (s.Tested names mode x.2)).map fun x => x.2.entry x.1)
  analyzed : o.projectsAnalyzed = .ofNat ((s.projects.map ProjectDecl.leftOut).countP Option.isNone)
  skipped : o.skippedProjects.Perm ((s.projects.map ProjectDecl.leftOut).filterMap id)

/-- What is reported in an order of all projects accounts for the solution. -/
theorem Solution.Reports.accounts {s : Solution} {names : List String} {mode : Propagation}
    {order : List Nat} {o : Outcome} (h : s.Reports names mode order o)
    (hperm : order.Perm (List.range s.projects.length)) : s.Accounts names mode o := by
  have hprojects := Program.perm_of_positions hperm default
  have hanalysed := hprojects.flatMap_right ProjectDecl.analysed
  have hleft := hprojects.map ProjectDecl.leftOut
  rw [List.flatMap_map] at hanalysed
  rw [List.map_map] at hleft
  refine ⟨?_, ?_, ?_, ?_⟩
  · rw [h.tested]
    simp only [Solution.side, beq_true]
    exact (hanalysed.filter _).map _
  · rw [h.untested]
    simp only [Solution.side, beq_false]
    exact (hanalysed.filter _).map _
  · rw [h.analyzed, Solution.leftOuts, ← hleft.countP_eq]
    rfl
  · rw [h.skipped]
    exact hleft.filterMap id

theorem Criteria.run_accounts {s : Solution} {p : Program} (hload : Program.load s = .ok p)
    (names : List String) (mode : Propagation) (w : Watch (StateM σ)) (token : Token) (st : σ)
    (hw : w.HoldsFrom token st) :
    ∃ o, ((Criteria.run ⟨p, .ofNames names, mode⟩ w (p.frontEnd w) none token).run st).1 = .ok o ∧
      s.Accounts names mode o := by
  obtain ⟨order, o, -, hperm, hrun, hreports⟩ := run_reports hload names mode w token st hw
  exact ⟨o, hrun, hreports.accounts hperm⟩

/-! ## Reordered solutions -/

/-- The same outcome, with methods and skipped projects in another order. -/
structure Outcome.Reordered (o o' : Outcome) : Prop where
  tested : o.tested.Perm o'.tested
  untested : o.untested.Perm o'.untested
  analyzed : o.projectsAnalyzed = o'.projectsAnalyzed
  skipped : o.skippedProjects.Perm o'.skippedProjects

theorem MethodSite.Reordered.entry_eq {m m' : MethodSite} (h : m.Reordered m') (project : String) :
    m.entry project = m'.entry project := by
  rw [entry, entry, h.typeName, h.decl.name, h.decl.parameters]

theorem ProjectDecl.Reordered.leftOut_eq {d d' : ProjectDecl} (h : d.Reordered d') :
    d.leftOut = d'.leftOut := by
  rw [leftOut, leftOut, h.name, h.error]

namespace Solution.Reordered

variable {s s' : Solution}

theorem analysed (h : s.Reordered s') :
    Rearranged (fun x x' => x.1 = x'.1 ∧ s.SameMethod s' x.2 x'.2)
      (s.projects.flatMap ProjectDecl.analysed) (s'.projects.flatMap ProjectDecl.analysed) := by
  refine h.projects.within.flatMap ?_
  rintro d d' ⟨hd, hd', hreordered⟩
  rw [ProjectDecl.analysed, ProjectDecl.analysed, hreordered.error]
  split
  · refine hreordered.methodSites.within.map ?_
    rintro m m' ⟨hm, hm', hsame⟩
    exact ⟨hreordered.name, mem_methodSites_of_project hd hm, mem_methodSites_of_project hd' hm',
      hsame⟩
  · exact ⟨.nil, .refl _⟩

theorem side_perm (h : s.Reordered s') {side side' : MethodSite → Bool}
    (hside : ∀ {m m'}, s.SameMethod s' m m' → side m = side' m') :
    (((s.projects.flatMap ProjectDecl.analysed).filter fun x => side x.2).map
        fun x => x.2.entry x.1).Perm
      (((s'.projects.flatMap ProjectDecl.analysed).filter fun x => side' x.2).map
        fun x => x.2.entry x.1) := by
  refine (h.analysed.filter fun hx => hside hx.2).map_perm ?_
  rintro ⟨project, m⟩ ⟨project', m'⟩ ⟨rfl, hsame⟩
  exact hsame.2.2.entry_eq project

/-- What reordered solutions say is the same up to order. -/
theorem accounts (h : s.Reordered s') (hwf : s.WellFormed) {names : List String}
    {mode : Propagation} {o o' : Outcome} (ho : s.Accounts names mode o)
    (ho' : s'.Accounts names mode o') : o.Reordered o' := by
  classical
  have hleft := h.projects.map_perm ProjectDecl.Reordered.leftOut_eq
  have htested : ∀ {m m'}, s.SameMethod s' m m' →
      decide (s.Tested names mode m) = decide (s'.Tested names mode m') :=
    fun hm => decide_eq_decide.2 (h.tested_iff hwf names mode hm)
  refine ⟨?_, ?_, ?_, ?_⟩
  · exact (ho.tested.trans (h.side_perm htested)).trans ho'.tested.symm
  · have huntested := h.side_perm fun hm => congrArg not (htested hm)
    exact (ho.untested.trans huntested).trans ho'.untested.symm
  · rw [ho.analyzed, ho'.analyzed, hleft.countP_eq]
  · exact (ho.skipped.trans (hleft.filterMap id)).trans ho'.skipped.symm

end Solution.Reordered

/-- Of two solutions that differ only in the order of declarations both load or neither does, and
runs over them, under tokens that hold, differ only in the order of what they report. -/
theorem Criteria.run_independent_of_declaration_order {s s' : Solution} (h : s.Reordered s') :
    ((∃ p, Program.load s = .ok p) ↔ ∃ p', Program.load s' = .ok p') ∧
      ∀ p p', Program.load s = .ok p → Program.load s' = .ok p' →
        ∀ (names : List String) (mode : Propagation) (w : Watch (StateM σ)) (token : Token) (st : σ)
          (w' : Watch (StateM τ)) (token' : Token) (st' : τ),
          w.HoldsFrom token st → w'.HoldsFrom token' st' →
          ∃ o o',
            ((Criteria.run ⟨p, .ofNames names, mode⟩ w (p.frontEnd w) none token).run st).1 =
              .ok o ∧
            ((Criteria.run ⟨p', .ofNames names, mode⟩ w' (p'.frontEnd w') none token').run st').1 =
              .ok o' ∧
            o.Reordered o' := by
  have hwell : s.WellFormed ↔ s'.WellFormed := ⟨h.wellFormed, h.symm.wellFormed⟩
  refine ⟨?_, ?_⟩
  · rw [(Program.load_meets s).exists_ok_iff, (Program.load_meets s').exists_ok_iff, hwell]
  · intro p p' hload hload' names mode w token st w' token' st' hw hw'
    have hwf : s.WellFormed := (Program.load_meets s).exists_ok_iff.1 ⟨p, hload⟩
    obtain ⟨o, hrun, ho⟩ := run_accounts hload names mode w token st hw
    obtain ⟨o', hrun', ho'⟩ := run_accounts hload' names mode w' token' st' hw'
    exact ⟨o, o', hrun, hrun', h.accounts hwf ho ho'⟩

/-- A service with a nested part, its tests, and a project that cannot be analysed. -/
def testsFirst : Solution where
  projects :=
    [{ name := "Tests"
       references := ["Core", "Broken"]
       types := [{ name := "Suite"
                   methods := [{ name := "covers"
                                 attributes := ["Fact", "Slow"]
                                 calls := ["Core.Service::run", "Core.Service+Part::go"] }] }] },
     { name := "Broken", error := some "no sources" },
     { name := "Core"
       types := [{ name := "Service"
                   spaceName := some "Core"
                   interfaces := ["IRun", "IStop"]
                   methods := [{ name := "run" }, { name := "stop" }]
                   nested := [{ name := "Part", methods := [{ name := "go" }, { name := "rest" }] },
                              { name := "Whole" }] }] }]
  externalTypes :=
    [{ name := "Fact" }, { name := "IRun", kind := .interfaceType },
     { name := "IStop", kind := .interfaceType }]

/-- The same with everything the other way round. -/
def testsLast : Solution where
  projects :=
    [{ name := "Core"
       types := [{ name := "Service"
                   spaceName := some "Core"
                   interfaces := ["IStop", "IRun"]
                   methods := [{ name := "stop" }, { name := "run" }]
                   nested := [{ name := "Whole" },
                              { name := "Part"
                                methods := [{ name := "rest" }, { name := "go" }] }] }] },
     { name := "Broken", error := some "no sources" },
     { name := "Tests"
       references := ["Broken", "Core"]
       types := [{ name := "Suite"
                   methods := [{ name := "covers"
                                 attributes := ["Slow", "Fact"]
                                 calls := ["Core.Service+Part::go", "Core.Service::run"] }] }] }]
  externalTypes :=
    [{ name := "IStop", kind := .interfaceType }, { name := "IRun", kind := .interfaceType },
     { name := "Fact" }]

theorem testsFirst_reordered : testsFirst.Reordered testsLast := by
  have hone : ∀ {α : Type} {R : α → α → Prop} {a a' : α}, R a a' → Rearranged R [a] [a'] :=
    fun ha => ⟨.cons ha .nil, .refl _⟩
  have htwo : ∀ {α : Type} {R : α → α → Prop} {a a' b b' : α}, R a a' → R b b' →
      Rearranged R [a, b] [b', a'] :=
    fun ha hb => ⟨.cons ha (.cons hb .nil), .swap _ _ _⟩
  have hthree : ∀ {α : Type} {R : α → α → Prop} {a a' b b' c c' : α}, R a a' → R b b' → R c c' →
      Rearranged R [a, b, c] [c', b', a'] :=
    fun ha hb hc => ⟨.cons ha (.cons hb (.cons hc .nil)), (List.reverse_perm _).symm⟩
  have hnone : ∀ {α : Type} {R : α → α → Prop}, Rearranged R [] [] := ⟨.nil, .nil⟩
  refine ⟨rfl, hthree ⟨rfl, .swap _ _ _, rfl, ?_⟩ ⟨rfl, .refl _, rfl, hnone⟩
    ⟨rfl, .refl _, rfl, ?_⟩, hthree (.refl _) (.refl _) (.refl _)⟩
  · refine hone (.of_nested rfl rfl rfl rfl rfl (.refl _) ?_ hnone)
    exact hone ⟨rfl, rfl, .swap _ _ _, .swap _ _ _⟩
  · refine hone (.of_nested rfl rfl rfl rfl rfl (.swap _ _ _) (htwo (.refl _) (.refl _)) ?_)
    refine htwo (.of_nested rfl rfl rfl rfl rfl (.refl _) ?_ hnone) (.refl _)
    exact htwo (.refl _) (.refl _)

theorem Criteria.run_independent_of_declaration_order_tests :
    testsFirst.Reordered testsLast ∧
      Session.watch.HoldsFrom (Session.newToken {}).1 (Session.newToken {}).2 ∧
      ∃ p p', Program.load testsFirst = .ok p ∧ Program.load testsLast = .ok p' ∧
        ∃ o o',
          ((Criteria.run ⟨p, .ofNames ["Fact"], .transitive⟩ Session.watch
            (p.frontEnd Session.watch) none (Session.newToken {}).1).run
              (Session.newToken {}).2).1 = .ok o ∧
          ((Criteria.run ⟨p', .ofNames ["Fact"], .transitive⟩ Session.watch
            (p'.frontEnd Session.watch) none (Session.newToken {}).1).run
              (Session.newToken {}).2).1 = .ok o' ∧
          o.Reordered o' := by
  have hholds : Session.watch.HoldsFrom (Session.newToken {}).1 (Session.newToken {}).2 :=
    Session.holdsFrom _ rfl rfl
  have hboth := Criteria.run_independent_of_declaration_order (σ := Session) (τ := Session)
    testsFirst_reordered
  have hloads : (Program.load testsFirst).toOption.map (fun _ => ()) = some () := by
    decide +kernel
  obtain ⟨p, hp, -⟩ := exists_ok_of_map hloads
  obtain ⟨p', hp'⟩ := hboth.1.1 ⟨p, hp⟩
  exact ⟨testsFirst_reordered, hholds, p, p', hp, hp',
    hboth.2 p p' hp hp' ["Fact"] .transitive _ _ _ _ _ _ hholds hholds⟩

end TestReach
