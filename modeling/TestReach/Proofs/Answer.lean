import TestReach.Proofs.Denotation
import TestReach.Proofs.Scheduled

/-!
# What a run answers

A run over a loaded program, under a token that holds throughout, reports the methods of the
projects that can be analysed, project by project in the order of analysis, and puts each on the
side that the solution itself says: `Criteria.run_answers_solution`.
-/

namespace TestReach

open Text

variable {σ : Type}

/-! ## Loaded programs -/

/-- How a method of a project is reported. -/
def MethodSite.entry (project : String) (m : MethodSite) : Entry where
  project
  typeName := m.typeName
  name := trim m.decl.name
  parameters := m.decl.parameters.map squeeze

/-- The methods of a project with its name; none if it cannot be analysed. -/
def ProjectDecl.analysed (d : ProjectDecl) : List (String × MethodSite) :=
  if d.error.isNone then d.methodSites.map fun m => (d.name, m) else []

/-- The methods of the projects that can be analysed, for an order of all projects. -/
def Solution.analysed (s : Solution) (order : List Nat) : List (String × MethodSite) :=
  order.flatMap fun i => (s.projects.getD i default).analysed

namespace Program

open SymbolTable

variable {p : Program} {s : Solution} {blocks : List Block}

theorem Represents.callers_lt (h : p.Represents s blocks) (markers : MarkerSet)
    (mode : Propagation) (id : SymbolId) :
    ∀ caller ∈ p.callers id, caller < Criteria.numberLimit ⟨p, markers, mode⟩ := by
  intro caller hcaller
  obtain ⟨b, hb, m, hm⟩ := h.methodAt_of_callees ((h.callers id caller).1 hcaller).2
  have hlt : caller < p.size := symbol?_eq_some_lt (h.layout.methodSymbols b hb caller m hm)
  exact Nat.lt_of_lt_of_le hlt (Nat.le_max_left _ _)

theorem Represents.describe_eq (h : p.Represents s blocks) (markers : MarkerSet)
    (mode : Propagation) (ref : ProjectRef) {id : Nat} {m : MethodSite}
    (hm : MethodAt blocks id m) :
    Criteria.describe ⟨p, markers, mode⟩ ref id = m.entry ref.name := by
  obtain ⟨b, hb, hname, hmethod⟩ := hm
  have hs := h.layout.methodSymbols b hb id m.decl hmethod
  have htype := h.layout.typeNames b hb
  simp [Criteria.describe, MethodSite.entry, containingType, hs, methodSymbol, Symbol.isMethod,
    Symbol.parameters, htype, hname]

theorem forall₂_methodAt {new : List Block} (hnew : new ⊆ blocks) :
    List.Forall₂ (MethodAt blocks) (new.flatMap Block.methodIds)
      ((new.map (·.site)).flatMap TypeSite.methods) := by
  induction new with
  | nil => exact .nil
  | cons b new ih =>
    obtain ⟨hb, hrest⟩ := List.cons_subset.1 hnew
    refine List.rel_append ?_ (ih hrest)
    rw [TypeSite.methods, List.forall₂_map_right_iff]
    exact b.forall₂_methods.imp fun id m hm => ⟨b, hb, rfl, hm⟩

-- An order of all positions takes up every element once.
theorem perm_of_positions {as : List α} {order : List Nat}
    (h : order.Perm (List.range as.length)) (a : α) : (order.map fun i => as.getD i a).Perm as := by
  have hrange : (List.range as.length).map (fun i => as.getD i a) = as :=
    List.ext_getElem (by simp) fun i hi hi' => by simp [hi']
  have hmap := h.map fun i => as.getD i a
  rwa [hrange] at hmap

namespace LoadedFrom

variable {news : List (List Block)} {outside : List Block} {order : List Nat}

theorem listing_forall₂ (h : LoadedFrom s p news outside order) {i : Nat} (hi : i ∈ order) :
    List.Forall₂ (MethodAt (news.flatten ++ outside))
      ((news.map (·.flatMap Block.methodIds)).getD i [])
      (s.projects.getD i default).methodSites := by
  have hlt : i < s.projects.length := List.mem_range.1 (h.perm.subset hi)
  have hsites := h.placed.listed.sites
  have hlength : news.length = s.projects.length := by simpa using congrArg List.length hsites
  have hnew : i < news.length := hlength ▸ hlt
  have hsite : (news.get ⟨i, hnew⟩).map (·.site) = (s.projects.get ⟨i, hlt⟩).sites := by
    have hget := congrArg (·[i]?) hsites
    simpa [hnew, hlt] using hget
  have hsub : news.get ⟨i, hnew⟩ ⊆ news.flatten ++ outside := fun b hb =>
    List.mem_append_left _ (List.mem_flatten.2 ⟨_, List.get_mem _ _, hb⟩)
  have hmethods := forall₂_methodAt hsub
  rw [hsite] at hmethods
  simpa [hnew, hlt, ProjectDecl.methodSites] using hmethods

/-- The methods of each project in the order of analysis. -/
theorem flatMap_projects (h : LoadedFrom s p news outside order) {β : Type}
    (g : String → List SymbolId → List β) :
    (p.projectRefs.flatMap fun ref => g ref.name (p.contribution ref)) =
      order.flatMap fun i => g (s.projects.getD i default).name
        (if (s.projects.getD i default).error.isNone
          then (news.map (·.flatMap Block.methodIds)).getD i [] else []) := by
  rw [p.flatMap_projectRefs, h.projects, arrange, List.flatMap_map]

/-- Together the projects list the methods of their blocks. -/
theorem methods_perm (h : LoadedFrom s p news outside order) :
    (p.projects.flatMap (·.methods)).Perm (news.flatten.flatMap Block.methodIds) := by
  set listings := news.map (·.flatMap Block.methodIds) with hlistings
  have hlength : s.projects.length = listings.length := by
    simpa [hlistings] using congrArg List.length h.placed.listed.sites.symm
  have hperm := (perm_of_positions (hlength ▸ h.perm) []).flatten
  rw [← List.flatMap_def, hlistings, ← List.flatMap_def] at hperm
  rw [h.projects, arrange, List.flatMap_map, ← List.flatMap_id, List.flatMap_assoc]
  exact hperm

/-- No method is listed twice, also by a project that cannot be analysed. -/
theorem nodup_methods (h : LoadedFrom s p news outside order) :
    (p.projects.flatMap (·.methods)).Nodup := by
  have hascending := h.placed.layout.pairwise_methodIds
  rw [List.flatMap_append] at hascending
  exact h.methods_perm.nodup_iff.2 ((List.pairwise_append.1 hascending).1.imp Nat.ne_of_lt)

theorem nodup_contributions (h : LoadedFrom s p news outside order) :
    (p.projectRefs.flatMap p.contribution).Nodup := by
  set listings := news.map (·.flatMap Block.methodIds) with hlistings
  have hall : (order.flatMap fun i => listings.getD i []).Nodup := by
    have hmethods := h.nodup_methods
    rwa [h.projects, arrange, List.flatMap_map] at hmethods
  rw [h.flatMap_projects fun _ ids => ids]
  rw [List.nodup_flatMap] at hall ⊢
  refine ⟨fun i hi => ?_, hall.2.imp fun {i j} hdisjoint => ?_⟩
  · split
    · exact hall.1 i hi
    · exact List.nodup_nil
  · have hmem : ∀ {i id}, id ∈ (if (s.projects.getD i default).error.isNone
        then listings.getD i [] else []) → id ∈ listings.getD i [] := by
      intro i id hid
      split at hid
      · exact hid
      · exact absurd hid List.not_mem_nil
    exact fun id hid hid' => hdisjoint (hmem hid) (hmem hid')

-- The two sides of a report differ only in `side`, which is the identity or negation.
theorem side_eq (h : LoadedFrom s p news outside order)
    (hp : p.Represents s (news.flatten ++ outside)) {names : List String} {mode : Propagation}
    {v : SymbolId → Bool} {declared : MethodSite → Bool}
    (hv : ∀ id, v id = true ↔ Criteria.Tested ⟨p, .ofNames names, mode⟩ p.callers id)
    (hdeclared : ∀ m, declared m = true ↔ s.Tested names mode m) (side : Bool → Bool) :
    (p.projectRefs.flatMap fun ref => ((p.contribution ref).filter fun id => side (v id)).map
        (Criteria.describe ⟨p, .ofNames names, mode⟩ ref)) =
      ((s.analysed order).filter fun x => side (declared x.2)).map fun x => x.2.entry x.1 := by
  -- an entry has the name of its project, and nothing else of it
  have hproject : ∀ {name : String} {ids : List SymbolId} {ms : List MethodSite},
      List.Forall₂ (MethodAt (news.flatten ++ outside)) ids ms →
        (ids.filter fun id => side (v id)).map
            (Criteria.describe ⟨p, .ofNames names, mode⟩ ⟨0, name⟩) =
          ((ms.map fun m => (name, m)).filter fun x => side (declared x.2)).map
            fun x => x.2.entry x.1 := by
    intro name ids ms hids
    induction hids with
    | nil => rfl
    | @cons id m ids ms hm _ ih =>
      have hverdict : v id = declared m := by
        rw [Bool.eq_iff_iff, hv, hdeclared, hp.tested_iff names mode hm]
      have hentry := hp.describe_eq (.ofNames names) mode ⟨0, name⟩ hm
      rw [List.map_cons, List.filter_cons, List.filter_cons, hverdict]
      split
      · rw [List.map_cons, List.map_cons, ih, hentry]
      · exact ih
  have hrefs := h.flatMap_projects fun name ids => (ids.filter fun id => side (v id)).map
    (Criteria.describe ⟨p, .ofNames names, mode⟩ ⟨0, name⟩)
  refine hrefs.trans ?_
  rw [Solution.analysed, List.filter_flatMap, List.map_flatMap]
  refine List.flatMap_congr fun i hi => ?_
  rw [ProjectDecl.analysed]
  split
  · exact hproject (h.listing_forall₂ hi)
  · rfl

end LoadedFrom

end Program

/-- How a project is left out, if it is. -/
def ProjectDecl.leftOut (d : ProjectDecl) : Option SkippedProject :=
  d.error.map fun reason => ⟨d.name, (QueryError.unavailable d.name reason).message⟩

namespace Solution

/-- How the projects at some positions are left out. -/
def leftOuts (s : Solution) (positions : List Nat) : List (Option SkippedProject) :=
  positions.map fun i => (s.projects.getD i default).leftOut

open scoped Classical in
/-- The entries of the projects at some positions on the side of a verdict. -/
noncomputable def side (s : Solution) (names : List String) (mode : Propagation) (verdict : Bool)
    (positions : List Nat) : List Entry :=
  ((s.analysed positions).filter fun x => decide (s.Tested names mode x.2) == verdict).map
    fun x => x.2.entry x.1

/-- An outcome has what a solution says of the projects at the positions of an order. -/
structure Reports (s : Solution) (names : List String) (mode : Propagation) (order : List Nat)
    (o : Outcome) : Prop where
  tested : o.tested = s.side names mode true order
  untested : o.untested = s.side names mode false order
  analyzed : o.projectsAnalyzed = .ofNat ((s.leftOuts order).countP Option.isNone)
  skipped : o.skippedProjects = (s.leftOuts order).filterMap id

end Solution

theorem Program.LoadedFrom.leftOuts_eq {p : Program} {s : Solution}
    {news : List (List SymbolTable.Block)} {outside : List SymbolTable.Block} {order : List Nat}
    (h : LoadedFrom s p news outside order) : p.projectRefs.map p.leftOut = s.leftOuts order := by
  have hlisting : ∀ project : Project,
      (errorOf? project.listing).map (fun e => SkippedProject.mk project.name e.message) =
        project.error.map fun reason =>
          ⟨project.name, (QueryError.unavailable project.name reason).message⟩ := by
    intro project
    rw [Project.listing]
    cases project.error <;> rfl
  have hrefs := p.map_projectRefs fun name listing =>
    (errorOf? listing).map fun e => SkippedProject.mk name e.message
  simp only [hlisting, h.projects, arrange, List.map_map] at hrefs
  exact hrefs

/-- Under a token that holds, a run with a classifier that gives the right verdicts reports what the
solution says of its projects, in the order of analysis. -/
theorem Criteria.runBy_reports {s : Solution} {p : Program} (hload : Program.load s = .ok p)
    {names : List String} {mode : Propagation} {v : SymbolId → Bool}
    (hv : ∀ id, v id = true ↔ Tested ⟨p, .ofNames names, mode⟩ p.callers id)
    {know : List SymbolId → Findings → Prop} {w : Watch (StateM σ)} {token : Token}
    {classifier : Classifier (StateM σ)}
    (hclassifies : Classifies ⟨p, .ofNames names, mode⟩ v know w token classifier)
    (hstart : know [] {}) {st : σ} (hw : w.HoldsFrom token st) :
    ∃ order run, ProjectOrder.order s.projects = .ok order ∧
      order.Perm (List.range s.projects.length) ∧
      ((Criteria.runBy ⟨p, .ofNames names, mode⟩ classifier w (p.frontEnd w) none token).run
        st).1 = .ok (finish run) ∧
      s.Reports names mode order (finish run) ∧
      know (p.projectRefs.flatMap p.contribution) run.findings := by
  classical
  obtain ⟨hwf, news, outside, order, hloaded⟩ := (Program.load_meets s).of_ok hload
  have hp := hloaded.represents hwf
  have hdeclared : ∀ m, decide (s.Tested names mode m) = true ↔ s.Tested names mode m :=
    fun m => decide_eq_true_iff
  obtain ⟨⟨run, hrun, hadds, hknow⟩, -⟩ :=
    runBy_adds hclassifies hstart hloaded.nodup_contributions st hw
  refine ⟨order, run, hloaded.ordered, hloaded.perm, hrun, ⟨?_, ?_, ?_, ?_⟩, hknow⟩
  · have hside := hloaded.side_eq hp hv hdeclared (· == true)
    simp only [beq_true] at hside
    rw [finish, hadds.tested, Outcome.empty, List.nil_append, hside]
    simp [Solution.side]
  · have hside := hloaded.side_eq hp hv hdeclared (· == false)
    simp only [beq_false] at hside
    rw [finish, hadds.untested, Outcome.empty, List.nil_append, hside]
    simp [Solution.side]
  · rw [finish, hadds.analyzed, Outcome.empty, UInt64.zero_add, hloaded.leftOuts_eq]
  · rw [finish, hadds.skipped, Outcome.empty, List.nil_append, hloaded.leftOuts_eq]

/-- A run under a token that holds reports what the solution says of its projects, in the order of
analysis. -/
theorem Criteria.run_reports {s : Solution} {p : Program} (hload : Program.load s = .ok p)
    (names : List String) (mode : Propagation) (w : Watch (StateM σ)) (token : Token) (st : σ)
    (hw : w.HoldsFrom token st) :
    ∃ order o, ProjectOrder.order s.projects = .ok order ∧
      order.Perm (List.range s.projects.length) ∧
      ((Criteria.run ⟨p, .ofNames names, mode⟩ w (p.frontEnd w) none token).run st).1 = .ok o ∧
      s.Reports names mode order o := by
  classical
  have hv : ∀ id, decide (Tested ⟨p, .ofNames names, mode⟩ p.callers id) = true ↔
      Tested ⟨p, .ofNames names, mode⟩ p.callers id := fun id => decide_eq_true_iff
  obtain ⟨hwf, news, outside, order, hloaded⟩ := (Program.load_meets s).of_ok hload
  have hclassifies := classifies_sound w token ((hloaded.represents hwf).callers_lt _ mode) hv
  obtain ⟨order, run, horder, hperm, hrun, hreports, -⟩ :=
    runBy_reports hload hv hclassifies Findings.sound_new hw
  exact ⟨order, finish run, horder, hperm, hrun, hreports⟩

open scoped Classical in
/-- A run over a loaded solution, without a timeout and under a token that always holds, reports the
methods of the projects that can be analysed, and as tested exactly those that the solution says. -/
theorem Criteria.run_answers_solution {s : Solution} {p : Program} (hload : Program.load s = .ok p)
    (names : List String) (mode : Propagation) (w : Watch (StateM σ)) (token : Token) (st : σ)
    (hw : w.HoldsFrom token st) :
    ∃ order o, ProjectOrder.order s.projects = .ok order ∧
      order.Perm (List.range s.projects.length) ∧
      ((Criteria.run ⟨p, .ofNames names, mode⟩ w (p.frontEnd w) none token).run st).1 = .ok o ∧
      o.tested = ((s.analysed order).filter fun x => decide (s.Tested names mode x.2)).map
        (fun x => x.2.entry x.1) ∧
      o.untested = ((s.analysed order).filter fun x => !decide (s.Tested names mode x.2)).map
        (fun x => x.2.entry x.1) := by
  obtain ⟨order, o, horder, hperm, hrun, hreports⟩ :=
    run_reports hload names mode w token st hw
  have htested := hreports.tested
  have huntested := hreports.untested
  simp only [Solution.side, beq_true, beq_false] at htested huntested
  exact ⟨order, o, horder, hperm, hrun, htested, huntested⟩

/-- Two methods that call each other, a test in a project declared before theirs, a project that
cannot be analysed, and a marker that is an interface from outside. -/
def circularCalls : Solution where
  projects :=
    [{ name := "Tests"
       references := ["Core"]
       types := [{ name := "ServiceTests"
                   spaceName := some "App.Tests"
                   methods := [{ name := " covers "
                                 attributes := ["Unknown", " Fact "]
                                 calls := ["App.Service :: run( Map< int, int > )"] }] }] },
     { name := "Broken"
       error := some "no sources"
       types := [{ name := "Caller"
                   methods := [{ name := "go", calls := ["App.Service::idle"] }] }] },
     { name := "Core"
       types := [{ name := "Service"
                   spaceName := some "App"
                   methods := [{ name := "run"
                                 parameters := ["Map<int, int>"]
                                 calls := ["App.Service::step"] },
                               { name := "step", calls := ["App.Service::run"] },
                               { name := "idle" }] }] }]
  externalTypes :=
    [{ name := "Fact", interfaces := ["Test"] }, { name := "Test", kind := .interfaceType }]

open scoped Classical in
theorem Criteria.run_answers_solution_circularCalls :
    ∃ p, Program.load circularCalls = .ok p ∧
      Session.watch.HoldsFrom (Session.newToken {}).1 (Session.newToken {}).2 ∧
      ∃ order o, ProjectOrder.order circularCalls.projects = .ok order ∧
        order.Perm (List.range circularCalls.projects.length) ∧
        ((Criteria.run ⟨p, .ofNames ["Test"], .transitive⟩ Session.watch
          (p.frontEnd Session.watch) none (Session.newToken {}).1).run (Session.newToken {}).2).1 =
            .ok o ∧
        o.tested =
          [⟨"Core", "App.Service", "run", ["Map<int,int>"]⟩, ⟨"Core", "App.Service", "step", []⟩,
            ⟨"Tests", "App.Tests.ServiceTests", "covers", []⟩] ∧
        o.untested = [⟨"Core", "App.Service", "idle", []⟩] ∧
        o.tested = ((circularCalls.analysed order).filter fun x =>
          decide (circularCalls.Tested ["Test"] .transitive x.2)).map (fun x => x.2.entry x.1) ∧
        o.untested = ((circularCalls.analysed order).filter fun x =>
          !decide (circularCalls.Tested ["Test"] .transitive x.2)).map
            (fun x => x.2.entry x.1) := by
  have hlists : (Program.load circularCalls).toOption.map (fun p =>
      ((Criteria.run ⟨p, .ofNames ["Test"], .transitive⟩ Session.watch (p.frontEnd Session.watch)
        none (Session.newToken {}).1).run (Session.newToken {}).2).1.toOption.map fun o =>
          (o.tested, o.untested)) =
      some (some
        ([⟨"Core", "App.Service", "run", ["Map<int,int>"]⟩, ⟨"Core", "App.Service", "step", []⟩,
          ⟨"Tests", "App.Tests.ServiceTests", "covers", []⟩],
          [⟨"Core", "App.Service", "idle", []⟩])) := by
    decide +kernel
  have hholds : Session.watch.HoldsFrom (Session.newToken {}).1 (Session.newToken {}).2 :=
    Session.holdsFrom _ rfl rfl
  obtain ⟨p, hload, hlists⟩ := exists_ok_of_map hlists
  obtain ⟨o', hrun', hlists⟩ := exists_ok_of_map hlists
  obtain ⟨order, o, horder, hperm, hrun, htested, huntested⟩ :=
    Criteria.run_answers_solution hload ["Test"] .transitive _ _ _ hholds
  obtain rfl : o' = o := Except.ok.inj (hrun'.symm.trans hrun)
  obtain ⟨ht, hu⟩ := Prod.mk.inj hlists
  exact ⟨p, hload, hholds, order, o', horder, hperm, hrun, ht, hu, htested, huntested⟩

end TestReach
