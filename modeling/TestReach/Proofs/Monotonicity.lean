import TestReach.Proofs.Answer
import TestReach.Proofs.Inclusion

/-!
# What is tested stays tested

Following all calls and not only one, taking more types for markers, or declaring more calls only
ever adds to the methods that a run reports as tested. The methods reported, and the order in which
they are, do not change: a method that is no longer reported as untested is reported as tested, in
its place among the others.
-/

namespace TestReach

open Text

/-! ## Declarations with more calls -/

/-- The same method, which may have more calls. -/
structure MethodDecl.AddsCalls (m m' : MethodDecl) : Prop where
  name : m.name = m'.name
  parameters : m.parameters = m'.parameters
  attributes : m.attributes = m'.attributes
  calls : m.calls ⊆ m'.calls

/-- The same type, where methods may have more calls, those of nested types too. -/
inductive TypeDecl.AddsCalls : TypeDecl → TypeDecl → Prop
  | intro (d : TypeDecl) {methods : List MethodDecl} {nested : List TypeDecl}
      (more : List.Forall₂ MethodDecl.AddsCalls d.methods methods)
      (below : List.Forall₂ TypeDecl.AddsCalls d.nested nested) :
      TypeDecl.AddsCalls d { d with methods, nested }

/-- The same project, where methods may have more calls. -/
structure ProjectDecl.AddsCalls (d d' : ProjectDecl) : Prop where
  name : d.name = d'.name
  references : d.references = d'.references
  error : d.error = d'.error
  types : List.Forall₂ TypeDecl.AddsCalls d.types d'.types

/-- The same solution, where methods may have more calls. -/
structure Solution.AddsCalls (s s' : Solution) : Prop where
  name : s.name = s'.name
  projects : List.Forall₂ ProjectDecl.AddsCalls s.projects s'.projects
  externalTypes : List.Forall₂ TypeDecl.AddsCalls s.externalTypes s'.externalTypes

/-- Types of the same qualified name, where methods may have more calls. -/
structure TypeSite.AddsCalls (T T' : TypeSite) : Prop where
  name : T.name = T'.name
  decl : T.decl.AddsCalls T'.decl

theorem MethodDecl.AddsCalls.refl (m : MethodDecl) : m.AddsCalls m :=
  ⟨rfl, rfl, rfl, List.Subset.refl _⟩

namespace TypeDecl.AddsCalls

variable {d d' : TypeDecl}

theorem refl (d : TypeDecl) : d.AddsCalls d := by
  induction d using induction_nested with
  | h d ih =>
    have hsame := intro d (List.forall₂_same.2 fun m _ => .refl m) (List.forall₂_same.2 ih)
    cases d
    exact hsame

theorem sitesUnder (h : d.AddsCalls d') (pre : String) :
    List.Forall₂ TypeSite.AddsCalls (d.sitesUnder pre) (d'.sitesUnder pre) := by
  induction d using induction_nested generalizing d' pre with
  | h d ih =>
    have hown := h
    obtain ⟨_, -, hnested⟩ := h
    rw [sitesUnder_eq, sitesUnder_eq, nestedSites_eq, nestedSites_eq]
    refine .cons ⟨rfl, hown⟩ (List.rel_flatMap (forall₂_mem hnested) ?_)
    rintro n n' ⟨hn, -, hadds⟩
    exact ih n hn hadds _

theorem sites (h : d.AddsCalls d') : List.Forall₂ TypeSite.AddsCalls d.sites d'.sites := by
  have hpath : d.spacePath = d'.spacePath := by
    obtain ⟨_, -⟩ := h
    rfl
  rw [TypeDecl.sites, TypeDecl.sites, hpath]
  exact h.sitesUnder _

end TypeDecl.AddsCalls

namespace TypeSite.AddsCalls

variable {T T' : TypeSite}

theorem matched (h : T.AddsCalls T') : T.Matches T' := by
  obtain ⟨name, decl⟩ := T
  obtain ⟨name', decl'⟩ := T'
  obtain ⟨hname, _, -⟩ := h
  exact ⟨hname, rfl, fun _ => Iff.rfl⟩

theorem methods (h : T.AddsCalls T') : List.Forall₂ MethodSite.Within T.methods T'.methods := by
  obtain ⟨name, decl⟩ := T
  obtain ⟨name', decl'⟩ := T'
  obtain ⟨hname, _, hmore, -⟩ := h
  refine List.rel_map ?_ hmore
  intro m m' hm
  refine ⟨hname, ?_, hm.attributes ▸ List.Subset.refl _, hm.calls⟩
  change m.key = m'.key
  rw [MethodDecl.key, MethodDecl.key, hm.name, hm.parameters]

end TypeSite.AddsCalls

theorem ProjectDecl.AddsCalls.methodSites {d d' : ProjectDecl} (h : d.AddsCalls d') :
    List.Forall₂ MethodSite.Within d.methodSites d'.methodSites :=
  List.rel_flatMap (List.rel_flatMap h.types fun _ _ hd => hd.sites) fun _ _ hT => hT.methods

theorem MethodSite.Within.entry_eq {m m' : MethodSite} (h : m.Within m') (project : String) :
    m.entry project = m'.entry project := by
  have hname : trim m.decl.name = trim m'.decl.name := congrArg Prod.fst h.key
  have hparameters := congrArg Prod.snd h.key
  rw [entry, entry, h.typeName, hname]
  exact congrArg _ hparameters

/-- A method of a project and the one that a solution keeps of it, reported alike. -/
def Solution.KeepsEntry (s : Solution) (x x' : String × MethodSite) : Prop :=
  x.2.entry x.1 = x'.2.entry x'.1 ∧ s.Keeps x.2 x'.2

theorem ProjectDecl.AddsCalls.analysed {s' : Solution} {d d' : ProjectDecl} (h : d.AddsCalls d')
    (hd' : d' ∈ s'.projects) : List.Forall₂ s'.KeepsEntry d.analysed d'.analysed := by
  rw [ProjectDecl.analysed, ProjectDecl.analysed, h.error]
  split
  · refine List.rel_map ?_ (forall₂_mem h.methodSites)
    rintro m m' ⟨-, hm', hwithin⟩
    refine ⟨?_, Solution.mem_methodSites_of_project hd' hm', hwithin⟩
    rw [h.name]
    exact hwithin.entry_eq _
  · exact .nil

namespace Solution.AddsCalls

variable {s s' : Solution}

theorem refl (s : Solution) : s.AddsCalls s :=
  ⟨rfl, List.forall₂_same.2 fun _ _ => ⟨rfl, rfl, rfl, List.forall₂_same.2 fun d _ => .refl d⟩,
    List.forall₂_same.2 fun d _ => .refl d⟩

theorem sites (h : s.AddsCalls s') : List.Forall₂ TypeSite.AddsCalls s.sites s'.sites := by
  refine List.rel_flatMap (List.rel_append ?_ h.externalTypes) fun _ _ hd => hd.sites
  exact List.rel_flatMap h.projects fun _ _ hd => hd.types

theorem within (h : s.AddsCalls s') : s.Within s' where
  forth T hT := by
    obtain ⟨T', hT', hadds⟩ := exists_right_of_mem h.sites hT
    exact ⟨T', hT', hadds.matched⟩
  back T' hT' := by
    obtain ⟨T, hT, hadds⟩ := exists_left_of_mem h.sites hT'
    exact ⟨T, hT, hadds.matched⟩
  methods m hm := by
    have hmethods := List.rel_flatMap h.sites fun _ _ hT => TypeSite.AddsCalls.methods hT
    exact exists_right_of_mem hmethods hm

/-- Calls do not count for the order of the projects. -/
theorem order_eq (h : s.AddsCalls s') :
    ProjectOrder.order s.projects = ProjectOrder.order s'.projects := by
  have houtline : s.projects.map ProjectOrder.outline = s'.projects.map ProjectOrder.outline := by
    rw [← List.forall₂_eq_eq_eq, List.forall₂_map_left_iff, List.forall₂_map_right_iff]
    refine h.projects.imp fun d d' hd => ?_
    rw [ProjectOrder.outline, ProjectOrder.outline, hd.name, hd.references]
  rw [← ProjectOrder.order_outline, houtline, ProjectOrder.order_outline]

theorem analysed (h : s.AddsCalls s') {order : List Nat}
    (hperm : order.Perm (List.range s.projects.length)) :
    List.Forall₂ s'.KeepsEntry (s.analysed order) (s'.analysed order) := by
  have hpositions : List.Forall₂ (fun i j => i ∈ order ∧ i = j) order order :=
    List.forall₂_same.2 fun i hi => ⟨hi, rfl⟩
  refine List.rel_flatMap hpositions ?_
  rintro i _ ⟨hi, rfl⟩
  have hlt : i < s.projects.length := List.mem_range.1 (hperm.subset hi)
  have hlt' : i < s'.projects.length := h.projects.length_eq ▸ hlt
  have hadds := h.projects.get hlt hlt'
  change List.Forall₂ _ (s.projects.getD i default).analysed (s'.projects.getD i default).analysed
  rw [List.getD_eq_getElem _ _ hlt, List.getD_eq_getElem _ _ hlt']
  exact hadds.analysed (List.getElem_mem hlt')

end Solution.AddsCalls

/-! ## Runs -/

/-- What one outcome has as tested the other has too, and the two have the same methods. -/
structure Outcome.Within (o o' : Outcome) : Prop where
  tested : o.tested.Sublist o'.tested
  untested : o'.untested.Sublist o.untested
  methods : (o.tested ++ o.untested).Perm (o'.tested ++ o'.untested)

-- Lists that give the same entries give fewer of them where fewer are kept.
theorem sublist_map_filter {α β γ : Type} {as : List α} {bs : List β} {f : α → γ} {g : β → γ}
    {keep : α → Bool} {keep' : β → Bool}
    (h : List.Forall₂ (fun a b => f a = g b ∧ (keep a = true → keep' b = true)) as bs) :
    ((as.filter keep).map f).Sublist ((bs.filter keep').map g) := by
  induction h with
  | nil => exact .slnil
  | @cons a b as bs hab _ ih =>
    obtain ⟨heq, hkeep⟩ := hab
    by_cases ha : keep a = true
    · rw [List.filter_cons_of_pos ha, List.filter_cons_of_pos (hkeep ha), List.map_cons,
        List.map_cons, heq]
      exact ih.cons_cons (g b)
    · rw [List.filter_cons_of_neg ha]
      exact ih.trans (((List.sublist_cons_self b bs).filter keep').map g)

theorem map_filter_append_perm {α β : Type} (as : List α) (f : α → β) (keep : α → Bool) :
    ((as.filter (keep · == true)).map f ++ (as.filter (keep · == false)).map f).Perm (as.map f) := by
  rw [← List.map_append]
  simp only [beq_true, beq_false]
  exact (List.filter_append_perm keep as).map f

variable {s s' : Solution} {names names' : List String} {mode mode' : Propagation}

/-- Outcomes that have what two solutions say of the same projects compare as the solutions do. -/
theorem Solution.Reports.within {order : List Nat} {o o' : Outcome}
    (h : List.Forall₂ (fun x x' => x.2.entry x.1 = x'.2.entry x'.1 ∧
      (s.Tested names mode x.2 → s'.Tested names' mode' x'.2)) (s.analysed order)
        (s'.analysed order))
    (ho : s.Reports names mode order o) (ho' : s'.Reports names' mode' order o') :
    o.Within o' := by
  have hentries : (s.analysed order).map (fun x => x.2.entry x.1) =
      (s'.analysed order).map fun x => x.2.entry x.1 := by
    rw [← List.forall₂_eq_eq_eq, List.forall₂_map_left_iff, List.forall₂_map_right_iff]
    exact h.imp fun _ _ hx => hx.1
  refine ⟨?_, ?_, ?_⟩
  · rw [ho.tested, ho'.tested]
    refine sublist_map_filter (h.imp fun x x' hx => ⟨hx.1, ?_⟩)
    simpa using hx.2
  · rw [ho.untested, ho'.untested]
    refine sublist_map_filter (h.flip.imp fun x' x hx => ⟨hx.1.symm, ?_⟩)
    simpa using mt hx.2
  · rw [ho.tested, ho.untested, ho'.tested, ho'.untested]
    refine (map_filter_append_perm _ _ _).trans ?_
    rw [hentries]
    exact (map_filter_append_perm _ _ _).symm

namespace Criteria

variable {σ τ : Type} {p p' : Program}

/-- Runs of two programs compare as their solutions, their names of markers and the calls that
count do. -/
theorem run_within (h : s.AddsCalls s') (hload : Program.load s = .ok p)
    (hload' : Program.load s' = .ok p') (hnames : names.map trim ⊆ names'.map trim)
    (hmode : mode = mode' ∨ mode = .oneHop) {w : Watch (StateM σ)} {token : Token} {st : σ}
    (hw : w.HoldsFrom token st) {w' : Watch (StateM τ)} {token' : Token} {st' : τ}
    (hw' : w'.HoldsFrom token' st') :
    ∃ o o',
      ((Criteria.run ⟨p, .ofNames names, mode⟩ w (p.frontEnd w) none token).run st).1 = .ok o ∧
      ((Criteria.run ⟨p', .ofNames names', mode'⟩ w' (p'.frontEnd w') none token').run st').1 =
        .ok o' ∧
      o.Within o' := by
  have hwf : s.WellFormed := (Program.load_meets s).exists_ok_iff.1 ⟨p, hload⟩
  have hwf' : s'.WellFormed := (Program.load_meets s').exists_ok_iff.1 ⟨p', hload'⟩
  obtain ⟨order, o, horder, hperm, hrun, ho⟩ := run_reports hload names mode w token st hw
  obtain ⟨order', o', horder', -, hrun', ho'⟩ :=
    run_reports hload' names' mode' w' token' st' hw'
  obtain rfl : order = order' := by
    rw [h.order_eq, horder'] at horder
    exact (Except.ok.inj horder).symm
  refine ⟨o, o', hrun, hrun', Solution.Reports.within ((h.analysed hperm).imp ?_) ho ho'⟩
  exact fun x x' hx => ⟨hx.1, h.within.tested hwf hwf' hnames hmode hx.2⟩

/-- Under tokens that hold, what a run reports as tested is reported as tested, in the same order
and among the same methods, by a run that follows all calls where the first followed one, by one for
more names of markers, and by one over a solution that has more calls. -/
theorem run_monotone (hload : Program.load s = .ok p) (w : Watch (StateM σ)) (token : Token)
    (st : σ) (hw : w.HoldsFrom token st) (w' : Watch (StateM τ)) (token' : Token) (st' : τ)
    (hw' : w'.HoldsFrom token' st') :
    (∀ names, ∃ o o',
      ((Criteria.run ⟨p, .ofNames names, .oneHop⟩ w (p.frontEnd w) none token).run st).1 = .ok o ∧
      ((Criteria.run ⟨p, .ofNames names, .transitive⟩ w' (p.frontEnd w') none token').run st').1 =
        .ok o' ∧
      o.Within o') ∧
    (∀ names names' mode, names.map trim ⊆ names'.map trim → ∃ o o',
      ((Criteria.run ⟨p, .ofNames names, mode⟩ w (p.frontEnd w) none token).run st).1 = .ok o ∧
      ((Criteria.run ⟨p, .ofNames names', mode⟩ w' (p.frontEnd w') none token').run st').1 =
        .ok o' ∧
      o.Within o') ∧
    ∀ s' p', s.AddsCalls s' → Program.load s' = .ok p' → ∀ names mode, ∃ o o',
      ((Criteria.run ⟨p, .ofNames names, mode⟩ w (p.frontEnd w) none token).run st).1 = .ok o ∧
      ((Criteria.run ⟨p', .ofNames names, mode⟩ w' (p'.frontEnd w') none token').run st').1 =
        .ok o' ∧
      o.Within o' := by
  have hsame := Solution.AddsCalls.refl s
  refine ⟨fun names => ?_, fun names names' mode hnames => ?_, ?_⟩
  · exact run_within hsame hload hload (List.Subset.refl _) (.inr rfl) hw hw'
  · exact run_within hsame hload hload hnames (.inl rfl) hw hw'
  · intro s' p' hadds hload' names mode
    exact run_within hadds hload hload' (List.Subset.refl _) (.inl rfl) hw hw'

end Criteria

/-- A test two calls away from a method of a nested type, and a method that nothing calls; `more` are
further calls of the method in the middle. -/
def deepCalls (more : List String) : Solution where
  projects :=
    [{ name := "Tests"
       references := ["Core"]
       types := [{ name := "ServiceTests"
                   methods := [{ name := "covers"
                                 attributes := ["Fact"]
                                 calls := ["App.Service::run"] }] }] },
     { name := "Core"
       types := [{ name := "Service"
                   spaceName := some "App"
                   methods := [{ name := "run", calls := "App.Service+Cache::load" :: more },
                               { name := "idle" }]
                   nested := [{ name := "Cache", methods := [{ name := "load" }] }] }] }]
  externalTypes :=
    [{ name := "Fact", interfaces := ["Test"] }, { name := "Test", kind := .interfaceType }]

theorem deepCalls_addsCalls (more : List String) :
    (deepCalls []).AddsCalls (deepCalls more) := by
  have hcall : ["App.Service+Cache::load"] ⊆ "App.Service+Cache::load" :: more :=
    List.cons_subset_cons _ (List.nil_subset more)
  have hrun : MethodDecl.AddsCalls ⟨"run", [], [], ["App.Service+Cache::load"]⟩
      ⟨"run", [], [], "App.Service+Cache::load" :: more⟩ := ⟨rfl, rfl, rfl, hcall⟩
  refine ⟨rfl, ?_, List.forall₂_same.2 fun d _ => .refl d⟩
  refine .cons ⟨rfl, rfl, rfl, List.forall₂_same.2 fun d _ => .refl d⟩ (.cons ?_ .nil)
  refine ⟨rfl, rfl, rfl, .cons ?_ .nil⟩
  exact .intro _ (.cons hrun (.cons (.refl _) .nil)) (List.forall₂_same.2 fun d _ => .refl d)

theorem Criteria.run_monotone_deepCalls :
    ∃ p p', Program.load (deepCalls []) = .ok p ∧
      Program.load (deepCalls ["App.Service::idle"]) = .ok p' ∧
      (deepCalls []).AddsCalls (deepCalls ["App.Service::idle"]) ∧
      ["Fact"].map trim ⊆ ["Test", " Fact "].map trim ∧
      ∃ token st, Session.watch.HoldsFrom token st ∧
        (∃ o o',
          ((Criteria.run ⟨p, .ofNames ["Test"], .oneHop⟩ Session.watch (p.frontEnd Session.watch)
            none token).run st).1 = .ok o ∧
          ((Criteria.run ⟨p, .ofNames ["Test"], .transitive⟩ Session.watch
            (p.frontEnd Session.watch) none token).run st).1 = .ok o' ∧
          o.Within o') ∧
        (∃ o o',
          ((Criteria.run ⟨p, .ofNames ["Fact"], .oneHop⟩ Session.watch (p.frontEnd Session.watch)
            none token).run st).1 = .ok o ∧
          ((Criteria.run ⟨p, .ofNames ["Test", " Fact "], .oneHop⟩ Session.watch
            (p.frontEnd Session.watch) none token).run st).1 = .ok o' ∧
          o.Within o') ∧
        ∃ o o',
          ((Criteria.run ⟨p, .ofNames ["Test"], .transitive⟩ Session.watch
            (p.frontEnd Session.watch) none token).run st).1 = .ok o ∧
          ((Criteria.run ⟨p', .ofNames ["Test"], .transitive⟩ Session.watch
            (p'.frontEnd Session.watch) none token).run st).1 = .ok o' ∧
          o.Within o' := by
  have hloads : (Program.load (deepCalls [])).toOption.map (fun _ => ()) = some () := by
    decide +kernel
  have hloads' : (Program.load (deepCalls ["App.Service::idle"])).toOption.map (fun _ => ()) =
      some () := by
    decide +kernel
  have hholds : Session.watch.HoldsFrom (Session.newToken {}).1 (Session.newToken {}).2 :=
    Session.holdsFrom _ rfl rfl
  have hnames : ["Fact"].map trim ⊆ ["Test", " Fact "].map trim := by decide +kernel
  have hadds := deepCalls_addsCalls ["App.Service::idle"]
  obtain ⟨p, hload, -⟩ := exists_ok_of_map hloads
  obtain ⟨p', hload', -⟩ := exists_ok_of_map hloads'
  obtain ⟨hhops, hmarkers, hcalls⟩ := Criteria.run_monotone hload _ _ _ hholds _ _ _ hholds
  exact ⟨p, p', hload, hload', hadds, hnames, _, _, hholds, hhops ["Test"],
    hmarkers _ _ .oneHop hnames, hcalls _ p' hadds hload' ["Test"] .transitive⟩

end TestReach
