import TestReach.Program
import TestReach.Proofs.ProjectOrder
import TestReach.Proofs.Resolving

/-!
# Which solutions load

Loading declares, resolves and orders, and each of the three has its own condition. Together they
are the conditions of `Solution.WellFormed`, none of which depends on the order of declarations
(`Program.load_ok_iff_wellFormed`).
-/

namespace TestReach

open Text

/-! ## The table of a solution -/

namespace Solution

open SymbolTable

/-- The paths of the namespaces that types are in. -/
def spacePaths (s : Solution) : List String :=
  s.topTypes.flatMap TypeDecl.spacePaths

theorem sites_eq (s : Solution) :
    s.sites = s.projects.flatMap ProjectDecl.sites ++ s.externalTypes.flatMap TypeDecl.sites := by
  rw [sites, topTypes, List.flatMap_append, List.flatMap_assoc]
  rfl

theorem mem_methodSites_of_project {s : Solution} {d : ProjectDecl} {m : MethodSite}
    (hd : d ∈ s.projects) (hm : m ∈ d.methodSites) : m ∈ s.methodSites := by
  rw [methodSites, s.sites_eq, List.flatMap_append, List.flatMap_assoc]
  exact List.mem_append_left _ (List.mem_flatMap.2 ⟨d, hd, hm⟩)

theorem spacePaths_eq (s : Solution) :
    s.spacePaths = s.projects.flatMap ProjectDecl.spacePaths ++
      s.externalTypes.flatMap TypeDecl.spacePaths := by
  rw [spacePaths, topTypes, List.flatMap_append, List.flatMap_assoc]
  rfl

/-- A table with the methods of each project, and the blocks that it has: those of the projects, and
those of the types from outside. -/
structure Placed (s : Solution) (t : SymbolTable) (listings : List (List SymbolId))
    (news : List (List Block)) (outside : List Block) : Prop where
  layout : t.Layout (news.flatten ++ outside) s.spacePaths
  listed : Listed s.projects news listings
  outside : outside.map (·.site) = s.externalTypes.flatMap TypeDecl.sites

theorem Placed.sites_eq {s : Solution} {t : SymbolTable} {listings : List (List SymbolId)}
    {news : List (List Block)} {outside : List Block} (h : s.Placed t listings news outside) :
    (news.flatten ++ outside).map (·.site) = s.sites := by
  rw [s.sites_eq, List.map_append, List.map_flatten, h.listed.sites, h.outside, ← List.flatMap_def]

theorem ofSolution_eq (s : Solution) :
    ofSolution s = initial.declareProjects s.projects >>= fun r =>
      r.1.declareTypes s.externalTypes >>= fun t' => .ok (t', r.2) := by
  rw [ofSolution]
  cases initial.declareProjects s.projects with
  | error e => rfl
  | ok r =>
    obtain ⟨t, listings⟩ := r
    change _ = t.declareTypes s.externalTypes >>= _
    dsimp only
    cases t.declareTypes s.externalTypes <;> rfl

theorem ofSolution_meets (s : Solution) :
    Meets (ofSolution s) (Admits [] [] s.sites s.spacePaths)
      fun r => ∃ news outside, s.Placed r.1 r.2 news outside := by
  rw [s.sites_eq, s.spacePaths_eq, s.ofSolution_eq]
  refine Meets.bind (declareProjects_meets initial_layout s.projects) Admits.left ?_
  rintro ⟨t, listings⟩ - hfirst ⟨news, hlisted, hg⟩
  have hnews : news.flatten.map (·.site) = s.projects.flatMap ProjectDecl.sites := by
    rw [List.map_flatten, hlisted.sites, ← List.flatMap_def]
  refine Meets.bind (declareTypes_declares hg.layout s.externalTypes)
    (fun hboth => ((admits_append_iff hnews).1 hboth).2) ?_
  rintro t' - hrest ⟨outside, houtside, hg'⟩
  refine ⟨(admits_append_iff hnews).2 ⟨hfirst, hrest⟩, news, outside, ?_, hlisted, houtside⟩
  have hlayout := hg'.layout
  rw [List.nil_append, List.nil_append, ← s.spacePaths_eq] at hlayout
  exact hlayout

end Solution

/-! ## Loading -/

namespace Solution

open SymbolTable

theorem admits_iff (s : Solution) :
    Admits [] [] s.sites s.spacePaths ↔ (s.sites.map (·.name)).Nodup ∧
      (∀ T ∈ s.sites, ∀ d ∈ s.topTypes, ∀ path, path <+: d.spacePath → path ≠ [] →
        T.name ≠ joinWith "." path) ∧
      ∀ T ∈ s.sites, (T.decl.methods.map MethodDecl.key).Nodup := by
  have happart : (∀ name ∈ s.sites.map (·.name), name ∉ s.spacePaths) ↔
      ∀ T ∈ s.sites, ∀ d ∈ s.topTypes, ∀ path, path <+: d.spacePath → path ≠ [] →
        T.name ≠ joinWith "." path := by
    simp only [List.forall_mem_map, spacePaths, List.mem_flatMap, TypeDecl.mem_spacePaths]
    constructor
    · rintro hall T hT d hd path hpath hne hname
      exact hall T hT ⟨d, hd, path, hpath, hne, hname.symm⟩
    · rintro hall T hT ⟨d, hd, path, hpath, hne, hname⟩
      exact hall T hT d hd path hpath hne hname.symm
  rw [← happart]
  exact ⟨fun h => ⟨h.names.nodup, h.names.apart, h.overloads⟩,
    fun ⟨hn, ha, ho⟩ => ⟨⟨hn, ha⟩, ho⟩⟩

theorem wellFormed_iff (s : Solution) {blocks : List Block}
    (hblocks : blocks.map (·.site) = s.sites) :
    s.WellFormed ↔ Admits [] [] s.sites s.spacePaths ∧
      (∀ b ∈ blocks,
        HierarchyOk s.sites b.site.decl.kind b.site.decl.base b.site.decl.interfaces ∧
          ∀ m ∈ b.site.decl.methods, ∀ call ∈ m.calls, CallOk s.sites call) ∧
      ∀ p ∈ s.projects, ∀ reference ∈ p.references, ∃ q ∈ s.projects, q.name = reference := by
  have hsites : ∀ P : TypeSite → Prop, (∀ b ∈ blocks, P b.site) ↔ ∀ T ∈ s.sites, P T := by
    intro P
    rw [← hblocks, List.forall_mem_map]
  rw [hsites fun T => HierarchyOk s.sites T.decl.kind T.decl.base T.decl.interfaces ∧
    ∀ m ∈ T.decl.methods, ∀ call ∈ m.calls, CallOk s.sites call, s.admits_iff]
  constructor
  · intro h
    exact ⟨⟨h.distinct, h.apart, h.overloads⟩,
      fun T hT => ⟨⟨h.bases T hT, h.interfaces T hT⟩, h.calls T hT⟩, h.references⟩
  · rintro ⟨⟨hdistinct, hapart, hoverloads⟩, hrefs, hprojects⟩
    exact ⟨hdistinct, hapart, hoverloads, fun T hT => (hrefs T hT).1.base,
      fun T hT => (hrefs T hT).1.interfaces, fun T hT => (hrefs T hT).2, hprojects⟩

end Solution

namespace Program

open SymbolTable

/-- What a loaded program is, in terms of the blocks of its table. -/
structure LoadedFrom (s : Solution) (p : Program) (news : List (List Block)) (outside : List Block)
    (order : List Nat) : Prop where
  placed : s.Placed p.table (news.map (·.flatMap Block.methodIds)) news outside
  links : List.Forall₂
    (fun id link => ∀ symbol, p.table.symbol? id = some symbol →
      LinkFits p.table (news.flatten ++ outside) link symbol.body)
    (List.range p.table.size) p.links.toList
  callerIndex : p.callerIndex = indexCallers p.table.size (allCalls p.links.toList)
  ordered : ProjectOrder.order s.projects = .ok order
  perm : order.Perm (List.range s.projects.length)
  projects : p.projects = arrange s.projects (news.map (·.flatMap Block.methodIds)) order

theorem load_meets (s : Solution) :
    Meets (load s) s.WellFormed fun p =>
      ∃ news outside order, LoadedFrom s p news outside order := by
  rw [load]
  rcases (s.ofSolution_meets).cases with
    ⟨e, he, hno⟩ | ⟨⟨t, listings⟩, htable, hadmits, news, outside, hplaced⟩
  · rw [he]
    exact fun hwf => hno (s.admits_iff.2 ⟨hwf.distinct, hwf.apart, hwf.overloads⟩)
  · have hwf := s.wellFormed_iff hplaced.sites_eq
    rw [htable]
    dsimp only
    rcases (resolveAll_meets hplaced.layout).cases with ⟨e, he, hno⟩ | ⟨links, hlinks, hrefs, hfits⟩
    · rw [he]
      rw [referencesOk_iff hplaced.layout, hplaced.sites_eq] at hno
      exact fun h => hno (hwf.1 h).2.1
    · rw [hlinks]
      dsimp only
      rw [referencesOk_iff hplaced.layout, hplaced.sites_eq] at hrefs
      rcases (ProjectOrder.order_meets s.projects).cases with
        ⟨e, he, hno⟩ | ⟨order, horder, hprojects, front, rest, rfl, hexact⟩
      · rw [he]
        exact fun h => hno (hwf.1 h).2.2
      · rw [horder]
        have hlistings : listings = _ := hplaced.listed.methods
        subst hlistings
        exact ⟨hwf.2 ⟨hadmits, hrefs, hprojects⟩, news, outside, front ++ rest,
          ⟨hplaced, by simpa using hfits, by simp, horder, hexact.perm, rfl⟩⟩

/-- A solution loads exactly when it is well-formed. -/
theorem load_ok_iff_wellFormed (s : Solution) : (∃ p, load s = .ok p) ↔ s.WellFormed :=
  (load_meets s).exists_ok_iff

-- Blanks around segments, and blank segments, make no other namespace.
example :
    let types : List TypeDecl :=
      [{ name := "Order", spaceName := some " App . . Models." },
       { name := "Item", spaceName := some "App.Models" }]
    (load { projects := [{ name := "Core", types }] }).toOption.map (fun p =>
      (p.table.findSpace "App.Models", p.table.findType "App.Models.Order",
        p.table.findType "App.Models.Item", p.table.size)) =
      some (some 2, some 3, some 4, 5) := by
  decide +kernel

-- A type with the name of a padded namespace is refused, whichever comes first.
example :
    let types : List TypeDecl :=
      [{ name := "Models", spaceName := some "App" },
       { name := "Order", spaceName := some " App . Models " }]
    (load { projects := [{ name := "Core", types }] }).toOption.isNone = true ∧
      (load { projects := [{ name := "Core", types := types.reverse }] }).toOption.isNone =
        true := by
  decide +kernel

end Program

end TestReach
