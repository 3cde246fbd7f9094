import TestReach.Proofs.Reference
import Mathlib.Data.Set.Card

/-!
# Which method is which

A method is known by the qualified name of its type, its name and its parameters. In a loaded program
no two methods are known by the same (`Represents.eq_of_identity?`), so that what is known of a
number says which declared method it stands for (`Program.Denotes`). Each method of a project is
listed by that project and by no other, and no two entries of a report are of one method.
-/

namespace TestReach

open Text

variable {σ : Type}

/-! ## What methods are known by -/

/-- What a method is known by. -/
structure MethodIdentity where
  typeName : String
  name : String
  parameters : List String
  deriving DecidableEq

def MethodSite.identity (m : MethodSite) : MethodIdentity :=
  ⟨m.typeName, m.decl.key.1, m.decl.key.2⟩

/-- What the method of an entry is known by; the project does not count. -/
def Entry.identity (e : Entry) : MethodIdentity :=
  ⟨e.typeName, e.name, e.parameters⟩

namespace SymbolTable

/-- The number is that of a method. -/
def IsMethod (t : SymbolTable) (id : SymbolId) : Prop :=
  ∃ symbol, t.symbol? id = some symbol ∧ symbol.isMethod = true

/-- What the method of a number is known by, if the number is that of a method. -/
def identity? (t : SymbolTable) (id : SymbolId) : Option MethodIdentity := do
  let owner ← t.containingType id
  let symbol ← t.symbol? id
  return ⟨t.qualifiedName owner, symbol.name, symbol.parameters⟩

theorem isMethod_of_identity? {t : SymbolTable} {id : SymbolId} {identity : MethodIdentity}
    (h : t.identity? id = some identity) : t.IsMethod id := by
  obtain ⟨owner, howner, -⟩ := Option.bind_eq_some_iff.1 h
  unfold containingType at howner
  cases hs : t.symbol? id with
  | none => simp [hs] at howner
  | some symbol =>
    rw [hs] at howner
    dsimp only at howner
    split at howner
    · exact ⟨symbol, hs, ‹_›⟩
    · cases howner

end SymbolTable

/-- The methods of the types from outside. -/
def Solution.externalMethodSites (s : Solution) : List MethodSite :=
  (s.externalTypes.flatMap TypeDecl.sites).flatMap TypeSite.methods

theorem Criteria.identity_describe {c : Criteria} {id : SymbolId} {identity : MethodIdentity}
    (h : c.program.table.identity? id = some identity) (ref : ProjectRef) :
    (c.describe ref id).identity = identity := by
  obtain ⟨owner, howner, h⟩ := Option.bind_eq_some_iff.1 h
  obtain ⟨symbol, hs, h⟩ := Option.bind_eq_some_iff.1 h
  rw [← Option.some.inj h]
  simp [Criteria.describe, Entry.identity, howner, hs]

namespace Program

open SymbolTable

variable {p : Program} {s : Solution} {blocks : List Block} {id id' : Nat} {m : MethodSite}

/-- The number is that of the declared method. -/
def Denotes (p : Program) (id : SymbolId) (m : MethodSite) : Prop :=
  p.table.identity? id = some m.identity

namespace Represents

theorem denotes_of_methodAt (h : p.Represents s blocks) (hm : MethodAt blocks id m) :
    p.Denotes id m := by
  obtain ⟨b, hb, hname, hmethod⟩ := hm
  have hs := h.layout.methodSymbols b hb id m.decl hmethod
  have htype := h.layout.typeNames b hb
  simp [Denotes, identity?, MethodSite.identity, MethodDecl.key, containingType, hs, methodSymbol,
    Symbol.isMethod, Symbol.parameters, htype, hname]

theorem methodAt_of_isMethod (h : p.Represents s blocks) (hid : p.table.IsMethod id) :
    ∃ m, MethodAt blocks id m := by
  obtain ⟨b, hb, hid⟩ := h.layout.isMethod_iff.1 hid
  obtain ⟨d, hd⟩ := Block.mem_methodIds.1 hid
  exact ⟨⟨b.site.name, d⟩, b, hb, rfl, hd⟩

/-- Types differ in their names, and the methods of a type in name or parameters. -/
theorem eq_of_identity? (h : p.Represents s blocks) {identity : MethodIdentity}
    (hid : p.table.identity? id = some identity) (hid' : p.table.identity? id' = some identity) :
    id = id' := by
  obtain ⟨m, hm⟩ := h.methodAt_of_isMethod (isMethod_of_identity? hid)
  obtain ⟨m', hm'⟩ := h.methodAt_of_isMethod (isMethod_of_identity? hid')
  have hsame : m.identity = m'.identity := by
    rw [h.denotes_of_methodAt hm, Option.some.injEq] at hid
    rw [h.denotes_of_methodAt hm', Option.some.injEq] at hid'
    rw [hid, hid']
  obtain ⟨b, hb, howner, hmethod⟩ := hm
  obtain ⟨b', hb', howner', hmethod'⟩ := hm'
  simp only [MethodSite.identity, MethodIdentity.mk.injEq] at hsame
  obtain ⟨htype, hname, hparameters⟩ := hsame
  obtain rfl := h.layout.block_eq_of_name hb hb' (howner.trans (htype.trans howner'.symm))
  have hoverloads : (b.site.decl.methods.map MethodDecl.key).Nodup :=
    h.wellFormed.overloads b.site (h.sites ▸ List.mem_map_of_mem hb)
  have hfits := h.layout.candidates_eq hb hoverloads hmethod
  rw [hname, hparameters, h.layout.candidates_eq hb hoverloads hmethod'] at hfits
  exact (List.singleton_inj.1 hfits).symm

theorem mem_iff_denotes (h : p.Represents s blocks) {ids : List SymbolId} {ms : List MethodSite}
    (hids : List.Forall₂ (MethodAt blocks) ids ms) : id ∈ ids ↔ ∃ m ∈ ms, p.Denotes id m := by
  constructor
  · intro hid
    obtain ⟨m, hm, hmethod⟩ := exists_right_of_mem hids hid
    exact ⟨m, hm, h.denotes_of_methodAt hmethod⟩
  · rintro ⟨m, hm, hdenotes⟩
    obtain ⟨id', hid', hmethod⟩ := exists_left_of_mem hids hm
    rw [h.eq_of_identity? hdenotes (h.denotes_of_methodAt hmethod)]
    exact hid'

theorem isMethod_iff (h : p.Represents s blocks) :
    p.table.IsMethod id ↔ ∃ m ∈ s.methodSites, p.Denotes id m := by
  rw [Solution.methodSites, ← h.sites, ← h.mem_iff_denotes (forall₂_methodAt (.refl _)),
    List.mem_flatMap]
  exact h.layout.isMethod_iff

end Represents

/-! ## Which project lists a method -/

/-- The methods of a program are those that the solution declares, and each project lists those that
it declares itself. -/
structure MethodsExact (p : Program) (s : Solution) : Prop where
  /-- Every declared method has a number. -/
  numbered : ∀ m ∈ s.methodSites, ∃ id, p.Denotes id m
  /-- The numbers of methods are those of declared methods. -/
  declared : ∀ id, p.table.IsMethod id ↔ ∃ m ∈ s.methodSites, p.Denotes id m
  /-- No two numbers are known by the same. -/
  unique : ∀ id id' identity, p.table.identity? id = some identity →
    p.table.identity? id' = some identity → id = id'
  /-- The projects, in the order of analysis, list what they declare. -/
  listed : ∃ order, ProjectOrder.order s.projects = .ok order ∧
    List.Forall₂ (fun i project => ∀ id, id ∈ project.methods ↔
      ∃ m ∈ (s.projects.getD i default).methodSites, p.Denotes id m) order p.projects
  /-- What a project declares is listed once. -/
  once : ∀ d ∈ s.projects, ∀ m ∈ d.methodSites, ∀ id, p.Denotes id m →
    ∃! k : Nat, ∃ project, p.projects[k]? = some project ∧ id ∈ project.methods
  /-- No project lists a method from outside. -/
  outside : ∀ m ∈ s.externalMethodSites, ∀ id, p.Denotes id m →
    ∀ project ∈ p.projects, id ∉ project.methods
  ascending : ∀ project ∈ p.projects, project.methods.Pairwise (· < ·)
  count : (p.methodCount : ℕ∞) =
    Set.encard {id | p.table.IsMethod id ∧ ¬∃ m ∈ s.externalMethodSites, p.Denotes id m}

-- Where no element is in two of the lists, an element is in the list at one position.
theorem existsUnique_position {α β : Type} {as : List α} {f : α → List β}
    (hn : (as.flatMap f).Nodup) {b : β} (hb : b ∈ as.flatMap f) :
    ∃! k : Nat, ∃ a, as[k]? = some a ∧ b ∈ f a := by
  obtain ⟨a, ha, hba⟩ := List.mem_flatMap.1 hb
  obtain ⟨k, hk⟩ := List.getElem?_of_mem ha
  refine ⟨k, ⟨a, hk, hba⟩, ?_⟩
  rintro k' ⟨a', hk', hba'⟩
  have hapart := List.pairwise_iff_getElem.1 (List.nodup_flatMap.1 hn).2
  obtain ⟨hlt, rfl⟩ := List.getElem?_eq_some_iff.1 hk
  obtain ⟨hlt', rfl⟩ := List.getElem?_eq_some_iff.1 hk'
  rcases Nat.lt_trichotomy k' k with hless | heq | hgreater
  · exact absurd hba (hapart k' k hlt' hlt hless hba')
  · exact heq
  · exact absurd hba' (hapart k k' hlt hlt' hgreater hba)

namespace LoadedFrom

variable {news : List (List Block)} {outside : List Block} {order : List Nat}

theorem mem_methods_iff (h : LoadedFrom s p news outside order)
    (hp : p.Represents s (news.flatten ++ outside)) :
    id ∈ p.projects.flatMap (·.methods) ↔ ∃ d ∈ s.projects, ∃ m ∈ d.methodSites, p.Denotes id m := by
  have hsites : news.flatten.map (·.site) = s.projects.flatMap ProjectDecl.sites := by
    rw [List.map_flatten, h.placed.listed.sites, ← List.flatMap_def]
  have hmethods := forall₂_methodAt (List.subset_append_left news.flatten outside)
  rw [h.methods_perm.mem_iff, hp.mem_iff_denotes hmethods, hsites, List.flatMap_assoc]
  simp only [List.mem_flatMap, ProjectDecl.methodSites]
  constructor
  · rintro ⟨m, ⟨d, hd, hm⟩, hdenotes⟩
    exact ⟨d, hd, m, hm, hdenotes⟩
  · rintro ⟨d, hd, m, hm, hdenotes⟩
    exact ⟨m, ⟨d, hd, hm⟩, hdenotes⟩

theorem mem_outside_iff (h : LoadedFrom s p news outside order)
    (hp : p.Represents s (news.flatten ++ outside)) :
    id ∈ outside.flatMap Block.methodIds ↔ ∃ m ∈ s.externalMethodSites, p.Denotes id m := by
  rw [hp.mem_iff_denotes (forall₂_methodAt (List.subset_append_right _ _)), h.placed.outside]
  rfl

/-- What projects list are the methods that are not from outside. -/
theorem mem_methods_iff_not_outside (h : LoadedFrom s p news outside order)
    (hp : p.Represents s (news.flatten ++ outside)) :
    id ∈ p.projects.flatMap (·.methods) ↔
      p.table.IsMethod id ∧ ¬∃ m ∈ s.externalMethodSites, p.Denotes id m := by
  have hmethod : p.table.IsMethod id ↔
      id ∈ news.flatten.flatMap Block.methodIds ∨ id ∈ outside.flatMap Block.methodIds := by
    rw [← List.mem_append, ← List.flatMap_append, List.mem_flatMap]
    exact hp.layout.isMethod_iff
  have hascending := hp.layout.pairwise_methodIds
  rw [List.flatMap_append, List.pairwise_append] at hascending
  rw [← h.mem_outside_iff hp, hmethod, h.methods_perm.mem_iff]
  constructor
  · exact fun hid => ⟨.inl hid, fun hid' => Nat.lt_irrefl id (hascending.2.2 id hid id hid')⟩
  · rintro ⟨hid | hid, hno⟩
    · exact hid
    · exact absurd hid hno

theorem methodsExact (h : LoadedFrom s p news outside order)
    (hp : p.Represents s (news.flatten ++ outside)) : p.MethodsExact s where
  numbered m hm := by
    obtain ⟨id, hid⟩ := (mem_methodSites_iff hp.sites).1 hm
    exact ⟨id, hp.denotes_of_methodAt hid⟩
  declared id := hp.isMethod_iff
  unique id id' identity := hp.eq_of_identity?
  listed := by
    refine ⟨order, h.ordered, ?_⟩
    rw [h.projects, arrange, List.forall₂_map_right_iff, List.forall₂_same]
    exact fun i hi id => hp.mem_iff_denotes (h.listing_forall₂ hi)
  once d hd m hm id hdenotes :=
    existsUnique_position h.nodup_methods ((h.mem_methods_iff hp).2 ⟨d, hd, m, hm, hdenotes⟩)
  outside m hm id hdenotes project hproject hid := by
    have hlisted : id ∈ p.projects.flatMap (·.methods) := List.mem_flatMap.2 ⟨project, hproject, hid⟩
    exact ((h.mem_methods_iff_not_outside hp).1 hlisted).2 ⟨m, hm, hdenotes⟩
  ascending := by
    have hascending := h.placed.layout.pairwise_methodIds
    rw [List.flatMap_append, ← List.flatMap_id, List.flatMap_assoc] at hascending
    rw [h.projects]
    intro project hproject
    obtain ⟨i, -, rfl⟩ := List.mem_map.1 hproject
    dsimp only
    rw [List.getD_eq_getElem?_getD, List.getElem?_map]
    cases hnew : news[i]? with
    | none => exact .nil
    | some new =>
      have hall := (List.pairwise_flatMap.1 (List.pairwise_append.1 hascending).1).1
      exact hall new (List.mem_of_getElem? hnew)
  count := by
    have hset : {id | p.table.IsMethod id ∧ ¬∃ m ∈ s.externalMethodSites, p.Denotes id m} =
        ((p.projects.flatMap (·.methods)).toFinset : Set SymbolId) := by
      ext id
      rw [Set.mem_ofPred_eq, Finset.mem_coe, List.mem_toFinset, h.mem_methods_iff_not_outside hp]
    rw [hset, Set.encard_coe_eq_coe_finsetCard, List.toFinset_card_of_nodup h.nodup_methods,
      methodCount]

end LoadedFrom

end Program

/-! ## Which entries a report has -/

namespace Criteria

variable {s : Solution} {p : Program}

/-- What the methods that a run reports are known by is what their entries show. -/
theorem identity?_of_mem_reported {c : Criteria} (hload : Program.load s = .ok c.program)
    {w : Watch (StateM σ)} {timeout : Option Nat} {token : Token} {st : σ} {o : Outcome}
    (hrun : ((c.run w (c.program.frontEnd w) timeout token).run st).1 = .ok o)
    {r : ProjectRef × SymbolId}
    (hr : r ∈ reported (c.visits w (c.program.frontEnd w) timeout token st)) :
    c.program.table.identity? r.2 = some (c.describe r.1 r.2).identity := by
  obtain ⟨hwf, news, outside, order, hloaded⟩ := (Program.load_meets s).of_ok hload
  obtain ⟨methods, hlist, hid⟩ := listed_of_mem_reported hrun hr
  obtain ⟨m, hm⟩ := hloaded.methodAt_of_listMethods hlist hid
  have hdenotes := (hloaded.represents hwf).denotes_of_methodAt hm
  rw [identity_describe hdenotes r.1]
  exact hdenotes

theorem nodup_identities {c : Criteria} (hload : Program.load s = .ok c.program)
    {w : Watch (StateM σ)} {timeout : Option Nat} {token : Token} {st : σ} {o : Outcome}
    (hrun : ((c.run w (c.program.frontEnd w) timeout token).run st).1 = .ok o) :
    ((o.tested ++ o.untested).map Entry.identity).Nodup := by
  obtain ⟨hwf, news, outside, order, hloaded⟩ := (Program.load_meets s).of_ok hload
  have hp := hloaded.represents hwf
  have hidentity := fun r => identity?_of_mem_reported hload hrun (r := r)
  obtain ⟨-, state, hacc, rfl⟩ := c.run_accounting hrun
  obtain ⟨verdict, htested, huntested⟩ := hacc.sides
  have hreported := nodup_reported (c.visits w (c.program.frontEnd w) timeout token st)
  have hone : ((reported (c.visits w (c.program.frontEnd w) timeout token st)).map
      fun r => (c.describe r.1 r.2).identity).Nodup := by
    refine List.Nodup.map_on ?_ (.of_map _ hreported)
    intro r hr r' hr' hsame
    have hid : r.2 = r'.2 := hp.eq_of_identity? (hidentity r hr) (hsame ▸ hidentity r' hr')
    exact List.inj_on_of_nodup_map hreported hr hr' hid
  rw [show (finish state).tested = _ from htested, show (finish state).untested = _ from huntested,
    ← List.map_append, List.map_map]
  exact ((List.filter_append_perm _ _).map _).nodup_iff.2 hone

end Criteria

/-- In a loaded program, what a method is known by says which it is, each method of a project is
listed once, by its project, and none from outside is; and no two entries of a report, of whatever
run, show the same method. -/
theorem Program.identity_unique {s : Solution} {p : Program} (hload : Program.load s = .ok p) :
    p.MethodsExact s ∧
      ∀ (markers : MarkerSet) (mode : Propagation) (w : Watch (StateM σ)) (timeout : Option Nat)
        (token : Token) (st : σ) (o : Outcome),
        ((Criteria.run ⟨p, markers, mode⟩ w (p.frontEnd w) timeout token).run st).1 = .ok o →
        ((o.tested ++ o.untested).map Entry.identity).Nodup := by
  obtain ⟨hwf, news, outside, order, hloaded⟩ := (load_meets s).of_ok hload
  refine ⟨hloaded.methodsExact (hloaded.represents hwf), ?_⟩
  intro markers mode w timeout token st o hrun
  exact Criteria.nodup_identities (c := ⟨p, markers, mode⟩) hload hrun

/-- Methods of one name: overloads, one in a nested type, one in a project that cannot be analysed,
and one from outside. -/
def sharedNames : Solution where
  projects :=
    [{ name := "Core"
       types := [{ name := "Store"
                   spaceName := some "App"
                   methods := [{ name := "put" }, { name := "put", parameters := ["Map<int, int>"] }]
                   nested := [{ name := "Shelf", methods := [{ name := "put" }] }] }] },
     { name := "Broken"
       error := some "no sources"
       types := [{ name := "Caller", methods := [{ name := "put" }] }] }]
  externalTypes := [{ name := "List", methods := [{ name := "put" }, { name := "get" }] }]

theorem Program.identity_unique_sharedNames :
    ∃ p o, Program.load sharedNames = .ok p ∧
      ((Criteria.run ⟨p, .ofNames [], .transitive⟩ Session.watch (p.frontEnd Session.watch) none
        (Session.newToken {}).1).run (Session.newToken {}).2).1 = .ok o ∧
      p.projects.map (·.methods) = [[3, 4, 6], [8]] ∧
      p.MethodsExact sharedNames ∧
      ((o.tested ++ o.untested).map Entry.identity).Nodup := by
  have hreport : (Program.load sharedNames).toOption.map (fun p =>
      (((Criteria.run ⟨p, .ofNames [], .transitive⟩ Session.watch (p.frontEnd Session.watch) none
        (Session.newToken {}).1).run (Session.newToken {}).2).1.toOption.map fun _ => (),
        p.projects.map (·.methods))) = some (some (), [[3, 4, 6], [8]]) := by
    decide +kernel
  obtain ⟨p, hload, hreport⟩ := exists_ok_of_map hreport
  obtain ⟨hruns, hlists⟩ := Prod.mk.inj hreport
  obtain ⟨o, hrun, -⟩ := exists_ok_of_map hruns
  obtain ⟨hexact, hentries⟩ := Program.identity_unique (σ := Session) hload
  exact ⟨p, o, hload, hrun, hlists, hexact, hentries _ _ _ _ _ _ o hrun⟩

end TestReach
