import TestReach.Proofs.Inclusion
import Mathlib.Data.List.Perm.Basic

/-!
# Solutions that differ in the order of declarations

Two solutions that list the same projects, types, methods, references, interfaces, attributes and
calls, each in an order of its own (`Solution.Reordered`), are well-formed together, and say the
same of every method, since each is within the other. Neither is read through numbers here: what is
matched are declarations with the same name.
-/

namespace TestReach

open Relation Text

/-! ## Lists that match up to their order -/

/-- The elements of one list are related to those of another, one to one and in any order. -/
inductive Rearranged {α β : Type} (R : α → β → Prop) (as : List α) (bs : List β) : Prop
  | intro {cs : List β} (related : List.Forall₂ R as cs) (perm : cs.Perm bs) : Rearranged R as bs

namespace Rearranged

variable {α β γ δ : Type} {R : α → β → Prop} {S : γ → δ → Prop} {as as' : List α} {bs bs' : List β}

theorem trans_perm (h : Rearranged R as bs) (hperm : bs.Perm bs') : Rearranged R as bs' := by
  obtain ⟨hrelated, hbs⟩ := h
  exact ⟨hrelated, hbs.trans hperm⟩

theorem imp {R' : α → β → Prop} (h : Rearranged R as bs) (hR : ∀ {a b}, R a b → R' a b) :
    Rearranged R' as bs := by
  obtain ⟨hrelated, hbs⟩ := h
  exact ⟨hrelated.imp fun _ _ => hR, hbs⟩

theorem symm (h : Rearranged R as bs) : Rearranged (fun b a => R a b) bs as := by
  obtain ⟨hrelated, hbs⟩ := h
  obtain ⟨as', hrelated', has⟩ := List.perm_comp_forall₂ hbs.symm (List.Forall₂.flip hrelated)
  exact ⟨hrelated', has⟩

theorem refl {R : α → α → Prop} (h : ∀ a ∈ as, R a a) : Rearranged R as as :=
  ⟨List.forall₂_same.2 h, .refl _⟩

theorem cons (h : Rearranged R as bs) {a : α} {b : β} (hab : R a b) :
    Rearranged R (a :: as) (b :: bs) := by
  obtain ⟨hrelated, hbs⟩ := h
  exact ⟨.cons hab hrelated, hbs.cons b⟩

theorem append (h : Rearranged R as bs) (h' : Rearranged R as' bs') :
    Rearranged R (as ++ as') (bs ++ bs') := by
  obtain ⟨hrelated, hbs⟩ := h
  obtain ⟨hrelated', hbs'⟩ := h'
  exact ⟨List.rel_append hrelated hrelated', hbs.append hbs'⟩

theorem exists_right (h : Rearranged R as bs) {a : α} (ha : a ∈ as) : ∃ b ∈ bs, R a b := by
  obtain ⟨hrelated, hbs⟩ := h
  obtain ⟨b, hb, hR⟩ := exists_right_of_mem hrelated ha
  exact ⟨b, hbs.subset hb, hR⟩

theorem exists_left (h : Rearranged R as bs) {b : β} (hb : b ∈ bs) : ∃ a ∈ as, R a b :=
  h.symm.exists_right hb

theorem length_eq (h : Rearranged R as bs) : as.length = bs.length := by
  obtain ⟨hrelated, hbs⟩ := h
  exact hrelated.length_eq.trans hbs.length_eq

theorem within (h : Rearranged R as bs) :
    Rearranged (fun a b => a ∈ as ∧ b ∈ bs ∧ R a b) as bs := by
  obtain ⟨hrelated, hbs⟩ := h
  exact ⟨(forall₂_mem hrelated).imp fun a b hab => ⟨hab.1, hbs.subset hab.2.1, hab.2.2⟩, hbs⟩

theorem flatMap (h : Rearranged R as bs) {f : α → List γ} {g : β → List δ}
    (hfg : ∀ {a b}, R a b → Rearranged S (f a) (g b)) :
    Rearranged S (as.flatMap f) (bs.flatMap g) := by
  obtain ⟨hrelated, hbs⟩ := h
  refine trans_perm ?_ (hbs.flatMap_right g)
  clear hbs
  induction hrelated with
  | nil => exact ⟨.nil, .refl _⟩
  | cons hab _ ih => exact (hfg hab).append ih

theorem map (h : Rearranged R as bs) {f : α → γ} {g : β → δ}
    (hfg : ∀ {a b}, R a b → S (f a) (g b)) : Rearranged S (as.map f) (bs.map g) := by
  obtain ⟨hrelated, hbs⟩ := h
  refine ⟨?_, hbs.map g⟩
  rw [List.forall₂_map_left_iff, List.forall₂_map_right_iff]
  exact hrelated.imp fun _ _ => hfg

theorem filter (h : Rearranged R as bs) {f : α → Bool} {g : β → Bool}
    (hfg : ∀ {a b}, R a b → f a = g b) : Rearranged R (as.filter f) (bs.filter g) := by
  obtain ⟨hrelated, hbs⟩ := h
  have hsame : Relator.LiftFun R Iff (f · = true) (g · = true) :=
    fun a b hab => Bool.eq_iff_iff.1 (hfg hab)
  exact ⟨List.rel_filter hsame hrelated, hbs.filter g⟩

theorem perm {as' : List α} (h : Rearranged Eq as as') : as.Perm as' := by
  obtain ⟨hrelated, has⟩ := h
  rw [List.forall₂_eq_eq_eq] at hrelated
  exact hrelated ▸ has

theorem map_perm (h : Rearranged R as bs) {f : α → γ} {g : β → γ}
    (hfg : ∀ {a b}, R a b → f a = g b) : (as.map f).Perm (bs.map g) :=
  (h.map hfg).perm

end Rearranged

/-! ## Reordered declarations -/

/-- The same method, with attributes and calls in another order. -/
structure MethodDecl.Reordered (m m' : MethodDecl) : Prop where
  name : m.name = m'.name
  parameters : m.parameters = m'.parameters
  attributes : m.attributes.Perm m'.attributes
  calls : m.calls.Perm m'.calls

/-- The same type, with interfaces, methods and nested types in another order, and each of these
reordered in turn. -/
inductive TypeDecl.Reordered : TypeDecl → TypeDecl → Prop
  | intro {d d' : TypeDecl} (name : d.name = d'.name) (spaceName : d.spaceName = d'.spaceName)
      (kind : d.kind = d'.kind) (displayName : d.displayName = d'.displayName)
      (base : d.base = d'.base) (interfaces : d.interfaces.Perm d'.interfaces)
      (methods : Rearranged MethodDecl.Reordered d.methods d'.methods)
      {nested : List TypeDecl} (related : List.Forall₂ TypeDecl.Reordered d.nested nested)
      (perm : nested.Perm d'.nested) : TypeDecl.Reordered d d'

/-- The same project, with references and types in another order, and each type reordered. -/
structure ProjectDecl.Reordered (p p' : ProjectDecl) : Prop where
  name : p.name = p'.name
  references : p.references.Perm p'.references
  error : p.error = p'.error
  types : Rearranged TypeDecl.Reordered p.types p'.types

/-- The same solution, with everything that is declared in an order of its own. -/
structure Solution.Reordered (s s' : Solution) : Prop where
  name : s.name = s'.name
  projects : Rearranged ProjectDecl.Reordered s.projects s'.projects
  externalTypes : Rearranged TypeDecl.Reordered s.externalTypes s'.externalTypes

/-- Types of the same qualified name, one the other reordered. -/
structure TypeSite.Reordered (T T' : TypeSite) : Prop where
  name : T.name = T'.name
  decl : T.decl.Reordered T'.decl

/-- Methods of types of the same qualified name, one the other reordered. -/
structure MethodSite.Reordered (m m' : MethodSite) : Prop where
  typeName : m.typeName = m'.typeName
  decl : m.decl.Reordered m'.decl

namespace MethodDecl.Reordered

variable {m m' : MethodDecl}

theorem refl (m : MethodDecl) : m.Reordered m :=
  ⟨rfl, rfl, .refl _, .refl _⟩

theorem symm (h : m.Reordered m') : m'.Reordered m :=
  ⟨h.name.symm, h.parameters.symm, h.attributes.symm, h.calls.symm⟩

theorem key_eq (h : m.Reordered m') : m.key = m'.key := by
  rw [key, key, h.name, h.parameters]

theorem names_eq (h : m.Reordered m') (ref : MethodRef) : ref.names m = ref.names m' := by
  rw [MethodRef.names, MethodRef.names, h.key_eq]

end MethodDecl.Reordered

namespace TypeDecl

variable {d d' : TypeDecl}

namespace Reordered

theorem nested (h : d.Reordered d') : Rearranged TypeDecl.Reordered d.nested d'.nested := by
  obtain ⟨-, -, -, -, -, -, -, hrelated, hperm⟩ := h
  exact ⟨hrelated, hperm⟩

theorem of_nested (hname : d.name = d'.name) (hspace : d.spaceName = d'.spaceName)
    (hkind : d.kind = d'.kind) (hdisplay : d.displayName = d'.displayName)
    (hbase : d.base = d'.base) (hinterfaces : d.interfaces.Perm d'.interfaces)
    (hmethods : Rearranged MethodDecl.Reordered d.methods d'.methods)
    (hnested : Rearranged TypeDecl.Reordered d.nested d'.nested) : d.Reordered d' := by
  obtain ⟨hrelated, hperm⟩ := hnested
  exact ⟨hname, hspace, hkind, hdisplay, hbase, hinterfaces, hmethods, hrelated, hperm⟩

theorem refl (d : TypeDecl) : d.Reordered d := by
  induction d using induction_nested with
  | h d ih =>
    exact of_nested rfl rfl rfl rfl rfl (.refl _) (.refl fun m _ => .refl m) (.refl ih)

theorem symm (h : d.Reordered d') : d'.Reordered d := by
  induction d using induction_nested generalizing d' with
  | h d ih =>
    have hback : Rearranged TypeDecl.Reordered d'.nested d.nested := by
      refine h.nested.within.symm.imp ?_
      rintro n' n ⟨hn, -, hreordered⟩
      exact ih n hn hreordered
    obtain ⟨hname, hspace, hkind, hdisplay, hbase, hinterfaces, hmethods, -⟩ := h
    exact of_nested hname.symm hspace.symm hkind.symm hdisplay.symm hbase.symm hinterfaces.symm
      (hmethods.symm.imp MethodDecl.Reordered.symm) hback

theorem spacePath_eq (h : d.Reordered d') : d.spacePath = d'.spacePath := by
  obtain ⟨-, hspace, -⟩ := h
  rw [spacePath, spacePath, hspace]

theorem sitesUnder (h : d.Reordered d') (pre : String) :
    Rearranged TypeSite.Reordered (d.sitesUnder pre) (d'.sitesUnder pre) := by
  induction d using induction_nested generalizing d' pre with
  | h d ih =>
    have hbelow : ∀ pre, Rearranged TypeSite.Reordered (d.nested.flatMap (TypeDecl.sitesUnder pre))
        (d'.nested.flatMap (TypeDecl.sitesUnder pre)) := by
      refine fun pre => h.nested.within.flatMap ?_
      rintro n n' ⟨hn, -, hreordered⟩
      exact ih n hn hreordered pre
    have hown := h
    obtain ⟨hname, -, -, hdisplay, -⟩ := h
    have hdisplayed : d.display = d'.display := by
      rw [display, display, hname, hdisplay]
    rw [sitesUnder_eq, sitesUnder_eq, nestedSites_eq, nestedSites_eq, hname, hdisplayed]
    exact (hbelow _).cons ⟨rfl, hown⟩

theorem sites (h : d.Reordered d') : Rearranged TypeSite.Reordered d.sites d'.sites := by
  rw [TypeDecl.sites, TypeDecl.sites, h.spacePath_eq]
  exact h.sitesUnder _

end Reordered

end TypeDecl

theorem TypeSite.Reordered.methods {T T' : TypeSite} (h : T.Reordered T') :
    Rearranged MethodSite.Reordered T.methods T'.methods := by
  obtain ⟨hname, -, -, -, -, -, -, hmethods, -⟩ := h
  exact hmethods.map fun hm => ⟨hname, hm⟩

theorem TypeSite.Reordered.matched {T T' : TypeSite} (h : T.Reordered T') : T.Matches T' := by
  obtain ⟨hname, -, -, -, -, hbase, hinterfaces, -⟩ := h
  exact ⟨hname, hbase, fun _ => hinterfaces.mem_iff⟩

namespace MethodSite.Reordered

variable {m m' : MethodSite}

theorem symm (h : m.Reordered m') : m'.Reordered m :=
  ⟨h.typeName.symm, h.decl.symm⟩

theorem within (h : m.Reordered m') : m.Within m' :=
  ⟨h.typeName, h.decl.key_eq, h.decl.attributes.subset, h.decl.calls.subset⟩

end MethodSite.Reordered

namespace ProjectDecl.Reordered

variable {p p' : ProjectDecl}

theorem symm (h : p.Reordered p') : p'.Reordered p :=
  ⟨h.name.symm, h.references.symm, h.error.symm, h.types.symm.imp TypeDecl.Reordered.symm⟩

theorem methodSites (h : p.Reordered p') :
    Rearranged MethodSite.Reordered p.methodSites p'.methodSites :=
  (h.types.flatMap TypeDecl.Reordered.sites).flatMap TypeSite.Reordered.methods

end ProjectDecl.Reordered

/-! ## Reordered solutions -/

namespace Solution

variable {s s' : Solution}

/-- A method of one solution and the same method of another. -/
def SameMethod (s s' : Solution) (m m' : MethodSite) : Prop :=
  m ∈ s.methodSites ∧ m' ∈ s'.methodSites ∧ m.Reordered m'

namespace Reordered

theorem symm (h : s.Reordered s') : s'.Reordered s :=
  ⟨h.name.symm, h.projects.symm.imp ProjectDecl.Reordered.symm,
    h.externalTypes.symm.imp TypeDecl.Reordered.symm⟩

theorem topTypes (h : s.Reordered s') :
    Rearranged TypeDecl.Reordered s.topTypes s'.topTypes :=
  (h.projects.flatMap ProjectDecl.Reordered.types).append h.externalTypes

theorem sites (h : s.Reordered s') : Rearranged TypeSite.Reordered s.sites s'.sites :=
  h.topTypes.flatMap TypeDecl.Reordered.sites

theorem methodSites (h : s.Reordered s') :
    Rearranged MethodSite.Reordered s.methodSites s'.methodSites :=
  h.sites.flatMap TypeSite.Reordered.methods

theorem wellFormed (h : s.Reordered s') (hwf : s.WellFormed) : s'.WellFormed where
  distinct := (h.sites.map_perm TypeSite.Reordered.name).nodup_iff.1 hwf.distinct
  apart := by
    intro T' hT' d' hd' path hpath hne
    obtain ⟨T, hT, hname, -⟩ := h.sites.exists_left hT'
    obtain ⟨d, hd, hreordered⟩ := h.topTypes.exists_left hd'
    rw [← hname]
    exact hwf.apart T hT d hd path (hreordered.spacePath_eq ▸ hpath) hne
  overloads := by
    intro T' hT'
    obtain ⟨T, hT, -, -, -, -, -, -, -, hmethods, -⟩ := h.sites.exists_left hT'
    exact (hmethods.map_perm MethodDecl.Reordered.key_eq).nodup_iff.1 (hwf.overloads T hT)
  bases := by
    intro T' hT' name hbase'
    obtain ⟨T, hT, -, -, -, hkind, -, hbase, -⟩ := h.sites.exists_left hT'
    rw [← hbase] at hbase'
    rw [← hkind]
    obtain ⟨hclass, U, hU, hUname, hUclass⟩ := hwf.bases T hT name hbase'
    obtain ⟨U', hU', hname', -, -, hkind', -⟩ := h.sites.exists_right hU
    exact ⟨hclass, U', hU', hname' ▸ hUname, hkind' ▸ hUclass⟩
  interfaces := by
    intro T' hT' name hlisted
    obtain ⟨T, hT, -, -, -, -, -, -, hinterfaces, -⟩ := h.sites.exists_left hT'
    obtain ⟨U, hU, hUname, hUkind⟩ := hwf.interfaces T hT name (hinterfaces.symm.subset hlisted)
    obtain ⟨U', hU', hname', -, -, hkind', -⟩ := h.sites.exists_right hU
    exact ⟨U', hU', hname' ▸ hUname, hkind' ▸ hUkind⟩
  calls := by
    intro T' hT' m' hm' call hcall
    obtain ⟨T, hT, -, -, -, -, -, -, -, hmethods, -⟩ := h.sites.exists_left hT'
    obtain ⟨m, hm, hreordered⟩ := hmethods.exists_left hm'
    obtain ⟨ref, href, U, hU, hUname, callee, honly⟩ :=
      hwf.calls T hT m hm call (hreordered.calls.symm.subset hcall)
    obtain ⟨U', hU', hname', -, -, -, -, -, -, hmethods', -⟩ := h.sites.exists_right hU
    -- what the reference fits is still one method
    have hfits := hmethods'.filter fun hm => hm.names_eq ref
    rw [honly] at hfits
    have hone := List.length_eq_one_iff.1 hfits.length_eq.symm
    exact ⟨ref, href, U', hU', hname' ▸ hUname, hone⟩
  references := by
    intro p' hp' reference hreference
    obtain ⟨p, hp, hreordered⟩ := h.projects.exists_left hp'
    obtain ⟨q, hq, hqname⟩ :=
      hwf.references p hp reference (hreordered.references.symm.subset hreference)
    obtain ⟨q', hq', hsame⟩ := h.projects.exists_right hq
    exact ⟨q', hq', hsame.name ▸ hqname⟩

/-! ## What reordered solutions say -/

theorem within (h : s.Reordered s') : s.Within s' where
  forth T hT := by
    obtain ⟨T', hT', hreordered⟩ := h.sites.exists_right hT
    exact ⟨T', hT', hreordered.matched⟩
  back T' hT' := by
    obtain ⟨T, hT, hreordered⟩ := h.sites.exists_left hT'
    exact ⟨T, hT, hreordered.matched⟩
  methods m hm := by
    obtain ⟨m', hm', hreordered⟩ := h.methodSites.exists_right hm
    exact ⟨m', hm', hreordered.within⟩

/-- A method is tested in one solution when it is tested in the other. -/
theorem tested_iff (h : s.Reordered s') (hwf : s.WellFormed) (names : List String)
    (mode : Propagation) {m m' : MethodSite} (hm : s.SameMethod s' m m') :
    s.Tested names mode m ↔ s'.Tested names mode m' := by
  obtain ⟨hmem, hmem', hreordered⟩ := hm
  have hwf' := h.wellFormed hwf
  have hnames := List.Subset.refl (names.map trim)
  constructor
  · exact h.within.tested hwf hwf' hnames (.inl rfl) ⟨hmem', hreordered.within⟩
  · exact h.symm.within.tested hwf' hwf hnames (.inl rfl) ⟨hmem, hreordered.symm.within⟩

end Reordered

end Solution

end TestReach
