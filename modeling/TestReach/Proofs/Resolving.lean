import TestReach.Proofs.Declaring
import TestReach.SymbolTable.Resolve
import Mathlib.Data.List.Forall2

/-!
# Resolving, reference by reference

References are resolved in the finished table, where both indexes are exact. So what a reference
resolves to is what is declared under its name, and resolving fails exactly when nothing suitable
is.
-/

namespace TestReach.SymbolTable

open Text

variable {t : SymbolTable} {blocks : List Block} {paths : List String} {id : Nat}

/-! ## Types by name -/

/-- The type of this name has this number. -/
def NamesType (blocks : List Block) (name : String) (id : Nat) : Prop :=
  ∃ b ∈ blocks, b.site.name = name ∧ b.id = id

theorem Layout.typeKind_eq (h : t.Layout blocks paths) {b : Block} (hb : b ∈ blocks) :
    t.typeKind b.id = b.site.decl.kind := by
  obtain ⟨c, hc⟩ := h.typeSymbols b hb
  rw [typeKind, hc]
  rfl

theorem requireType_meets (h : t.Layout blocks paths) (referrer name : String) :
    Meets (t.requireType referrer name) (∃ b ∈ blocks, b.site.name = trim name)
      fun id => ∃ b ∈ blocks, b.site.name = trim name ∧ b.id = id := by
  unfold requireType
  cases hfind : t.findType (trim name) with
  | none =>
    rintro ⟨b, hb, hname⟩
    rw [h.findType_eq_some_iff.2 ⟨b, hb, hname, rfl⟩] at hfind
    exact absurd hfind (by simp)
  | some id =>
    obtain ⟨b, hb, hname, rfl⟩ := h.findType_eq_some_iff.1 hfind
    exact ⟨⟨b, hb, hname⟩, b, hb, hname, rfl⟩

/-- What has to hold of the base and the interfaces of a type. -/
structure HierarchyOk (sites : List TypeSite) (kind : TypeKind) (base : Option String)
    (interfaces : List String) : Prop where
  base : ∀ name, writtenName base = some name →
    kind ≠ .interfaceType ∧ ∃ U ∈ sites, U.name = name ∧ U.decl.kind ≠ .interfaceType
  interfaces : ∀ name ∈ interfaces,
    ∃ U ∈ sites, U.name = trim name ∧ U.decl.kind = .interfaceType

/-- Of the types of one name, which is at most one, `P` holds of the one that is there. -/
theorem Layout.exists_site_iff (h : t.Layout blocks paths) {b : Block} (hb : b ∈ blocks)
    {P : TypeSite → Prop} :
    (∃ U ∈ blocks.map (·.site), U.name = b.site.name ∧ P U) ↔ P b.site := by
  constructor
  · rintro ⟨U, hU, hname, hP⟩
    obtain ⟨b', hb', rfl⟩ := List.mem_map.1 hU
    exact h.block_eq_of_name hb' hb hname ▸ hP
  · exact fun hP => ⟨b.site, List.mem_map_of_mem hb, rfl, hP⟩

theorem resolveBase_meets (h : t.Layout blocks paths) (typeName : String) (kind : TypeKind)
    (base : Option String) :
    Meets (t.resolveBase typeName kind base)
      (∀ name, writtenName base = some name → kind ≠ .interfaceType ∧
        ∃ U ∈ blocks.map (·.site), U.name = name ∧ U.decl.kind ≠ .interfaceType)
      fun r => ∀ id, r = some id ↔
        ∃ name, writtenName base = some name ∧ NamesType blocks name id := by
  cases base with
  | none => exact ⟨by simp [writtenName], by simp [writtenName]⟩
  | some text =>
    rw [resolveBase]
    by_cases hblank : isBlankText text = true
    · rw [if_pos hblank]
      exact ⟨by simp [writtenName, hblank], by simp [writtenName, hblank]⟩
    · have hwritten : writtenName (some text) = some (trim text) := by simp [writtenName, hblank]
      simp only [hwritten, Option.some.injEq, forall_eq', exists_eq_left', if_neg hblank]
      by_cases hkind : kind = .interfaceType
      · rw [if_pos hkind]
        exact fun hcond => hcond.1 hkind
      · rw [if_neg hkind]
        rcases (requireType_meets h typeName text).cases with
          ⟨e, he, hno⟩ | ⟨id, hid, -, b, hb, hname, rfl⟩
        · rw [he]
          rintro ⟨-, U, hU, hname, -⟩
          obtain ⟨b, hb, rfl⟩ := List.mem_map.1 hU
          exact hno ⟨b, hb, hname⟩
        · simp only [hid, h.typeKind_eq hb, ← hname, h.exists_site_iff hb]
          -- the base is declared, so only its kind is left to check
          split
          next hinterface => exact fun hcond => hcond.2 hinterface
          next hinterface =>
            refine ⟨⟨hkind, hinterface⟩, fun id => ?_⟩
            rw [Option.some.injEq]
            constructor
            · rintro rfl
              exact ⟨b, hb, rfl, rfl⟩
            · rintro ⟨b', hb', hname', rfl⟩
              rw [h.block_eq_of_name hb' hb hname']

theorem resolveInterface_meets (h : t.Layout blocks paths) (typeName name : String) :
    Meets (t.resolveInterface typeName name)
      (∃ U ∈ blocks.map (·.site), U.name = trim name ∧ U.decl.kind = .interfaceType)
      (NamesType blocks (trim name)) := by
  unfold resolveInterface
  rcases (requireType_meets h typeName name).cases with
    ⟨e, he, hno⟩ | ⟨id, hid, -, b, hb, hname, rfl⟩
  · rw [he]
    rintro ⟨U, hU, hname, -⟩
    obtain ⟨b, hb, rfl⟩ := List.mem_map.1 hU
    exact hno ⟨b, hb, hname⟩
  · simp only [hid, h.typeKind_eq hb, ← hname, h.exists_site_iff hb]
    split
    next hinterface => exact ⟨hinterface, b, hb, rfl, rfl⟩
    next hinterface => exact hinterface

/-! ## Calls -/

/-- A call is written as a reference that fits one method. -/
def CallOk (sites : List TypeSite) (call : String) : Prop :=
  ∃ ref, MethodRef.parse? call = some ref ∧
    ∃ U ∈ sites, U.name = ref.typeName ∧ ∃ m, U.decl.methods.filter ref.names = [m]

/-- A call is written as a reference that fits the method of this number. -/
def CallsTo (blocks : List Block) (call : String) (id : Nat) : Prop :=
  ∃ ref, MethodRef.parse? call = some ref ∧
    ∃ b ∈ blocks, b.site.name = ref.typeName ∧ ∃ m, b.HasMethod id m ∧ ref.names m = true

theorem Layout.fits_eq (h : t.Layout blocks paths) {b : Block} (hb : b ∈ blocks) {m : MethodDecl}
    (hm : b.HasMethod id m) (ref : MethodRef) : t.fits ref id = ref.names m := by
  rw [fits, h.methodSymbols b hb id m hm]
  unfold MethodRef.names
  cases ref.parameters <;> rfl

theorem Block.forall₂_methods (b : Block) :
    List.Forall₂ b.HasMethod b.methodIds b.site.decl.methods := by
  unfold Block.methodIds
  refine List.forall₂_iff_get.2 ⟨by simp, fun i _ hi => ?_⟩
  exact ⟨i, by simp, by simp⟩

theorem candidates_forall₂ (h : t.Layout blocks paths) {b : Block} (hb : b ∈ blocks)
    {ref : MethodRef} (hname : b.site.name = ref.typeName) :
    List.Forall₂ b.HasMethod (t.candidates ref) (b.site.decl.methods.filter ref.names) := by
  rw [candidates, h.findType_eq_some_iff.2 ⟨b, hb, hname, rfl⟩]
  dsimp only
  rw [h.methodsOf_eq hb]
  refine List.rel_filter (fun id m hm => ?_) b.forall₂_methods
  simp [h.fits_eq hb hm]

theorem mem_candidates (h : t.Layout blocks paths) {ref : MethodRef} :
    id ∈ t.candidates ref ↔
      ∃ b ∈ blocks, b.site.name = ref.typeName ∧ ∃ m, b.HasMethod id m ∧ ref.names m = true := by
  constructor
  · intro hid
    cases hfind : t.findType ref.typeName with
    | none => simp [candidates, hfind] at hid
    | some owner =>
      obtain ⟨b, hb, hname, rfl⟩ := h.findType_eq_some_iff.1 hfind
      rw [candidates, hfind] at hid
      dsimp only at hid
      rw [h.methodsOf_eq hb, List.mem_filter] at hid
      obtain ⟨m, hm⟩ := Block.mem_methodIds.1 hid.1
      exact ⟨b, hb, hname, m, hm, h.fits_eq hb hm ref ▸ hid.2⟩
  · rintro ⟨b, hb, hname, m, hm, hnames⟩
    rw [candidates, h.findType_eq_some_iff.2 ⟨b, hb, hname, rfl⟩]
    dsimp only
    rw [h.methodsOf_eq hb, List.mem_filter, h.fits_eq hb hm]
    exact ⟨Block.mem_methodIds.2 ⟨m, hm⟩, hnames⟩

/-- The methods that a call refers to are the candidates. -/
theorem mem_candidates_iff (h : t.Layout blocks paths) {call : String} {ref : MethodRef}
    (href : MethodRef.parse? call = some ref) : id ∈ t.candidates ref ↔ CallsTo blocks call id := by
  rw [mem_candidates h, CallsTo]
  simp only [href, Option.some.injEq, exists_eq_left']

theorem length_candidates_iff (h : t.Layout blocks paths) {call : String} {ref : MethodRef}
    (href : MethodRef.parse? call = some ref) :
    (t.candidates ref).length = 1 ↔ CallOk (blocks.map (·.site)) call := by
  cases hfind : t.findType ref.typeName with
  | none =>
    refine iff_of_false (by simp [candidates, hfind]) ?_
    rintro ⟨ref', href', U, hU, hname, -⟩
    rw [href, Option.some.injEq] at href'
    obtain ⟨b, hb, rfl⟩ := List.mem_map.1 hU
    rw [href', h.findType_eq_some_iff.2 ⟨b, hb, hname, rfl⟩] at hfind
    exact absurd hfind (by simp)
  | some owner =>
    obtain ⟨b, hb, hname, rfl⟩ := h.findType_eq_some_iff.1 hfind
    rw [(candidates_forall₂ h hb hname).length_eq, List.length_eq_one_iff, CallOk]
    simp only [href, Option.some.injEq, exists_eq_left', ← hname, h.exists_site_iff hb]

theorem resolveCall_meets (h : t.Layout blocks paths) (caller call : String) :
    Meets (t.resolveCall caller call) (CallOk (blocks.map (·.site)) call)
      fun id => ∀ id', CallsTo blocks call id' ↔ id' = id := by
  rw [resolveCall]
  cases href : MethodRef.parse? call with
  | none =>
    rintro ⟨ref, href', -⟩
    rw [href] at href'
    exact absurd href' (by simp)
  | some ref =>
    rw [← length_candidates_iff h href]
    simp only [← mem_candidates_iff h href]
    match t.candidates ref with
    | [] => exact fun hlength => absurd hlength (by simp)
    | [id] => exact ⟨rfl, by simp⟩
    | _ :: _ :: _ => exact fun hlength => absurd hlength (by simp)

/-! ## Symbols -/

/-- What has to hold of the references of a symbol. -/
def ReferencesOk (sites : List TypeSite) : SymbolBody → Prop
  | .type kind _ base interfaces => HierarchyOk sites kind base interfaces
  | .method _ _ calls => ∀ call ∈ calls, CallOk sites call
  | _ => True

/-- What the references of a symbol resolve to. -/
def LinkFits (t : SymbolTable) (blocks : List Block) (link : Link) : SymbolBody → Prop
  | .type _ _ base interfaces => ∃ base' interfaces', link = .type base' interfaces' ∧
      (∀ id, base' = some id ↔ ∃ name, writtenName base = some name ∧ NamesType blocks name id) ∧
      List.Forall₂ (fun name => NamesType blocks (trim name)) interfaces interfaces'
  | .method _ attributes calls => ∃ callees,
      link = .method (attributes.map t.resolveAttribute) callees ∧
      List.Forall₂ (fun call id => ∀ id', CallsTo blocks call id' ↔ id' = id) calls callees
  | _ => link = .space

theorem resolve_meets (h : t.Layout blocks paths) {s : Symbol} (hs : t.symbol? id = some s) :
    Meets (t.resolve id) (ReferencesOk (blocks.map (·.site)) s.body)
      fun link => LinkFits t blocks link s.body := by
  rw [resolve, hs]
  obtain ⟨name, container, body⟩ := s
  cases body with
  | root => exact ⟨trivial, rfl⟩
  | space => exact ⟨trivial, rfl⟩
  | type kind displayName base interfaces =>
    have hbase := resolveBase_meets h (t.qualifiedName id) kind base
    have hinterfaces := Meets.mapM interfaces fun name _ =>
      resolveInterface_meets h (t.qualifiedName id) name
    dsimp only
    rcases hbase.cases with ⟨e, he, hno⟩ | ⟨base', hb', hyes, hbase'⟩
    · rw [he]
      exact fun hok => hno hok.base
    · rw [hb']
      dsimp only
      rcases hinterfaces.cases with ⟨e, he, hno⟩ | ⟨interfaces', hi', hyes', hfits⟩
      · rw [he]
        exact fun hok => hno hok.interfaces
      · rw [hi']
        exact ⟨⟨hyes, hyes'⟩, base', interfaces', rfl, hbase', hfits⟩
  | method parameters attributes calls =>
    have hcalls := Meets.mapM calls fun call _ =>
      resolveCall_meets h
        (t.callerLabel ⟨name, container, .method parameters attributes calls⟩) call
    dsimp only
    rcases hcalls.cases with ⟨e, he, hno⟩ | ⟨callees, hc', hyes, hfits⟩
    · rw [he]
      exact hno
    · rw [hc']
      exact ⟨hyes, callees, rfl, hfits⟩

/-- The references of all symbols are right exactly when those of all declared types and methods
are. -/
theorem referencesOk_iff (h : t.Layout blocks paths) {sites : List TypeSite} :
    (∀ id s, t.symbol? id = some s → ReferencesOk sites s.body) ↔
      ∀ b ∈ blocks,
        HierarchyOk sites b.site.decl.kind b.site.decl.base b.site.decl.interfaces ∧
          ∀ m ∈ b.site.decl.methods, ∀ call ∈ m.calls, CallOk sites call := by
  constructor
  · intro hall b hb
    refine ⟨?_, fun m hm => ?_⟩
    · obtain ⟨c, hc⟩ := h.typeSymbols b hb
      exact hall b.id _ hc
    · obtain ⟨j, hj⟩ := List.getElem?_of_mem hm
      exact hall _ _ (h.methodSymbols b hb _ m ⟨j, hj, rfl⟩)
  · intro hall id s hs
    rcases h.symbol_cases hs with ⟨b, hb, -, c, rfl⟩ | ⟨b, hb, m, ⟨j, hj, -⟩, rfl⟩ | hbody | hbody
    · exact (hall b hb).1
    · exact (hall b hb).2 m (List.mem_of_getElem? hj)
    · rw [hbody]
      trivial
    · rw [hbody]
      trivial

theorem resolveAll_meets (h : t.Layout blocks paths) :
    Meets t.resolveAll
      (∀ id s, t.symbol? id = some s → ReferencesOk (blocks.map (·.site)) s.body)
      (List.Forall₂ (fun id link => ∀ s, t.symbol? id = some s → LinkFits t blocks link s.body)
        (List.range t.size)) := by
  have hresolve : ∀ id ∈ List.range t.size, Meets (t.resolve id)
      (∀ s, t.symbol? id = some s → ReferencesOk (blocks.map (·.site)) s.body)
      fun link => ∀ s, t.symbol? id = some s → LinkFits t blocks link s.body := by
    intro id hid
    obtain ⟨s, hs⟩ := exists_symbol? (List.mem_range.1 hid)
    refine (resolve_meets h hs).imp ?_ ?_ <;> simp [hs]
  refine (Meets.mapM _ hresolve).imp ?_ fun _ hlinks => hlinks
  exact ⟨fun hall id s hs => hall id (List.mem_range.2 (symbol?_eq_some_lt hs)) s hs,
    fun hall id _ s hs => hall id s hs⟩

end TestReach.SymbolTable
