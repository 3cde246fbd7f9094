import TestReach.Proofs.Layout
import TestReach.Proofs.Meets

/-!
# Declaring, stage by stage

Declaring goes through a solution once, and checks each name against the names that are already
there. The check of a stage is therefore about everything declared so far (`Admits`), and the checks
of two stages in a row are together the check of both at once (`admits_append_iff`). In the end the
order in which things were declared no longer shows.
-/

namespace TestReach

namespace SymbolTable

open Text

variable {t t' t'' : SymbolTable} {blocks new : List Block} {paths : List String}

/-! ## Entering a namespace -/

/-- The paths of the namespaces from one of path `path` down along segments. -/
def pathsFrom (path : String) : List String → List String
  | [] => []
  | segment :: rest => extendPath path segment :: pathsFrom (extendPath path segment) rest

/-- A namespace of a path, or the global namespace with the empty path. -/
structure IsPlace (t : SymbolTable) (here : SymbolId) (path : String) : Prop where
  lt : here < t.size
  noType : ∀ o, t.symbol? here = some o → o.isType = false
  inside : t.placePrefix here = if path.isEmpty then "" else path ++ "."

theorem Nested.isPlace_root (h : t.Nested) : t.IsPlace 0 "" := by
  refine ⟨h.size_pos, fun o ho => ?_, placePrefix_root h⟩
  rw [h.root] at ho
  exact Option.some.inj ho ▸ rfl

theorem IsSpace.isPlace {here : SymbolId} {path : String} (h : t.IsSpace here path)
    (hpath : path.isEmpty = false) : t.IsPlace here path := by
  obtain ⟨s, hs, hbody⟩ := h.symbol
  refine ⟨symbol?_eq_some_lt hs, fun o ho => ?_, by rw [h.inside, hpath]; rfl⟩
  rw [hs] at ho
  rw [← Option.some.inj ho, Symbol.isType, hbody]

theorem IsPlace.placePrefix_append {here : SymbolId} {path : String} (h : t.IsPlace here path)
    (segment : String) : t.placePrefix here ++ segment = extendPath path segment := by
  rw [h.inside, extendPath]
  split <;> simp

theorem isEmpty_extendPath (path segment : String) :
    (extendPath path segment).isEmpty = (path.isEmpty && segment.isEmpty) := by
  unfold extendPath
  cases hp : path.isEmpty with
  | true => simp
  | false =>
    rw [Bool.eq_false_iff, ne_eq, String.isEmpty_iff] at hp
    simp [Bool.eq_false_iff, String.isEmpty_iff, hp]

theorem Layout.congr_paths {paths' : List String} (h : t.Layout blocks paths)
    (heq : ∀ q, q ∈ paths ↔ q ∈ paths') : t.Layout blocks paths' :=
  { h with
    names := ⟨h.names.nodup, fun name hname hq => h.names.apart name hname ((heq name).2 hq)⟩
    spaceIndex := fun q => (h.spaceIndex q).trans (heq q) }

/-- A namespace can be entered exactly when no path on the way is the name of a type. -/
theorem enterFrom_meets {here : SymbolId} {path : String} {segs : List String}
    (h : t.Layout blocks paths) (hplace : t.IsPlace here path)
    (hsegs : ∀ segment ∈ segs, segment.isEmpty = false) :
    Meets (t.enterFrom here path segs) (∀ q ∈ pathsFrom path segs, q ∉ blockNames blocks)
      fun r => r.1.Layout blocks (paths ++ pathsFrom path segs) ∧ Extends t r.1 ∧
        r.1.IsPlace r.2 (segs.foldl extendPath path) := by
  induction segs generalizing t here path paths with
  | nil => exact ⟨by simp [pathsFrom], by simpa [pathsFrom] using h, Extends.refl t, hplace⟩
  | cons segment rest ih =>
    obtain ⟨hsegment, hrest⟩ := List.forall_mem_cons.1 hsegs
    have hnonempty : (extendPath path segment).isEmpty = false := by
      rw [isEmpty_extendPath, hsegment, Bool.and_false]
    unfold enterFrom pathsFrom
    rw [List.forall_mem_cons]
    dsimp only
    split
    -- a namespace that is there already adds its path a second time, which changes nothing
    next id hid =>
      have hspace := h.isSpace_of_lookup hid
      have hmem : extendPath path segment ∈ paths :=
        (h.spaceIndex _).1 ⟨id, mem_of_lookup hid⟩
      refine (ih h (hspace.isPlace hnonempty) hrest).imp ?_ ?_
      · exact (and_iff_right fun hname => h.names.apart _ hname hmem).symm
      · rintro r ⟨hl, hx, hp⟩
        refine ⟨hl.congr_paths fun q => ?_, hx, hp⟩
        simp only [List.mem_append, List.mem_cons]
        constructor
        · exact Or.imp_right .inr
        · rintro (hq | rfl | hq)
          · exact .inl hq
          · exact .inl hmem
          · exact .inr hq
    next hnone =>
      split
      next htype => exact fun hall => hall.1 (h.findType_isSome_iff.1 htype)
      next htype =>
        have hname : extendPath path segment ∉ blockNames blocks := fun hmem =>
          htype (h.findType_isSome_iff.2 hmem)
        obtain ⟨hl, hx, hspace⟩ := h.addSpace hplace.lt hplace.noType
          (hplace.placePrefix_append segment) hname (h.lookup_space_eq_none_iff.1 hnone)
        refine (ih hl (hspace.isPlace hnonempty) hrest).imp (and_iff_right hname).symm ?_
        rintro r ⟨hl', hx', hp⟩
        exact ⟨by simpa using hl', hx.trans hx', hp⟩

/-! ## What a stage adds -/

/-- The check of a stage that declares types and enters namespaces, after what is already there. -/
structure Admits (blocks : List Block) (paths : List String) (sites : List TypeSite)
    (more : List String) : Prop where
  names : NamesApart (blockNames blocks ++ sites.map (·.name)) (paths ++ more)
  overloads : ∀ T ∈ sites, (T.decl.methods.map MethodDecl.key).Nodup

/-- The table `t'` is `t` with more blocks and more namespaces. -/
structure Grown (t : SymbolTable) (blocks : List Block) (paths : List String) (new : List Block)
    (more : List String) (t' : SymbolTable) : Prop where
  layout : t'.Layout (blocks ++ new) (paths ++ more)
  table : Extends t t'
  fresh : ∀ b ∈ new, t.size ≤ b.id

/-- A stage makes exactly its check and declares the given types and namespaces. -/
def Declares (t : SymbolTable) (blocks : List Block) (paths : List String)
    (r : Except LoadError SymbolTable) (sites : List TypeSite) (more : List String) : Prop :=
  Meets r (Admits blocks paths sites more) fun t' =>
    ∃ new, new.map (·.site) = sites ∧ Grown t blocks paths new more t'

variable {sites sites' : List TypeSite} {more more' : List String}

theorem NamesApart.mono {names names' paths paths' : List String} (h : NamesApart names paths)
    (hn : names'.Sublist names) (hp : paths' ⊆ paths) : NamesApart names' paths' :=
  ⟨h.nodup.sublist hn, fun name hname hpath => h.apart name (hn.subset hname) (hp hpath)⟩

theorem blockNames_append_new (hnew : new.map (·.site) = sites) :
    blockNames (blocks ++ new) = blockNames blocks ++ sites.map (·.name) := by
  simp [blockNames, ← hnew]

theorem Layout.admits_nil (h : t.Layout blocks paths) : Admits blocks paths [] [] :=
  ⟨by simpa using h.names, by simp⟩

theorem Admits.left (h : Admits blocks paths (sites ++ sites') (more ++ more')) :
    Admits blocks paths sites more := by
  refine ⟨h.names.mono (by simp) fun q hq => ?_, fun T hT => h.overloads T (by simp [hT])⟩
  rw [← List.append_assoc]
  exact List.mem_append_left _ hq

theorem admits_append_iff (hnew : new.map (·.site) = sites) :
    Admits blocks paths (sites ++ sites') (more ++ more') ↔
      Admits blocks paths sites more ∧ Admits (blocks ++ new) (paths ++ more) sites' more' := by
  have hnames : blockNames blocks ++ (sites ++ sites').map (·.name) =
      blockNames (blocks ++ new) ++ sites'.map (·.name) := by
    rw [blockNames_append_new hnew, List.map_append, List.append_assoc]
  constructor
  · intro h
    refine ⟨h.left, ?_, fun T hT => h.overloads T (List.mem_append_right _ hT)⟩
    rw [← hnames, List.append_assoc]
    exact h.names
  · rintro ⟨hleft, hright⟩
    refine ⟨?_, List.forall_mem_append.2 ⟨hleft.overloads, hright.overloads⟩⟩
    rw [hnames, ← List.append_assoc]
    exact hright.names

theorem Grown.refl (h : t.Layout blocks paths) : Grown t blocks paths [] [] t :=
  ⟨by simpa using h, Extends.refl t, by simp⟩

theorem Grown.trans {new' : List Block} (h : Grown t blocks paths new more t')
    (h' : Grown t' (blocks ++ new) (paths ++ more) new' more' t'') :
    Grown t blocks paths (new ++ new') (more ++ more') t'' := by
  refine ⟨by simpa using h'.layout, h.table.trans h'.table, ?_⟩
  refine List.forall_mem_append.2 ⟨h.fresh, fun b hb => ?_⟩
  exact Nat.le_trans h.table.size_le (h'.fresh b hb)

theorem Layout.declares_nil (h : t.Layout blocks paths) : Declares t blocks paths (.ok t) [] [] :=
  ⟨h.admits_nil, [], rfl, Grown.refl h⟩

theorem Declares.bind {r : Except LoadError SymbolTable}
    {f : SymbolTable → Except LoadError SymbolTable} (h : Declares t blocks paths r sites more)
    (hf : ∀ t' new, r = .ok t' → new.map (·.site) = sites → Grown t blocks paths new more t' →
      Declares t' (blocks ++ new) (paths ++ more) (f t') sites' more') :
    Declares t blocks paths (r >>= f) (sites ++ sites') (more ++ more') := by
  refine Meets.bind h Admits.left ?_
  rintro t' hr hfirst ⟨new, hnew, hg⟩
  refine (hf t' new hr hnew hg).imp ?_ ?_
  · rw [admits_append_iff hnew, and_iff_right hfirst]
  · rintro t'' ⟨new', hnew', hg'⟩
    exact ⟨new ++ new', by rw [List.map_append, hnew, hnew'], hg.trans hg'⟩

/-! ## Types -/

theorem declareMethods_meets {owner : SymbolId} {ownerName : String}
    {earlier : List (String × List String)} {ms : List MethodDecl} :
    Meets (t.declareMethods owner ownerName earlier ms)
      ((ms.map MethodDecl.key).Nodup ∧ ∀ m ∈ ms, m.key ∉ earlier)
      (· = t.pushAll (ms.map (methodSymbol owner))) := by
  induction ms generalizing t earlier with
  | nil => exact ⟨by simp, by simp [pushAll]⟩
  | cons m ms ih =>
    have hkey : ((methodSymbol owner m).name, (methodSymbol owner m).parameters) = m.key := rfl
    unfold declareMethods
    simp only [hkey, List.contains_iff_mem, List.map_cons, List.nodup_cons, List.forall_mem_cons]
    split
    next hmem => exact fun hall => hall.2.1 hmem
    next hmem =>
      refine ih.imp ?_ ?_
      · simp only [List.mem_cons, not_or, List.mem_map, not_exists, not_and]
        constructor
        · rintro ⟨hnodup, hall⟩
          exact ⟨⟨fun m' hm' => (hall m' hm').1, hnodup⟩, hmem, fun m' hm' => (hall m' hm').2⟩
        · rintro ⟨⟨hne, hnodup⟩, -, hall⟩
          exact ⟨hnodup, fun m' hm' => ⟨hne m' hm', hall m' hm'⟩⟩
      · rintro t' rfl
        simp [push, pushAll]

/-- Declare a type with its methods, but without the types in it. -/
def declareOwn (t : SymbolTable) (c : SymbolId) (d : TypeDecl) : Except LoadError SymbolTable :=
  t.pushType c d >>= fun r => r.1.declareMethods t.size r.2 [] d.methods

theorem declareType_eq (c : SymbolId) (d : TypeDecl) :
    t.declareType c d = t.declareOwn c d >>= fun t' => t'.declareNested t.size d.nested := by
  obtain ⟨name, spaceName, kind, displayName, base, interfaces, methods, nested⟩ := d
  rw [declareType, declareOwn]
  dsimp only
  cases t.pushType c _ with
  | error e => rfl
  | ok r =>
    obtain ⟨t', ownerName⟩ := r
    change _ = t'.declareMethods t.size ownerName [] methods >>= _
    dsimp only
    cases t'.declareMethods t.size ownerName [] methods <;> rfl

theorem declareNested_cons (c : SymbolId) (d : TypeDecl) (ds : List TypeDecl) :
    t.declareNested c (d :: ds) = t.declareType c d >>= fun t' => t'.declareNested c ds := by
  rw [declareNested]
  cases t.declareType c d <;> rfl

/-- A type directly in the symbol `c`. -/
def siteIn (t : SymbolTable) (c : SymbolId) (d : TypeDecl) : TypeSite :=
  ⟨t.placePrefix c ++ trim d.name, d⟩

theorem pushType_meets {c : Nat} (h : t.Layout blocks paths) (hc : c < t.size) (d : TypeDecl) :
    Meets (t.pushType c d) (NamesApart (blockNames blocks ++ [(t.siteIn c d).name]) paths)
      (· = ({ t.push (typeSymbol c d) with types := ((t.siteIn c d).name, t.size) :: t.types },
        (t.siteIn c d).name)) := by
  have hfree : ((t.spaces.lookup (t.siteIn c d).name).isSome ||
      (t.findType (t.siteIn c d).name).isSome) = true ↔
      ¬NamesApart (blockNames blocks ++ [(t.siteIn c d).name]) paths := by
    rw [Bool.or_eq_true, h.findType_isSome_iff, ← Option.ne_none_iff_isSome, ne_eq,
      h.lookup_space_eq_none_iff, h.names.concat_iff]
    tauto
  unfold pushType
  dsimp only
  rw [push_type_name h.nested hc]
  split
  next hyes => exact hfree.1 hyes
  next hno => exact ⟨not_not.1 fun hn => hno (hfree.2 hn), rfl⟩

theorem declareOwn_meets {c : Nat} (h : t.Layout blocks paths) (hc : c < t.size) (d : TypeDecl) :
    Meets (t.declareOwn c d) (Admits blocks paths [t.siteIn c d] [])
      (· = t.addBlock c (t.siteIn c d)) := by
  have hsplit : Admits blocks paths [t.siteIn c d] [] ↔
      NamesApart (blockNames blocks ++ [(t.siteIn c d).name]) paths ∧
        (d.methods.map MethodDecl.key).Nodup :=
    ⟨fun ha => ⟨by simpa using ha.names, ha.overloads _ (List.mem_singleton.2 rfl)⟩,
      fun ⟨hn, ho⟩ => ⟨by simpa using hn, fun T hT => List.mem_singleton.1 hT ▸ ho⟩⟩
  refine Meets.bind (pushType_meets h hc d) (fun ha => (hsplit.1 ha).1) ?_
  rintro r - hnames rfl
  refine declareMethods_meets.imp ?_ ?_
  · rw [hsplit, and_iff_right hnames]
    simp
  · rintro t' rfl
    simp [pushAll, push, addBlock, blockSymbols, siteIn]

theorem Layout.grown_addBlock {c : Nat} (h : t.Layout blocks paths) (hc : c < t.size) {d : TypeDecl}
    (hadmits : Admits blocks paths [t.siteIn c d] []) :
    Grown t blocks paths [⟨t.size, t.siteIn c d⟩] [] (t.addBlock c (t.siteIn c d)) := by
  have hl := h.addBlock hc rfl (by simpa using hadmits.names)
  exact ⟨by simpa using hl, extends_addBlock t c _, by simp⟩

theorem declareOwn_declares {c : Nat} (h : t.Layout blocks paths) (hc : c < t.size)
    (d : TypeDecl) : Declares t blocks paths (t.declareOwn c d) [t.siteIn c d] [] := by
  rcases (declareOwn_meets h hc d).cases with ⟨e, he, hno⟩ | ⟨t', ht', hyes, rfl⟩
  · rw [he]
    exact hno
  · rw [ht']
    exact ⟨hyes, [⟨t.size, t.siteIn c d⟩], rfl, h.grown_addBlock hc hyes⟩

-- The types in a type are declared in a table that has the block of the type, and are named after
-- it.
theorem declareType_declares_of {c : Nat} (h : t.Layout blocks paths) (hc : c < t.size)
    (d : TypeDecl)
    (hnested : ∀ {t : SymbolTable} {blocks : List Block} {paths : List String} {c : Nat},
      t.Layout blocks paths → c < t.size →
        Declares t blocks paths (t.declareNested c d.nested)
          (TypeDecl.nestedSites (t.placePrefix c) d.nested) []) :
    Declares t blocks paths (t.declareType c d) (d.sitesUnder (t.placePrefix c)) [] := by
  rw [declareType_eq, TypeDecl.sitesUnder_eq]
  refine (declareOwn_declares h hc d).bind fun t' new ht' hnew hg => ?_
  obtain rfl := ((declareOwn_meets h hc d).of_ok ht').2
  have hown := symbol?_eq_some_lt (symbol?_addBlock_type t c (t.siteIn c d))
  have hprefix := (addBlock_names h.nested hc (t.siteIn c d)).2
  exact hprefix ▸ hnested hg.layout hown

mutual

theorem declareType_declares {t : SymbolTable} {blocks : List Block} {paths : List String}
    {c : Nat} (h : t.Layout blocks paths) (hc : c < t.size) : ∀ d : TypeDecl,
      Declares t blocks paths (t.declareType c d) (d.sitesUnder (t.placePrefix c)) []
  | ⟨_, _, _, _, _, _, _, nested⟩ =>
    declareType_declares_of h hc _ fun h' hc' => declareNested_declares h' hc' nested

theorem declareNested_declares {t : SymbolTable} {blocks : List Block} {paths : List String}
    {c : Nat} (h : t.Layout blocks paths) (hc : c < t.size) : ∀ ds : List TypeDecl,
      Declares t blocks paths (t.declareNested c ds) (TypeDecl.nestedSites (t.placePrefix c) ds) []
  | [] => by
    unfold declareNested TypeDecl.nestedSites
    exact h.declares_nil
  | d :: ds => by
    rw [declareNested_cons, TypeDecl.nestedSites]
    refine (declareType_declares h hc d).bind fun t' new _ hnew hg => ?_
    rw [← placePrefix_extends h.nested hg.table hc]
    exact declareNested_declares hg.layout (Nat.lt_of_lt_of_le hc hg.table.size_le) ds

end

/-! ## Types in their namespaces -/

theorem foldl_extendPath {path : String} (hpath : path.isEmpty = false) (segs : List String) :
    segs.foldl extendPath path ++ "." = path ++ "." ++ TypeDecl.dotted segs ∧
      segs.foldl extendPath path = joinWith "." (path :: segs) ∧
      (segs.foldl extendPath path).isEmpty = false := by
  induction segs generalizing path with
  | nil => exact ⟨by simp [TypeDecl.dotted], rfl, hpath⟩
  | cons segment rest ih =>
    have hnext : extendPath path segment = path ++ "." ++ segment := by simp [extendPath, hpath]
    have hnonempty : (extendPath path segment).isEmpty = false := by
      rw [isEmpty_extendPath, hpath, Bool.false_and]
    obtain ⟨hdotted, hjoin, hempty⟩ := ih hnonempty
    refine ⟨?_, ?_, hempty⟩
    · rw [List.foldl_cons, hdotted, hnext]
      simp [TypeDecl.dotted, String.append_assoc]
    · rw [List.foldl_cons, hjoin, hnext]
      cases rest <;> simp [joinWith, String.append_assoc]

theorem mem_pathsFrom {path q : String} {segs : List String} :
    q ∈ pathsFrom path segs ↔ ∃ pre, pre <+: segs ∧ pre ≠ [] ∧ pre.foldl extendPath path = q := by
  induction segs generalizing path with
  | nil => simp [pathsFrom]
  | cons segment rest ih =>
    simp only [pathsFrom, List.mem_cons, ih, List.prefix_cons_iff]
    constructor
    · rintro (rfl | ⟨pre, hpre, -, hq⟩)
      · exact ⟨[segment], .inr ⟨[], rfl, List.nil_prefix⟩, by simp, rfl⟩
      · exact ⟨segment :: pre, .inr ⟨pre, rfl, hpre⟩, by simp, hq⟩
    · rintro ⟨pre, rfl | ⟨pre, rfl, hpre⟩, hne, hq⟩
      · exact absurd rfl hne
      · cases pre with
        | nil => exact .inl hq.symm
        | cons s pre => exact .inr ⟨s :: pre, hpre, by simp, hq⟩

end SymbolTable

namespace TypeDecl

open SymbolTable Text

/-- The paths of the namespaces that a type is in. -/
def spacePaths (d : TypeDecl) : List String :=
  pathsFrom "" d.spacePath

theorem segments_spaceName (d : TypeDecl) : segments (d.spaceName.getD "") = d.spacePath := by
  have hblank : (fun s : String => !s.isEmpty) ∘ trim ∘ String.ofList =
      fun part => !part.all isBlank := by
    funext part
    rw [Function.comp_apply, Function.comp_apply, Bool.not_eq_eq_eq_not, Bool.not_not,
      Bool.eq_iff_iff, String.isEmpty_iff, ← isBlankText_iff, isBlankText, String.toList_ofList]
  rw [segments, pieces, piecesOf_eq_splitOn, List.map_map, List.filter_map, hblank]
  rfl

theorem isEmpty_of_mem_spacePath {d : TypeDecl} {segment : String} (h : segment ∈ d.spacePath) :
    segment.isEmpty = false := by
  rw [← segments_spaceName, segments] at h
  have hfilter := (List.mem_filter.1 h).2
  simpa using hfilter

theorem mem_spacePaths {d : TypeDecl} {q : String} :
    q ∈ d.spacePaths ↔ ∃ pre, pre <+: d.spacePath ∧ pre ≠ [] ∧ joinWith "." pre = q := by
  have hjoin : ∀ pre, pre <+: d.spacePath → pre.foldl extendPath "" = joinWith "." pre := by
    intro pre hpre
    cases pre with
    | nil => rfl
    | cons segment rest =>
      have hsegment : (extendPath "" segment).isEmpty = false :=
        isEmpty_of_mem_spacePath (hpre.subset List.mem_cons_self)
      exact (foldl_extendPath hsegment rest).2.1
  rw [spacePaths, mem_pathsFrom]
  constructor
  · rintro ⟨pre, hpre, hne, hq⟩
    exact ⟨pre, hpre, hne, hjoin pre hpre ▸ hq⟩
  · rintro ⟨pre, hpre, hne, hq⟩
    exact ⟨pre, hpre, hne, hjoin pre hpre ▸ hq⟩

theorem prefix_spacePath (d : TypeDecl) :
    (if (d.spacePath.foldl extendPath "").isEmpty then ""
      else d.spacePath.foldl extendPath "" ++ ".") = dotted d.spacePath := by
  cases hpath : d.spacePath with
  | nil => rfl
  | cons segment rest =>
    have hmem : segment ∈ d.spacePath := hpath ▸ List.mem_cons_self
    have hsegment : (extendPath "" segment).isEmpty = false := isEmpty_of_mem_spacePath hmem
    obtain ⟨hdotted, -, hempty⟩ := foldl_extendPath hsegment rest
    rw [List.foldl_cons, hempty, if_neg Bool.false_ne_true, hdotted]
    rfl

end TypeDecl

namespace SymbolTable

variable {t t' : SymbolTable} {blocks new : List Block} {paths more : List String}

/-- Declare a type that is not nested, in its namespace. -/
def declareTop (t : SymbolTable) (d : TypeDecl) : Except LoadError SymbolTable :=
  t.enter (d.spaceName.getD "") >>= fun r => r.1.declareType r.2 d

theorem declareTypes_cons (d : TypeDecl) (ds : List TypeDecl) :
    t.declareTypes (d :: ds) = t.declareTop d >>= fun t' => t'.declareTypes ds := by
  rw [declareTypes, declareTop]
  cases t.enter (d.spaceName.getD "") with
  | error e => rfl
  | ok r =>
    obtain ⟨t', c⟩ := r
    change _ = t'.declareType c d >>= _
    dsimp only
    cases t'.declareType c d <;> rfl

theorem declareTop_declares (h : t.Layout blocks paths) (d : TypeDecl) :
    Declares t blocks paths (t.declareTop d) d.sites d.spacePaths := by
  rw [declareTop, enter, d.segments_spaceName]
  have henter := enterFrom_meets h h.nested.isPlace_root
    fun segment hsegment => d.isEmpty_of_mem_spacePath hsegment
  refine Meets.bind henter (fun hadmits q hq hname => ?_) ?_
  · exact hadmits.names.apart q (List.mem_append_left _ hname) (List.mem_append_right _ hq)
  · rintro r - - ⟨hl, hx, hplace⟩
    have hsites : d.sites = d.sitesUnder (r.1.placePrefix r.2) := by
      rw [hplace.inside, d.prefix_spacePath, TypeDecl.sites]
    rw [hsites, TypeDecl.spacePaths]
    refine (declareType_declares hl hplace.lt d).imp ?_ ?_
    · exact ⟨fun ha => ⟨by simpa using ha.names, ha.overloads⟩,
        fun ha => ⟨by simpa using ha.names, ha.overloads⟩⟩
    · rintro t' ⟨new, hnew, hg⟩
      refine ⟨new, hnew, by simpa using hg.layout, hx.trans hg.table, fun b hb => ?_⟩
      exact Nat.le_trans hx.size_le (hg.fresh b hb)

theorem declareTypes_declares (h : t.Layout blocks paths) (ds : List TypeDecl) :
    Declares t blocks paths (t.declareTypes ds) (ds.flatMap TypeDecl.sites)
      (ds.flatMap TypeDecl.spacePaths) := by
  induction ds generalizing t blocks paths with
  | nil => exact h.declares_nil
  | cons d ds ih =>
    rw [declareTypes_cons]
    exact (declareTop_declares h d).bind fun t' new _ _ hg => ih hg.layout

/-! ## Projects -/

/-- The methods from the size of the earlier table on are those of the new blocks. -/
theorem Grown.methodsFrom_eq (hg : Grown t blocks paths new more t') (h : t.Layout blocks paths) :
    t'.methodsFrom t.size = new.flatMap Block.methodIds := by
  have hascending := (List.pairwise_append.1 (by simpa using hg.layout.pairwise_methodIds)).2.1
  refine List.Pairwise.eq_of_mem_iff (List.Pairwise.filter _ List.pairwise_lt_range') hascending
    fun id => ?_
  rw [mem_methodsFrom, hg.layout.isMethod_iff, List.mem_flatMap]
  constructor
  · rintro ⟨hle, b, hb, hid⟩
    rcases List.mem_append.1 hb with hold | hnew
    · have hend := h.block_end_lt hold
      rw [Block.methodIds, List.mem_range'_1] at hid
      omega
    · exact ⟨b, hnew, hid⟩
  · rintro ⟨b, hb, hid⟩
    have hfresh := hg.fresh b hb
    refine ⟨?_, b, List.mem_append_right _ hb, hid⟩
    rw [Block.methodIds, List.mem_range'_1] at hid
    omega

end SymbolTable

/-- The paths of the namespaces that the types of a project are in. -/
def ProjectDecl.spacePaths (p : ProjectDecl) : List String :=
  p.types.flatMap TypeDecl.spacePaths

namespace SymbolTable

variable {t t' : SymbolTable} {blocks : List Block} {paths : List String}

/-- The blocks of each of some projects, and the methods listed for it. -/
structure Listed (ps : List ProjectDecl) (news : List (List Block))
    (listings : List (List SymbolId)) : Prop where
  sites : news.map (·.map (·.site)) = ps.map ProjectDecl.sites
  methods : listings = news.map (·.flatMap Block.methodIds)

theorem declareProjects_cons (p : ProjectDecl) (ps : List ProjectDecl) :
    t.declareProjects (p :: ps) = t.declareTypes p.types >>= fun t' =>
      t'.declareProjects ps >>= fun r => .ok (r.1, t'.methodsFrom t.size :: r.2) := by
  rw [declareProjects]
  cases t.declareTypes p.types with
  | error e => rfl
  | ok t' =>
    change _ = t'.declareProjects ps >>= _
    dsimp only
    cases t'.declareProjects ps <;> rfl

theorem declareProjects_meets (h : t.Layout blocks paths) (ps : List ProjectDecl) :
    Meets (t.declareProjects ps)
      (Admits blocks paths (ps.flatMap ProjectDecl.sites) (ps.flatMap ProjectDecl.spacePaths))
      fun r => ∃ news, Listed ps news r.2 ∧
        Grown t blocks paths news.flatten (ps.flatMap ProjectDecl.spacePaths) r.1 := by
  induction ps generalizing t blocks paths with
  | nil => exact ⟨h.admits_nil, [], ⟨rfl, rfl⟩, Grown.refl h⟩
  | cons p ps ih =>
    rw [declareProjects_cons]
    refine Meets.bind (declareTypes_declares h p.types) Admits.left ?_
    rintro t' - hfirst ⟨new, hnew, hg⟩
    refine Meets.bind (ih hg.layout) (fun hboth => ((admits_append_iff hnew).1 hboth).2) ?_
    rintro r - hrest ⟨news, hlisted, hg'⟩
    refine ⟨(admits_append_iff hnew).2 ⟨hfirst, hrest⟩, new :: news, ⟨?_, ?_⟩, hg.trans hg'⟩
    · rw [List.map_cons, List.map_cons, hnew, hlisted.sites]
      rfl
    · rw [List.map_cons, hg.methodsFrom_eq h, hlisted.methods]

end SymbolTable

end TestReach
