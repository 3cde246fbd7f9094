import TestReach.Proofs.Denotation
import TestReach.Proofs.Register

/-!
# Linking with a register

`Program.load` resolves the references of all symbols by number and reads the callers off the calls.
A register can be linked type by type instead: each type that was written down is taken with its
declaration, its methods with theirs, and what they refer to is written down under their numbers. A
call is entered with the method that is called, unless its caller is there.

`Register.load_agrees`: for a solution whose symbols have numbers both ways of loading fail with the
same error, or say the same.
-/

namespace TestReach

open Text

/-! ## What is written down -/

/-- What symbols refer to, by their numbers. -/
structure Linkage where
  base : SymbolId → Option SymbolId := fun _ => none
  interfaces : SymbolId → List SymbolId := fun _ => []
  attributes : SymbolId → List Attribute := fun _ => []
  callers : SymbolId → List SymbolId := fun _ => []

namespace Linkage

/-- Enter a call, unless the caller is there. -/
def addCaller (caller : SymbolId) (l : Linkage) (callee : SymbolId) : Linkage :=
  if caller ∈ l.callers callee then l
  else { l with callers := Function.update l.callers callee (l.callers callee ++ [caller]) }

def setAttributes (l : Linkage) (id : SymbolId) (attributes : List Attribute) : Linkage :=
  { l with attributes := Function.update l.attributes id attributes }

def setType (l : Linkage) (id : SymbolId) (base : Option SymbolId) (interfaces : List SymbolId) :
    Linkage :=
  { l with
    base := Function.update l.base id base
    interfaces := Function.update l.interfaces id interfaces }

theorem addCaller_setType (l : Linkage) (caller callee id : SymbolId) (base : Option SymbolId)
    (interfaces : List SymbolId) :
    (l.setType id base interfaces).addCaller caller callee =
      (l.addCaller caller callee).setType id base interfaces := by
  unfold addCaller
  by_cases h : caller ∈ l.callers callee
  · rw [if_pos h, if_pos (show caller ∈ (l.setType id base interfaces).callers callee from h)]
  · rw [if_neg h, if_neg (show caller ∉ (l.setType id base interfaces).callers callee from h)]
    rfl

end Linkage

namespace Register

/-- The methods that were written down for a type. -/
def methodsOf (r : Register) (owner : SymbolId) : List SymbolId :=
  (r.methods.lookup owner).getD []

/-- The methods that a reference fits. -/
def candidates (r : Register) (ref : MethodRef) : List SymbolId :=
  match r.table.findType ref.typeName with
  | none => []
  | some owner => (r.methodsOf owner).filter (r.table.fits ref)

/-- One call of a method, which `caller` names. -/
def resolveCall (r : Register) (caller reference : String) : Except LoadError SymbolId :=
  match MethodRef.parse? reference with
  | none => .error (.invalidMethodRef reference caller)
  | some ref =>
    match r.candidates ref with
    | [] => .error (.unknownMethod reference caller)
    | [id] => .ok id
    | _ => .error (.ambiguousMethod reference caller)

/-- Enter one call of a method. -/
def linkCall (r : Register) (caller : SymbolId) (label : String) (l : Linkage) (call : String) :
    Except LoadError Linkage := do
  let callee ← r.resolveCall label call
  return l.addCaller caller callee

/-- Link a method, given with its declaration. -/
def linkMethod (r : Register) (typeName : String) (l : Linkage) (method : SymbolId × MethodDecl) :
    Except LoadError Linkage :=
  method.2.calls.foldlM (r.linkCall method.1 (typeName ++ "::" ++ trim method.2.name))
    (l.setAttributes method.1 (method.2.attributes.map r.table.resolveAttribute))

/-- Link a type, given with its declaration, and its methods. -/
def linkType (r : Register) (l : Linkage) (type : SymbolId × TypeDecl) :
    Except LoadError Linkage := do
  let typeName := r.table.qualifiedName type.1
  let base ← r.table.resolveBase typeName type.2.kind type.2.base
  let interfaces ← type.2.interfaces.mapM (r.table.resolveInterface typeName)
  let l' ← ((r.methodsOf type.1).zip type.2.methods).foldlM (r.linkMethod typeName) l
  return l'.setType type.1 base interfaces

/-- Link all types in the order in which they were declared. -/
def link (r : Register) : Except LoadError Linkage :=
  r.declared.foldlM r.linkType {}

/-- The projects at the positions of an order; the methods of each are taken away when it is
reached. -/
def arrange (decls : List ProjectDecl) : List (List SymbolId) → List Nat → List Project
  | _, [] => []
  | listings, i :: order =>
    let d := decls.getD i default
    { name := d.name, error := d.error, methods := listings.getD i [] } ::
      arrange decls (listings.set i []) order

/-- Load a solution: declare its symbols, link its types, order its projects. -/
def load (s : Solution) : Except LoadError (Register × Linkage × List Project) := do
  let (r, listings) ← ofSolution s
  let l ← r.link
  let order ← ProjectOrder.order s.projects
  return (r, l, arrange s.projects listings order)

end Register

/-! ## Steps that can fail -/

section Steps

variable {ε α β γ : Type}

theorem foldlM_eq_mapM (f : α → Except ε β) (g : γ → β → γ) (xs : List α) (c : γ) :
    (xs.foldlM (fun c x => f x >>= fun y => .ok (g c y)) c : Except ε γ) =
      xs.mapM f >>= fun ys => .ok (ys.foldl g c) := by
  induction xs generalizing c with
  | nil => rfl
  | cons x xs ih =>
    rw [List.foldlM_cons, List.mapM_cons]
    cases f x with
    | error e => rfl
    | ok y =>
      change xs.foldlM _ (g c y) = _
      rw [ih]
      cases xs.mapM f <;> rfl

/-- What commutes with each step commutes with all of them. -/
theorem foldlM_comm {f : γ → α → Except ε γ} {k : γ → γ}
    (hf : ∀ c x, f (k c) x = f c x >>= fun c' => .ok (k c')) (xs : List α) (c : γ) :
    xs.foldlM f (k c) = xs.foldlM f c >>= fun c' => .ok (k c') := by
  induction xs generalizing c with
  | nil => rfl
  | cons x xs ih =>
    rw [List.foldlM_cons, List.foldlM_cons, hf]
    cases f c x with
    | error e => rfl
    | ok c' => exact ih c'

theorem mapM_range'_zipIdx (f : Nat → Except ε β) (start n : Nat) :
    ((List.range' start n).mapM fun i => f i >>= fun y => Except.ok (y, i)) =
      (List.range' start n).mapM f >>= fun ys => .ok (ys.zipIdx start) := by
  induction n generalizing start with
  | zero => rfl
  | succ n ih =>
    rw [List.range'_succ, List.mapM_cons, List.mapM_cons, ih]
    cases f start with
    | error e => rfl
    | ok y => cases (List.range' (start + 1) n).mapM f <;> rfl

end Steps

/-! ## Symbol by symbol -/

/-- Write down what the symbol of a number refers to. -/
def Linkage.record (l : Linkage) (id : SymbolId) : Link → Linkage
  | .space => l
  | .type base interfaces => l.setType id base interfaces
  | .method attributes callees => callees.foldl (addCaller id) (l.setAttributes id attributes)

/-- What is written down for the symbols of numbers 0, 1, … with these links. -/
def Linkage.ofLinks (links : List Link) : Linkage :=
  links.zipIdx.foldl (fun l link => l.record link.2 link.1) {}

/-- Resolve the references of the symbol of a number, and write down what they refer to. -/
def SymbolTable.linkAt (t : SymbolTable) (l : Linkage) (id : SymbolId) :
    Except LoadError Linkage :=
  t.resolve id >>= fun link => .ok (l.record id link)

namespace SymbolTable

variable {t : SymbolTable} {blocks : List Block} {paths : List String} {id : Nat}

/-- The symbol is one that can refer to others. -/
def refers (t : SymbolTable) (id : SymbolId) : Bool :=
  (t.symbol? id).any fun s => s.isType || s.isMethod

theorem linkAt_of_not_refers (h : t.refers id = false) (l : Linkage) : t.linkAt l id = .ok l := by
  have hspace : t.resolve id = .ok .space := by
    unfold resolve
    cases hs : t.symbol? id with
    | none => rfl
    | some s =>
      obtain ⟨name, container, body⟩ := s
      rw [refers, hs] at h
      cases body with
      | root => rfl
      | space => rfl
      | type => exact absurd h (by simp [Symbol.isType])
      | method => exact absurd h (by simp [Symbol.isMethod])
  rw [linkAt, hspace]
  rfl

/-- The numbers of a type and its methods. -/
def Block.ids (b : Block) : List Nat :=
  b.id :: b.methodIds

theorem Layout.refers_iff (h : t.Layout blocks paths) :
    t.refers id = true ↔ ∃ b ∈ blocks, id ∈ b.ids := by
  constructor
  · intro hrefers
    obtain ⟨s, hs, hkind⟩ := (Option.any_eq_true _ _).1 hrefers
    rcases h.symbol_cases hs with ⟨b, hb, rfl, -⟩ | ⟨b, hb, m, hm, -⟩ | hbody | hbody
    · exact ⟨b, hb, List.mem_cons_self⟩
    · exact ⟨b, hb, List.mem_cons_of_mem _ (Block.mem_methodIds.2 ⟨m, hm⟩)⟩
    · simp [Symbol.isType, Symbol.isMethod, hbody] at hkind
    · simp [Symbol.isType, Symbol.isMethod, hbody] at hkind
  · rintro ⟨b, hb, hid⟩
    rcases List.mem_cons.1 hid with rfl | hid
    · obtain ⟨c, hc⟩ := h.typeSymbols b hb
      rw [refers, hc]
      rfl
    · obtain ⟨m, hm⟩ := Block.mem_methodIds.1 hid
      rw [refers, h.methodSymbols b hb id m hm]
      rfl

/-- The symbols that can refer to others are those of the blocks, in the same order. -/
theorem Layout.filter_refers (h : t.Layout blocks paths) :
    (List.range t.size).filter t.refers = blocks.flatMap Block.ids := by
  have hascending : (blocks.flatMap Block.ids).Pairwise (· < ·) := by
    have hids : Block.ids = fun b : Block => List.range' b.id (b.site.decl.methods.length + 1) := by
      funext b
      rw [List.range'_succ]
      rfl
    rw [List.pairwise_flatMap, hids]
    refine ⟨fun b _ => List.pairwise_lt_range', h.ascending.imp fun {a b} hab x hx y hy => ?_⟩
    rw [List.mem_range'_1] at hx hy
    omega
  refine List.Pairwise.eq_of_mem_iff (List.pairwise_lt_range.filter _) hascending fun id => ?_
  rw [List.mem_filter, List.mem_range, h.refers_iff, List.mem_flatMap]
  refine and_iff_right_of_imp fun hid => ?_
  obtain ⟨s, hs, -⟩ := (Option.any_eq_true _ _).1 (h.refers_iff.2 hid)
  exact symbol?_eq_some_lt hs

/-- Linking the symbols of all blocks is resolving all references and writing them down. -/
theorem Layout.foldlM_linkAt (h : t.Layout blocks paths) :
    (blocks.flatMap Block.ids).foldlM t.linkAt {} =
      t.resolveAll >>= fun links => .ok (.ofLinks links) := by
  have hpairs : t.linkAt = fun l id => (t.resolve id >>= fun link => .ok (link, id)) >>=
      fun link => .ok (l.record link.2 link.1) := by
    funext l id
    rw [linkAt]
    cases t.resolve id <;> rfl
  calc (blocks.flatMap Block.ids).foldlM t.linkAt {}
      = (List.range t.size).foldlM t.linkAt {} := by
        rw [← h.filter_refers, List.foldlM_filter]
        congr 1
        funext l id
        cases hrefers : t.refers id with
        | true => rfl
        | false => exact (linkAt_of_not_refers hrefers l).symm
    _ = (List.range' 0 t.size).mapM (fun id => t.resolve id >>= fun link => .ok (link, id)) >>=
          fun links => .ok (links.foldl (fun l link => l.record link.2 link.1) {}) := by
        rw [hpairs, ← foldlM_eq_mapM, List.range_eq_range']
    _ = _ := by
        rw [mapM_range'_zipIdx, resolveAll, List.range_eq_range']
        cases (List.range' 0 t.size).mapM t.resolve <;> rfl

end SymbolTable

namespace Register

open SymbolTable

variable {r : Register} {blocks : List Block} {paths : List String} {b : Block} {id : Nat}
  {l : Linkage}

theorem methodsOf_eq (hr : r.Keeps blocks) (h : r.table.Layout blocks paths) :
    r.methodsOf = r.table.methodsOf := by
  funext owner
  by_cases howner : ∃ b ∈ blocks, b.id = owner
  · obtain ⟨b, hb, rfl⟩ := howner
    have hnodup : (r.methods.map Prod.fst).Nodup := by
      rw [hr.methods, List.map_map]
      exact h.ascending.map _ fun a b hab =>
        Nat.ne_of_lt (Nat.lt_of_le_of_lt (Nat.le_add_right _ _) hab)
    have hlookup : r.methods.lookup b.id = some b.methodIds := by
      rw [lookup_eq_some_iff_mem hnodup, hr.methods]
      exact List.mem_map_of_mem hb
    rw [h.methodsOf_eq hb, methodsOf, hlookup]
    rfl
  · have hlookup : r.methods.lookup owner = none := by
      rw [List.lookup_eq_none_iff, hr.methods]
      simpa [eq_comm (a := owner)] using howner
    rw [methodsOf, hlookup]
    refine (List.eq_nil_iff_forall_not_mem.2 fun id hid => howner ?_).symm
    obtain ⟨s, hs, hmethod, hcontainer⟩ := mem_methodsOf.1 hid
    obtain ⟨b, hb, hid⟩ := h.isMethod_iff.1 ⟨s, hs, hmethod⟩
    obtain ⟨m, hm⟩ := Block.mem_methodIds.1 hid
    rw [h.methodSymbols b hb id m hm, Option.some.injEq] at hs
    rw [← hs] at hcontainer
    exact ⟨b, hb, Option.some.inj hcontainer⟩

theorem resolveCall_eq (hmethods : r.methodsOf = r.table.methodsOf) :
    r.resolveCall = r.table.resolveCall := by
  have hcandidates : r.candidates = r.table.candidates := by
    funext ref
    unfold candidates SymbolTable.candidates
    cases r.table.findType ref.typeName with
    | none => rfl
    | some owner => exact congrArg (List.filter _ ·) (congrFun hmethods owner)
  funext caller reference
  unfold resolveCall SymbolTable.resolveCall
  cases MethodRef.parse? reference with
  | none => rfl
  | some ref =>
    rcases hfit : r.candidates ref with - | ⟨id, - | ⟨id', rest⟩⟩ <;>
      simp only [← congrFun hcandidates ref, hfit]

theorem linkMethod_eq (hmethods : r.methodsOf = r.table.methodsOf)
    (h : r.table.Layout blocks paths) (hb : b ∈ blocks) {m : MethodDecl} (hm : b.HasMethod id m) :
    r.linkMethod (r.table.qualifiedName b.id) l (id, m) = r.table.linkAt l id := by
  have hcall : r.linkCall id (r.table.qualifiedName b.id ++ "::" ++ trim m.name) =
      fun l call => r.table.resolveCall (r.table.callerLabel (methodSymbol b.id m)) call >>=
        fun callee => .ok (l.addCaller id callee) := by
    funext l call
    rw [linkCall, resolveCall_eq hmethods]
    rfl
  rw [linkMethod, hcall, foldlM_eq_mapM, linkAt, resolve, h.methodSymbols b hb id m hm]
  dsimp only [methodSymbol]
  cases m.calls.mapM (r.table.resolveCall (r.table.callerLabel
    ⟨trim m.name, some b.id, .method (m.parameters.map squeeze) m.attributes m.calls⟩)) <;> rfl

theorem linkMethod_setType (typeName : String) (base : Option SymbolId)
    (interfaces : List SymbolId) (l : Linkage) (method : SymbolId × MethodDecl) :
    r.linkMethod typeName (l.setType id base interfaces) method =
      r.linkMethod typeName l method >>= fun l' => .ok (l'.setType id base interfaces) := by
  unfold linkMethod
  refine foldlM_comm (k := fun l : Linkage => l.setType id base interfaces) (fun l call => ?_) _
    (l.setAttributes method.1 _)
  unfold linkCall
  cases r.resolveCall _ call with
  | error e => rfl
  | ok callee => exact congrArg Except.ok (l.addCaller_setType _ _ _ _ _)

theorem foldlM_linkMethod (hmethods : r.methodsOf = r.table.methodsOf)
    (h : r.table.Layout blocks paths) (hb : b ∈ blocks) {ids : List Nat} {ms : List MethodDecl}
    (hids : List.Forall₂ b.HasMethod ids ms) (l : Linkage) :
    (ids.zip ms).foldlM (r.linkMethod (r.table.qualifiedName b.id)) l =
      ids.foldlM r.table.linkAt l := by
  induction hids generalizing l with
  | nil => rfl
  | cons hm _ ih =>
    rw [List.zip_cons_cons, List.foldlM_cons, List.foldlM_cons, linkMethod_eq hmethods h hb hm]
    exact bind_congr ih

/-- Linking a type is linking its symbols one after the other. -/
theorem linkType_eq (hmethods : r.methodsOf = r.table.methodsOf) (h : r.table.Layout blocks paths)
    (hb : b ∈ blocks) : r.linkType l (b.id, b.site.decl) = b.ids.foldlM r.table.linkAt l := by
  obtain ⟨c, hc⟩ := h.typeSymbols b hb
  rw [Block.ids, List.foldlM_cons, linkAt, resolve, hc, linkType, hmethods, h.methodsOf_eq hb]
  dsimp only [typeSymbol]
  cases r.table.resolveBase (r.table.qualifiedName b.id) b.site.decl.kind b.site.decl.base with
  | error e => rfl
  | ok base =>
    cases b.site.decl.interfaces.mapM (r.table.resolveInterface (r.table.qualifiedName b.id)) with
    | error e => rfl
    | ok interfaces =>
      change _ = b.methodIds.foldlM r.table.linkAt (l.setType b.id base interfaces)
      -- base and interfaces are written down after the methods, which makes no difference
      rw [← foldlM_linkMethod hmethods h hb b.forall₂_methods,
        foldlM_comm (linkMethod_setType _ base interfaces)]
      rfl

/-- Linking the types of a register is resolving all references and writing them down. -/
theorem link_eq (hr : r.Keeps blocks) (h : r.table.Layout blocks paths) :
    r.link = r.table.resolveAll >>= fun links => .ok (.ofLinks links) := by
  have hmethods := methodsOf_eq hr h
  have hblocks : ∀ bs : List Block, (∀ b ∈ bs, b ∈ blocks) → ∀ l,
      (bs.map fun b => (b.id, b.site.decl)).foldlM r.linkType l =
        (bs.flatMap Block.ids).foldlM r.table.linkAt l := by
    intro bs hbs
    induction bs with
    | nil => exact fun l => rfl
    | cons b bs ih =>
      intro l
      rw [List.map_cons, List.foldlM_cons, List.flatMap_cons, List.foldlM_append,
        linkType_eq hmethods h (hbs b List.mem_cons_self)]
      exact bind_congr (ih fun b' hb' => hbs b' (List.mem_cons_of_mem _ hb'))
  rw [← h.foldlM_linkAt, link, hr.declared, hblocks blocks fun b hb => hb]

end Register

/-! ## What is written down in the end -/

namespace Linkage

variable {l : Linkage} {p : Program}

/-- Calls leave all but the callers as they are. -/
theorem foldl_addCaller_fields (caller : SymbolId) (callees : List SymbolId) (l : Linkage) :
    (callees.foldl (addCaller caller) l).base = l.base ∧
      (callees.foldl (addCaller caller) l).interfaces = l.interfaces ∧
      (callees.foldl (addCaller caller) l).attributes = l.attributes := by
  induction callees generalizing l with
  | nil => exact ⟨rfl, rfl, rfl⟩
  | cons callee callees ih =>
    obtain ⟨hbase, hinterfaces, hattributes⟩ := ih (l.addCaller caller callee)
    rw [List.foldl_cons, hbase, hinterfaces, hattributes]
    unfold addCaller
    split <;> exact ⟨rfl, rfl, rfl⟩

/-- A new caller comes last with each method that it calls, and once. -/
theorem callers_foldl_addCaller {caller : SymbolId} (hnew : ∀ id, caller ∉ l.callers id)
    (callees : List SymbolId) (id : SymbolId) :
    (callees.foldl (addCaller caller) l).callers id =
      l.callers id ++ if id ∈ callees then [caller] else [] := by
  induction callees using List.reverseRecOn generalizing id with
  | nil => simp
  | append_singleton callees callee ih =>
    rw [List.foldl_append, List.foldl_cons, List.foldl_nil, addCaller]
    by_cases hmem : callee ∈ callees
    · have hthere : caller ∈ (callees.foldl (addCaller caller) l).callers callee := by
        simp [ih, hmem]
      have hsame : id ∈ callees ++ [callee] ↔ id ∈ callees := by
        rw [List.mem_append, List.mem_singleton]
        exact or_iff_left_of_imp fun heq => heq ▸ hmem
      rw [if_pos hthere, ih, if_congr hsame rfl rfl]
    · have hthere : caller ∉ (callees.foldl (addCaller caller) l).callers callee := by
        simp [ih, hmem, hnew]
      rw [if_neg hthere]
      by_cases hid : id = callee
      · subst hid
        simp [ih, hmem]
      · simp [ih, hid]

/-- Writing down what one symbol refers to leaves all others as they are. -/
theorem record_other {id x : SymbolId} (hx : x ≠ id) (l : Linkage) (link : Link) :
    (l.record id link).base x = l.base x ∧ (l.record id link).interfaces x = l.interfaces x ∧
      (l.record id link).attributes x = l.attributes x := by
  cases link with
  | space => exact ⟨rfl, rfl, rfl⟩
  | type base interfaces => simp [record, setType, hx]
  | method attributes callees =>
    obtain ⟨hbase, hinterfaces, hattributes⟩ :=
      foldl_addCaller_fields id callees (l.setAttributes id attributes)
    refine ⟨congrFun hbase x, congrFun hinterfaces x, (congrFun hattributes x).trans ?_⟩
    exact Function.update_of_ne hx _ _

/-- The callers of one symbol get the caller that is new if it calls the symbol. -/
theorem callers_record {caller : SymbolId} (hnew : ∀ id, caller ∉ l.callers id) (link : Link)
    (id : SymbolId) :
    (l.record caller link).callers id =
      l.callers id ++ ((Program.callsOf caller link).filter (·.2 == id)).map (·.1) := by
  cases link with
  | space => exact (List.append_nil _).symm
  | type base interfaces => exact (List.append_nil _).symm
  | method attributes callees =>
    have hcount : (firstNew [] callees).count id = if id ∈ callees then 1 else 0 := by
      rw [(nodup_firstNew [] callees).count]
      simp [mem_firstNew]
    have hcalls : ((Program.callsOf caller (.method attributes callees)).filter (·.2 == id)).map
        (·.1) = if id ∈ callees then [caller] else [] := by
      rw [Program.callsOf, List.filter_map, List.map_map]
      simp only [Function.comp_def, List.filter_beq, hcount]
      split <;> rfl
    rw [hcalls]
    exact callers_foldl_addCaller (l := l.setAttributes caller attributes) hnew callees id

/-- What is written down is what the links of a program say, with the callers in the order of the
calls. -/
structure Says (l : Linkage) (p : Program) : Prop where
  fields : ∀ id, l.base id = p.base id ∧ l.interfaces id = p.interfaces id ∧
    l.attributes id = p.attributes id
  callers : ∀ id, l.callers id =
    ((Program.allCalls p.links.toList).filter (·.2 == id)).map (·.1)

theorem Says.not_mem_callers (h : l.Says p) (id : SymbolId) : p.links.size ∉ l.callers id := by
  rw [h.callers, List.mem_map]
  rintro ⟨⟨caller, callee⟩, hcall, rfl⟩
  obtain ⟨attributes, callees, hlink, -⟩ := Program.mem_allCalls.1 (List.mem_filter.1 hcall).1
  simp at hlink

/-- Writing down one more link is adding it to the program. -/
theorem Says.record (h : l.Says p) (link : Link) :
    (l.record p.links.size link).Says { p with links := p.links.push link } where
  fields := by
    intro id
    by_cases hid : id = p.links.size
    · subst hid
      have hnone : l.base p.links.size = none ∧ l.interfaces p.links.size = [] ∧
          l.attributes p.links.size = [] := by
        simpa [Program.base, Program.interfaces, Program.attributes] using h.fields p.links.size
      cases link with
      | space => simpa [Linkage.record, Program.base, Program.interfaces, Program.attributes]
          using hnone
      | type base interfaces =>
        simpa [Linkage.record, setType, Program.base, Program.interfaces, Program.attributes]
          using hnone.2.2
      | method attributes callees =>
        obtain ⟨hbase, hinterfaces, hattributes⟩ :=
          foldl_addCaller_fields p.links.size callees (l.setAttributes p.links.size attributes)
        simp only [Linkage.record, hbase, hinterfaces, hattributes]
        simpa [setAttributes, Program.base, Program.interfaces, Program.attributes]
          using ⟨hnone.1, hnone.2.1⟩
    · obtain ⟨hbase, hinterfaces, hattributes⟩ := record_other hid l link
      have hlink : (p.links.push link)[id]? = p.links[id]? := by
        rw [Array.getElem?_push, if_neg hid]
      rw [hbase, hinterfaces, hattributes]
      simpa [Program.base, Program.interfaces, Program.attributes, hlink] using h.fields id
  callers := by
    intro id
    have hcalls : Program.allCalls (p.links.push link).toList =
        Program.allCalls p.links.toList ++ Program.callsOf p.links.size link := by
      simp [Program.allCalls, List.zipIdx_append]
    rw [callers_record h.not_mem_callers, h.callers, hcalls, List.filter_append, List.map_append]

theorem ofLinks_concat (links : List Link) (link : Link) :
    ofLinks (links ++ [link]) = (ofLinks links).record links.length link := by
  simp [ofLinks, List.zipIdx_append]

/-- The links of a program, written down one after the other. -/
theorem says_ofLinks (p : Program) (links : List Link) :
    (ofLinks links).Says { p with links := links.toArray } := by
  induction links using List.reverseRecOn with
  | nil => exact ⟨by simp [ofLinks, Program.base, Program.interfaces, Program.attributes],
      fun _ => rfl⟩
  | append_singleton links link ih =>
    rw [ofLinks_concat]
    simpa using ih.record link

/-- In a loaded program only methods are called, so that no call is lost in the index of callers. -/
theorem Says.callers_eq (h : l.Says p) {s : Solution} {news : List (List SymbolTable.Block)}
    {outside : List SymbolTable.Block} {order : List Nat}
    (hloaded : p.LoadedFrom s news outside order)
    (hp : p.Represents s (news.flatten ++ outside)) : l.callers = p.callers := by
  funext id
  rw [h.callers, Program.callers, hloaded.callerIndex, Array.getD_eq_getD_getElem?,
    Program.getElem?_indexCallers]
  by_cases hid : id < p.table.size
  · rw [if_pos hid]
    rfl
  · rw [if_neg hid]
    refine List.eq_nil_iff_forall_not_mem.2 fun x hx => hid ?_
    obtain ⟨⟨caller, callee⟩, hcall, rfl⟩ := List.mem_map.1 hx
    obtain ⟨hcall, hcallee⟩ := List.mem_filter.1 hcall
    obtain ⟨attributes, callees, hlink, hmem⟩ := Program.mem_allCalls.1 hcall
    obtain rfl : callee = id := beq_iff_eq.1 hcallee
    have hcalled : callee ∈ p.callees caller := by
      rw [Array.getElem?_toList] at hlink
      rw [Program.callees, hlink]
      exact hmem
    exact hp.callee_lt hcalled

end Linkage

/-! ## Loading -/

theorem Program.load_eq (s : Solution) :
    load s = SymbolTable.ofSolution s >>= fun placed => placed.1.resolveAll >>= fun links =>
      ProjectOrder.order s.projects >>= fun order =>
        .ok ⟨placed.1, links.toArray, indexCallers placed.1.size (allCalls links),
          arrange s.projects placed.2 order⟩ := by
  rw [load]
  cases SymbolTable.ofSolution s with
  | error e => rfl
  | ok placed =>
    obtain ⟨t, listings⟩ := placed
    change _ = t.resolveAll >>= _
    dsimp only
    cases t.resolveAll with
    | error e => rfl
    | ok links =>
      change _ = ProjectOrder.order s.projects >>= _
      dsimp only
      cases ProjectOrder.order s.projects <;> rfl

namespace Register

open SymbolTable

theorem arrange_eq (decls : List ProjectDecl) {order : List Nat} (hnodup : order.Nodup)
    (listings : List (List SymbolId)) :
    arrange decls listings order = Program.arrange decls listings order := by
  induction order generalizing listings with
  | nil => rfl
  | cons i order ih =>
    obtain ⟨hi, hnodup⟩ := List.nodup_cons.1 hnodup
    rw [arrange, ih hnodup, Program.arrange, Program.arrange, List.map_cons]
    refine congrArg _ (List.map_congr_left fun j hj => ?_)
    have hne : i ≠ j := fun heq => hi (heq ▸ hj)
    simp [List.getD_eq_getElem?_getD, hne]

/-- What was written down while loading is what a program says. -/
structure Tells (r : Register) (l : Linkage) (projects : List Project) (p : Program) : Prop where
  table : r.table = p.table
  methods : r.methodsOf = p.table.methodsOf
  base : l.base = p.base
  interfaces : l.interfaces = p.interfaces
  attributes : l.attributes = p.attributes
  callers : l.callers = p.callers
  projects : projects = p.projects

/-- With room for the numbers of its symbols a solution is loaded type by type as it is by number:
with the same error, or to what tells the same. -/
theorem load_agrees {s : Solution} (hroom : s.symbolBound ≤ UInt32.size) :
    Agrees (fun p k => Tells k.1 k.2.1 k.2.2 p) (Program.load s) (Register.load s) := by
  have hstages : Agrees (fun p k => k.1.table = p.table ∧ k.1.methodsOf = p.table.methodsOf ∧
      k.2.1.Says p ∧ k.2.2 = p.projects) (Program.load s) (Register.load s) := by
    rw [Program.load_eq, Register.load]
    refine (ofSolution_agrees hroom).bind ?_
    rintro ⟨t, listings⟩ ⟨r, listings'⟩ - ⟨news, outside, hplaced, rfl, hkeeps, rfl⟩
    dsimp only
    rw [link_eq hkeeps hplaced.layout]
    cases r.table.resolveAll with
    | error e => exact .error e
    | ok links =>
      rcases (ProjectOrder.order_meets s.projects).cases with
        ⟨e, he, -⟩ | ⟨order, horder, -, front, rest, rfl, hexact⟩
      · rw [he]
        exact .error e
      · rw [horder]
        exact .ok ⟨rfl, methodsOf_eq hkeeps hplaced.layout,
          Linkage.says_ofLinks ⟨r.table, #[], _, _⟩ links,
          arrange_eq s.projects (hexact.perm.nodup_iff.2 List.nodup_range) _⟩
  refine hstages.mono ?_
  rintro p ⟨r, l, projects⟩ hload ⟨htable, hmethods, htold, hprojects⟩
  obtain ⟨hwf, news, outside, order, hloaded⟩ := (Program.load_meets s).of_ok hload
  exact ⟨htable, hmethods, funext fun id => (htold.fields id).1,
    funext fun id => (htold.fields id).2.1, funext fun id => (htold.fields id).2.2,
    htold.callers_eq hloaded (hloaded.represents hwf), hprojects⟩

-- A method that calls another one twice is entered once.
example :
    let methods : List MethodDecl :=
      [{ name := "Pay" }, { name := "Buy", calls := ["Shop::Pay", "Shop::Pay"] }]
    (Register.load { projects := [{ name := "Core", types := [{ name := "Shop", methods }] }] }).map
      (fun k => (k.2.1.callers 2, k.2.2.map (·.methods))) = .ok ([3], [[2, 3]]) := by
  rfl

end Register

end TestReach
