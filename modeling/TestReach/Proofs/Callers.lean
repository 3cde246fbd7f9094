import TestReach.Proofs.Identity

/-!
# The callers of a method

What a program answers when asked for callers is read off the declared calls: a method is a caller
of `m` when one of its calls resolves to `m` (`Solution.ResolvesTo`), wherever it is declared. The
callers come in ascending order, each once, however often it calls.
-/

namespace TestReach

open Text

variable {σ : Type}

/-! ## What calls resolve to -/

namespace Solution

variable {s : Solution} {m caller : MethodSite}

/-- The call is written as a reference, and `m` is the one method that the reference fits. -/
def ResolvesTo (s : Solution) (call : String) (m : MethodSite) : Prop :=
  ∃ ref, MethodRef.parse? call = some ref ∧
    ∀ m', m' ∈ s.methodSites ∧ m'.typeName = ref.typeName ∧ ref.names m'.decl = true ↔ m' = m

/-- In a well-formed solution every call resolves. -/
theorem WellFormed.exists_resolvesTo (hwf : s.WellFormed) (hcaller : caller ∈ s.methodSites)
    {call : String} (hcall : call ∈ caller.decl.calls) : ∃ m, s.ResolvesTo call m := by
  obtain ⟨T, hT, hcaller⟩ := List.mem_flatMap.1 hcaller
  obtain ⟨d, hd, rfl⟩ := List.mem_map.1 hcaller
  obtain ⟨ref, href, U, hU, hname, callee, honly⟩ := hwf.calls T hT d hd call hcall
  have hfits : ∀ d', d' ∈ U.decl.methods ∧ ref.names d' = true ↔ d' = callee := by
    intro d'
    rw [← List.mem_filter, honly, List.mem_singleton]
  refine ⟨⟨U.name, callee⟩, ref, href, fun m' => ?_⟩
  constructor
  · rintro ⟨hm', htype, hnames⟩
    obtain ⟨V, hV, hm'⟩ := List.mem_flatMap.1 hm'
    obtain ⟨d', hd', rfl⟩ := List.mem_map.1 hm'
    obtain rfl : V = U := List.inj_on_of_nodup_map hwf.distinct hV hU (htype.trans hname.symm)
    rw [(hfits d').1 ⟨hd', hnames⟩]
  · rintro rfl
    obtain ⟨hmem, hnames⟩ := (hfits callee).2 rfl
    exact ⟨List.mem_flatMap.2 ⟨U, hU, List.mem_map_of_mem hmem⟩, hname, hnames⟩

/-- A reference that fits a method resolves to it. -/
theorem WellFormed.calledBy_iff (hwf : s.WellFormed) :
    s.CalledBy m caller ↔
      caller ∈ s.methodSites ∧ ∃ call ∈ caller.decl.calls, s.ResolvesTo call m := by
  constructor
  · rintro ⟨hm, hcaller, call, hcall, ref, href, htype, hnames⟩
    obtain ⟨callee, ref', href', honly⟩ := hwf.exists_resolvesTo hcaller hcall
    obtain rfl : ref = ref' := Option.some.inj (href.symm.trans href')
    obtain rfl : m = callee := (honly m).1 ⟨hm, htype.symm, hnames⟩
    exact ⟨hcaller, call, hcall, ref, href, honly⟩
  · rintro ⟨hcaller, call, hcall, ref, href, honly⟩
    obtain ⟨hm, htype, hnames⟩ := (honly m).2 rfl
    exact ⟨hm, hcaller, call, hcall, ref, href, htype.symm, hnames⟩

end Solution

namespace Program

open SymbolTable

variable {p : Program} {s : Solution} {blocks : List Block} {id : Nat}

theorem Represents.mem_callers_iff (h : p.Represents s blocks) {x : Nat} :
    x ∈ p.callers id ↔ ∃ caller ∈ s.methodSites, p.Denotes x caller ∧
      ∃ call ∈ caller.decl.calls, ∃ callee, s.ResolvesTo call callee ∧ p.Denotes id callee := by
  constructor
  · intro hx
    obtain ⟨-, hcallee⟩ := (h.callers id x).1 hx
    obtain ⟨b, hb, d, hd⟩ := h.methodAt_of_callees hcallee
    obtain ⟨-, -, -, -, b', hb', -, d', hd', -⟩ := (h.callees_iff hb hd).1 hcallee
    have hm : MethodAt blocks id ⟨b'.site.name, d'⟩ := ⟨b', hb', rfl, hd'⟩
    obtain ⟨caller, hcaller, hcalled⟩ := h.mirrors_calls.forth hm hx
    obtain ⟨hmem, call, hcall, hresolves⟩ := h.wellFormed.calledBy_iff.1 hcalled
    exact ⟨caller, hmem, h.denotes_of_methodAt hcaller, call, hcall, _, hresolves,
      h.denotes_of_methodAt hm⟩
  · rintro ⟨caller, hmem, hcaller, call, hcall, callee, hresolves, hcallee⟩
    have hcalled := h.wellFormed.calledBy_iff.2 ⟨hmem, call, hcall, hresolves⟩
    obtain ⟨id', hid'⟩ := (mem_methodSites_iff h.sites).1 hcalled.1
    obtain rfl := h.eq_of_identity? hcallee (h.denotes_of_methodAt hid')
    obtain ⟨x', hx', hcalls⟩ := h.mirrors_calls.back hid' hcalled
    rw [h.eq_of_identity? hcaller (h.denotes_of_methodAt hx')]
    exact hcalls

/-! ## In which order callers come -/

theorem fst_of_mem_callsOf {caller : SymbolId} {link : Link} {call : SymbolId × SymbolId}
    (h : call ∈ callsOf caller link) : call.1 = caller := by
  cases link with
  | space => simp [callsOf] at h
  | type base interfaces => simp [callsOf] at h
  | method attributes callees =>
    obtain ⟨callee, -, rfl⟩ := List.mem_map.1 h
    rfl

theorem nodup_callsOf (caller : SymbolId) (link : Link) : (callsOf caller link).Nodup := by
  cases link with
  | space => exact List.nodup_nil
  | type base interfaces => exact List.nodup_nil
  | method attributes callees =>
    exact (nodup_firstNew _ _).map fun _ _ heq => (Prod.mk.inj heq).2

/-- Of the calls to one method there is one of each caller, and they ascend. -/
theorem pairwise_allCalls (links : List Link) (id : SymbolId) :
    ((allCalls links).filter (·.2 == id)).Pairwise fun a b => a.1 < b.1 := by
  unfold allCalls
  rw [List.filter_flatMap, List.pairwise_flatMap]
  refine ⟨?_, (pairwise_zipIdx links).imp ?_⟩
  · rintro ⟨link, caller⟩ -
    refine List.Pairwise.imp_of_mem ?_ ((nodup_callsOf caller link).filter _)
    intro a b ha hb hne
    obtain ⟨ha, ha'⟩ := List.mem_filter.1 ha
    obtain ⟨hb, hb'⟩ := List.mem_filter.1 hb
    refine absurd (Prod.ext ?_ ?_) hne
    · rw [fst_of_mem_callsOf ha, fst_of_mem_callsOf hb]
    · rw [beq_iff_eq.1 ha', beq_iff_eq.1 hb']
  · rintro ⟨link, caller⟩ ⟨link', caller'⟩ hlt a ha b hb
    rw [fst_of_mem_callsOf (List.mem_filter.1 ha).1, fst_of_mem_callsOf (List.mem_filter.1 hb).1]
    exact hlt

theorem LoadedFrom.pairwise_callers {news : List (List Block)} {outside : List Block}
    {order : List Nat} (h : LoadedFrom s p news outside order) (id : SymbolId) :
    (p.callers id).Pairwise (· < ·) := by
  rw [callers, h.callerIndex, Array.getD_eq_getD_getElem?, getElem?_indexCallers]
  split
  · exact List.pairwise_map.2 (pairwise_allCalls _ id)
  · exact .nil

/-- Asked for the callers of a symbol, with a token that holds, a loaded program answers with exactly
the methods that have a call which resolves to it, in ascending order; for a symbol that is no method
there are none. -/
theorem callers_exact (hload : Program.load s = .ok p) (w : Watch (StateM σ)) (token : Token)
    (st : σ) (hlive : ((w.check token).run st).1 = .ok ()) (id : SymbolId) :
    ∃ callers, (((p.frontEnd w).callers token id).run st).1 = .ok callers ∧
      callers.Pairwise (· < ·) ∧
      (∀ x, x ∈ callers ↔ ∃ caller ∈ s.methodSites, p.Denotes x caller ∧
        ∃ call ∈ caller.decl.calls, ∃ callee, s.ResolvesTo call callee ∧ p.Denotes id callee) ∧
      (¬p.table.IsMethod id → callers = []) := by
  obtain ⟨hwf, news, outside, order, hloaded⟩ := (load_meets s).of_ok hload
  have hp := hloaded.represents hwf
  refine ⟨p.callers id, ?_, hloaded.pairwise_callers id, fun x => hp.mem_callers_iff, ?_⟩
  · rw [p.frontEnd_callers_asksOnce w token id st, hlive]
    rfl
  · intro hno
    refine List.eq_nil_iff_forall_not_mem.2 fun x hx => hno ?_
    obtain ⟨-, -, -, -, -, callee, -, hdenotes⟩ := hp.mem_callers_iff.1 hx
    exact isMethod_of_identity? hdenotes

end Program

/-- A method that is called by an overload which also calls itself, from a nested type, from a
project that cannot be analysed, and from outside. -/
def manyCallers : Solution where
  projects :=
    [{ name := "Core"
       types := [{ name := "Store"
                   spaceName := some "App"
                   methods := [{ name := "put" },
                               { name := "put"
                                 parameters := ["int"]
                                 calls := ["App.Store::put()", "App.Store::put( int )",
                                           "App.Store::put()"] }]
                   nested := [{ name := "Shelf"
                                methods := [{ name := "fill"
                                              calls := ["App.Store::put()"] }] }] }] },
     { name := "Broken"
       error := some "no sources"
       types := [{ name := "Caller"
                   methods := [{ name := "go", calls := ["App.Store::put()"] }] }] }]
  externalTypes :=
    [{ name := "List", methods := [{ name := "sort", calls := [" App.Store :: put() "] }] }]

theorem Program.callers_exact_manyCallers :
    ∃ p, Program.load manyCallers = .ok p ∧
      ((Session.watch.check (Session.newToken {}).1).run (Session.newToken {}).2).1 = .ok () ∧
      (((p.frontEnd Session.watch).callers (Session.newToken {}).1 3).run
        (Session.newToken {}).2).1 = .ok [4, 6, 8, 10] ∧
      (((p.frontEnd Session.watch).callers (Session.newToken {}).1 4).run
        (Session.newToken {}).2).1 = .ok [4] ∧
      ∀ x, x ∈ [4, 6, 8, 10] ↔ ∃ caller ∈ manyCallers.methodSites, p.Denotes x caller ∧
        ∃ call ∈ caller.decl.calls, ∃ callee, manyCallers.ResolvesTo call callee ∧
          p.Denotes 3 callee := by
  have hanswers : (Program.load manyCallers).toOption.map (fun p => (p.callers 3, p.callers 4)) =
      some ([4, 6, 8, 10], [4]) := by
    decide +kernel
  have hlive : ((Session.watch.check (Session.newToken {}).1).run
      (Session.newToken {}).2).1 = .ok () := rfl
  obtain ⟨p, hload, hanswers⟩ := exists_ok_of_map hanswers
  obtain ⟨hthree, hfour⟩ := Prod.mk.inj hanswers
  have hanswer : ∀ id, (((p.frontEnd Session.watch).callers (Session.newToken {}).1 id).run
      (Session.newToken {}).2).1 = .ok (p.callers id) := by
    intro id
    rw [p.frontEnd_callers_asksOnce _ _ id, hlive]
    rfl
  obtain ⟨callers, hcallers, -, hexact, -⟩ := Program.callers_exact hload _ _ _ hlive 3
  obtain rfl : callers = p.callers 3 := Except.ok.inj (hcallers.symm.trans (hanswer 3))
  rw [hthree] at hexact
  exact ⟨p, hload, hlive, hthree ▸ hanswer 3, hfour ▸ hanswer 4, hexact⟩

end TestReach
