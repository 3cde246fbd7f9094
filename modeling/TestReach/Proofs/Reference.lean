import TestReach.Proofs.Answer
import TestReach.Proofs.Spelling

/-!
# Referring to what a report shows

A report shows a method with its type, its name and its parameters, and the same parts make a
reference to it. For the methods that a run reports, this reference is traced back through the table
of the program. It names the method and no other, because the methods of a type differ in name or
parameters, except where a parameter has a `::` in it: then it never names the method
(`Criteria.reported_reference_found_iff`).
-/

namespace TestReach

open Text

variable {σ : Type}

/-! ## Methods by reference -/

theorem filter_key_eq_singleton {α κ : Type} [DecidableEq κ] {key : α → κ} {as : List α}
    (hn : (as.map key).Nodup) {a : α} (ha : a ∈ as) :
    (as.filter fun b => decide (key b = key a)) = [a] := by
  induction as with
  | nil => exact absurd ha List.not_mem_nil
  | cons b as ih =>
    rw [List.map_cons, List.nodup_cons] at hn
    rcases List.mem_cons.1 ha with rfl | ha
    · rw [List.filter_cons_of_pos (by simp), List.filter_eq_nil_iff.2]
      intro b hb heq
      exact hn.1 (List.mem_map.2 ⟨b, hb, by simpa using heq⟩)
    · have hne : key b ≠ key a := fun heq => hn.1 (heq ▸ List.mem_map_of_mem ha)
      rw [List.filter_cons_of_neg (by simpa using hne), ih hn.2 ha]

namespace SymbolTable

variable {t : SymbolTable} {blocks : List Block} {paths : List String} {id : Nat}

/-- A reference is found when it fits one method only. -/
theorem findMethod_eq_some_iff {text : String} :
    t.findMethod text = some id ↔
      ∃ ref, MethodRef.parse? text = some ref ∧ t.candidates ref = [id] := by
  rw [findMethod]
  cases MethodRef.parse? text with
  | none => simp
  | some ref =>
    simp only [Option.some.injEq, exists_eq_left']
    split <;> simp_all

/-- A call resolves to the method that its text is found as. -/
theorem resolveCall_eq_ok_iff {caller text : String} :
    t.resolveCall caller text = .ok id ↔ t.findMethod text = some id := by
  rw [resolveCall, findMethod]
  cases MethodRef.parse? text with
  | none => simp
  | some ref =>
    dsimp only
    split <;> simp_all

/-- The name and the parameters of a method fit no other method of its type. -/
theorem Layout.candidates_eq (h : t.Layout blocks paths) {b : Block} (hb : b ∈ blocks)
    (hn : (b.site.decl.methods.map MethodDecl.key).Nodup) {m : MethodDecl}
    (hm : b.HasMethod id m) : t.candidates ⟨b.site.name, m.key.1, some m.key.2⟩ = [id] := by
  have hnames : MethodRef.names ⟨b.site.name, m.key.1, some m.key.2⟩ =
      fun m' => decide (m'.key = m.key) := by
    funext m'
    rw [Bool.eq_iff_iff]
    simp [MethodRef.names, Prod.ext_iff]
  have hmem : m ∈ b.site.decl.methods := by
    obtain ⟨j, hj, -⟩ := hm
    exact List.mem_of_getElem? hj
  have hmethods : List.Forall₂ b.HasMethod
      (t.candidates ⟨b.site.name, m.key.1, some m.key.2⟩)
      (b.site.decl.methods.filter (MethodRef.names ⟨b.site.name, m.key.1, some m.key.2⟩)) :=
    candidates_forall₂ h hb rfl
  rw [hnames, filter_key_eq_singleton hn hmem] at hmethods
  obtain ⟨id', hid'⟩ := List.length_eq_one_iff.1 hmethods.length_eq
  have hid : id ∈ t.candidates ⟨b.site.name, m.key.1, some m.key.2⟩ :=
    (mem_candidates h).2 ⟨b, hb, rfl, m, hm, by simp [hnames]⟩
  rw [hid', List.mem_singleton] at hid
  rw [hid', hid]

end SymbolTable

namespace Program

open SymbolTable

variable {p : Program} {s : Solution} {blocks : List Block} {id : Nat} {m : MethodSite}

/-- What a report shows of a method is a reference to it exactly when no parameter has a `::`. -/
theorem Represents.findMethod_iff (h : p.Represents s blocks) (hm : MethodAt blocks id m)
    (project : String) (hplain : (m.entry project).Plain) :
    p.table.findMethod (m.entry project).reference = some id ↔
      ∀ q ∈ (m.entry project).parameters, ¬HasColons q.toList := by
  obtain ⟨b, hb, hname, hmethod⟩ := hm
  rw [findMethod_eq_some_iff]
  constructor
  · rintro ⟨ref, href, hids⟩ q hq hcolons
    -- the reference is found in a type of another name, which has other methods
    have hid : id ∈ p.table.candidates ref := by simp [hids]
    obtain ⟨b', hb', hname', m', hm', -⟩ := (mem_candidates h.layout).1 hid
    obtain rfl := h.layout.block_eq_of_method hb hb' hmethod hm'
    exact hplain.typeName_ne_of_hasColons ⟨q, hq, hcolons⟩ href (hname'.symm.trans hname)
  · intro hcolons
    have hsqueezed : ∀ q ∈ (m.entry project).parameters, squeeze q = q := by
      intro q hq
      obtain ⟨raw, -, rfl⟩ := List.mem_map.1 hq
      exact squeeze_squeeze raw
    have href := hplain.parse?_reference (trim_trim m.decl.name) hsqueezed hcolons
    have hoverloads : (b.site.decl.methods.map MethodDecl.key).Nodup :=
      h.wellFormed.overloads b.site (h.sites ▸ List.mem_map_of_mem hb)
    refine ⟨_, href, ?_⟩
    have hcandidates := h.layout.candidates_eq hb hoverloads hmethod
    rwa [hname] at hcandidates

/-- A method that calls another by a text which is found as that method is one of its callers. -/
theorem Represents.mem_callers_of_found (h : p.Represents s blocks) {text : String}
    (hfound : p.table.findMethod text = some id) {caller : Nat} {symbol : Symbol}
    {parameters attributes calls : List String} (hs : p.table.symbol? caller = some symbol)
    (hbody : symbol.body = .method parameters attributes calls) (htext : text ∈ calls) :
    caller ∈ p.callers id := by
  obtain ⟨ref, href, hids⟩ := findMethod_eq_some_iff.1 hfound
  have hto : CallsTo blocks text id := (mem_candidates_iff h.layout href).1 (by simp [hids])
  have hlt : id < p.size := by
    obtain ⟨-, -, b, hb, -, m, hm, -⟩ := hto
    exact symbol?_eq_some_lt (h.layout.methodSymbols b hb id m hm)
  refine (h.callers id caller).2 ⟨hlt, ?_⟩
  rcases h.layout.symbol_cases hs with ⟨b, hb, -, c, rfl⟩ | ⟨b, hb, m, hm, rfl⟩ | hroot | hspace
  · cases hbody
  · rw [methodSymbol, SymbolBody.method.injEq] at hbody
    exact (h.callees_iff hb hm).2 ⟨text, hbody.2.2 ▸ htext, hto⟩
  · rw [hroot] at hbody
    cases hbody
  · rw [hspace] at hbody
    cases hbody

/-- The methods that a project lists are methods of the solution. -/
theorem LoadedFrom.methodAt_of_listMethods {news : List (List Block)} {outside : List Block}
    {order : List Nat} (h : LoadedFrom s p news outside order) {ref : ProjectRef}
    {methods : List SymbolId} (hlist : p.listMethods ref = .ok methods) {id : SymbolId}
    (hid : id ∈ methods) : ∃ m, MethodAt (news.flatten ++ outside) id m := by
  obtain ⟨project, hproject, rfl⟩ : ∃ project ∈ p.projects, project.methods = methods := by
    unfold listMethods at hlist
    split at hlist
    · cases hlist
    · rename_i project hget
      split at hlist
      · cases hlist
      · exact ⟨project, List.mem_of_getElem? hget, Except.ok.inj hlist⟩
  rw [h.projects] at hproject
  obtain ⟨i, hi, rfl⟩ := List.mem_map.1 hproject
  obtain ⟨m, -, hm⟩ := exists_right_of_mem (h.listing_forall₂ hi) hid
  exact ⟨m, hm⟩

end Program

/-! ## What a run reports -/

/-- What a project was said to list is what the program lists for it. -/
def Event.ListedBy (p : Program) : Event → Prop
  | .listed ref answer => ∀ methods, answer = .ok methods → p.listMethods ref = .ok methods
  | .asked .. => True

namespace Criteria

variable {c : Criteria} {w : Watch (StateM σ)} {timeout : Option Nat} {token : Token} {st : σ}
  {o : Outcome}

/-- Only methods that the program lists for a project are reported under it. -/
theorem listed_of_mem_reported {p : Program}
    (hrun : ((c.run w (p.frontEnd w) timeout token).run st).1 = .ok o) {ref : ProjectRef}
    {id : SymbolId} (h : (ref, id) ∈ reported (c.visits w (p.frontEnd w) timeout token st)) :
    ∃ methods, p.listMethods ref = .ok methods ∧ id ∈ methods := by
  obtain ⟨before, v, after, hvs, rfl, -, hid, -⟩ := mem_reported.1 h
  have hrecord := (c.run_notes_all w (P := Event.ListedBy p)
    (fun t ref => (p.frontEnd_methods_asksOnce w t ref).gives) (fun _ _ _ => True.intro)
    timeout token).run st
  rw [c.run_record hrun, hvs] at hrecord
  have hlisted := hrecord (.listed v.ref v.listing) (by simp [Visit.events])
  cases hlisting : v.listing with
  | error e => simp [Visit.methods, hlisting] at hid
  | ok methods =>
    rw [Visit.methods, hlisting] at hid
    exact ⟨methods, hlisted methods hlisting, hid⟩

/-- The entries of an outcome are the methods that are reported. -/
theorem mem_outcome_iff {front : FrontEnd (StateM σ)}
    (hrun : ((c.run w front timeout token).run st).1 = .ok o) {e : Entry} :
    e ∈ o.tested ∨ e ∈ o.untested ↔
      ∃ r ∈ reported (c.visits w front timeout token st), c.describe r.1 r.2 = e := by
  obtain ⟨-, s, hacc, rfl⟩ := c.run_accounting hrun
  obtain ⟨verdict, htested, huntested⟩ := hacc.sides
  rw [show (finish s).tested = _ from htested, show (finish s).untested = _ from huntested]
  simp only [List.mem_map, List.mem_filter, Bool.not_eq_true']
  constructor
  · rintro (⟨r, ⟨hr, -⟩, he⟩ | ⟨r, ⟨hr, -⟩, he⟩)
    · exact ⟨r, hr, he⟩
    · exact ⟨r, hr, he⟩
  · rintro ⟨r, hr, he⟩
    cases hv : verdict r.2 with
    | true => exact .inl ⟨r, ⟨hr, hv⟩, he⟩
    | false => exact .inr ⟨r, ⟨hr, hv⟩, he⟩

/-- The entries of a report are those of the methods that a run reports. What such an entry shows,
if it is plain, is found as the method, and a call written so resolves to it and makes the method
that it stands in a caller, exactly when no parameter has a `::` in it. -/
theorem reported_reference_found_iff {s : Solution} {p : Program} (hload : Program.load s = .ok p)
    (markers : MarkerSet) (mode : Propagation) (w : Watch (StateM σ)) (timeout : Option Nat)
    (token : Token) (st : σ) {o : Outcome}
    (hrun : ((Criteria.run ⟨p, markers, mode⟩ w (p.frontEnd w) timeout token).run st).1 = .ok o) :
    let c : Criteria := ⟨p, markers, mode⟩
    let report := reported (c.visits w (p.frontEnd w) timeout token st)
    (∀ e, e ∈ o.tested ∨ e ∈ o.untested ↔ ∃ r ∈ report, c.describe r.1 r.2 = e) ∧
      ∀ ref id, (ref, id) ∈ report →
        let e := c.describe ref id
        e.Plain →
          (p.table.findMethod e.reference = some id ↔
            ∀ q ∈ e.parameters, ¬HasColons q.toList) ∧
          (∀ caller, p.table.resolveCall caller e.reference = .ok id ↔
            ∀ q ∈ e.parameters, ¬HasColons q.toList) ∧
          ((∀ q ∈ e.parameters, ¬HasColons q.toList) →
            ∀ caller symbol parameters attributes calls, p.table.symbol? caller = some symbol →
              symbol.body = .method parameters attributes calls → e.reference ∈ calls →
              caller ∈ p.callers id) := by
  intro c report
  refine ⟨fun e => mem_outcome_iff hrun, ?_⟩
  intro ref id hreported e hplain
  obtain ⟨hwf, news, outside, order, hloaded⟩ := (Program.load_meets s).of_ok hload
  have hp := hloaded.represents hwf
  obtain ⟨methods, hlist, hid⟩ := listed_of_mem_reported hrun hreported
  obtain ⟨m, hm⟩ := hloaded.methodAt_of_listMethods hlist hid
  have hentry : e = m.entry ref.name := hp.describe_eq markers mode ref hm
  have hfound := hp.findMethod_iff hm ref.name (hentry ▸ hplain)
  rw [← hentry] at hfound
  refine ⟨hfound, fun caller => SymbolTable.resolveCall_eq_ok_iff.trans hfound, ?_⟩
  intro hcolons caller symbol parameters attributes calls hs hbody htext
  exact hp.mem_callers_of_found (hfound.2 hcolons) hs hbody htext

end Criteria

/-- Overloads that differ in parameters with commas of their own, and a caller that refers to one of
them as a report shows it. -/
def genericOverloads : Solution where
  projects :=
    [{ name := "Core"
       types := [{ name := "Store"
                   spaceName := some "App"
                   methods := [{ name := "put", parameters := ["Map<int, string>", "int[,]"] },
                               { name := "put", parameters := ["(int, int)"] },
                               { name := "put" },
                               { name := "all"
                                 calls := ["App.Store::put(Map<int,string>, int[,])"] }] }] }]

theorem Criteria.reported_reference_found_iff_genericOverloads :
    ∃ p o, Program.load genericOverloads = .ok p ∧
      let c : Criteria := ⟨p, .ofNames [], .transitive⟩
      let token := (Session.newToken {}).1
      let report := reported (c.visits Session.watch (p.frontEnd Session.watch) none token
        (Session.newToken {}).2)
      ((c.run Session.watch (p.frontEnd Session.watch) none token).run
        (Session.newToken {}).2).1 = .ok o ∧
        o.untested.map (·.reference) = ["App.Store::put(Map<int,string>, int[,])",
          "App.Store::put((int,int))", "App.Store::put()", "App.Store::all()"] ∧
        (∀ e ∈ o.untested, e.Plain) ∧
        (∀ e, e ∈ o.tested ∨ e ∈ o.untested ↔ ∃ r ∈ report, c.describe r.1 r.2 = e) ∧
        ∀ ref id, (ref, id) ∈ report →
          let e := c.describe ref id
          e.Plain →
            (p.table.findMethod e.reference = some id ↔
              ∀ q ∈ e.parameters, ¬HasColons q.toList) ∧
            (∀ caller, p.table.resolveCall caller e.reference = .ok id ↔
              ∀ q ∈ e.parameters, ¬HasColons q.toList) ∧
            ((∀ q ∈ e.parameters, ¬HasColons q.toList) →
              ∀ caller symbol parameters attributes calls, p.table.symbol? caller = some symbol →
                symbol.body = .method parameters attributes calls → e.reference ∈ calls →
                caller ∈ p.callers id) := by
  have hreport : (Program.load genericOverloads).toOption.map (fun p =>
      ((Criteria.run ⟨p, .ofNames [], .transitive⟩ Session.watch (p.frontEnd Session.watch) none
        (Session.newToken {}).1).run (Session.newToken {}).2).1.toOption.map fun o =>
          (o.untested.map (·.reference), o.untested.all fun e => decide e.Plain)) =
      some (some (["App.Store::put(Map<int,string>, int[,])", "App.Store::put((int,int))",
        "App.Store::put()", "App.Store::all()"], true)) := by
    decide +kernel
  obtain ⟨p, hload, hreport⟩ := exists_ok_of_map hreport
  obtain ⟨o, hrun, hreport⟩ := exists_ok_of_map hreport
  simp only [Prod.mk.injEq, List.all_eq_true, decide_eq_true_eq] at hreport
  exact ⟨p, o, hload, hrun, hreport.1, hreport.2,
    Criteria.reported_reference_found_iff hload (.ofNames []) .transitive _ _ _ _ hrun⟩

/-- A parameter with an alias for the global namespace. -/
def aliasedParameter : Solution where
  projects :=
    [{ name := "P"
       types := [{ name := "T"
                   methods := [{ name := "run", parameters := ["global::System.String"] }] }] }]

/-- What a report shows of a method need not be found as the method. -/
theorem Criteria.reported_reference_not_found :
    ∃ p o, Program.load aliasedParameter = .ok p ∧
      ((Criteria.run ⟨p, .ofNames [], .transitive⟩ Session.watch (p.frontEnd Session.watch) none
        (Session.newToken {}).1).run (Session.newToken {}).2).1 = .ok o ∧
      ∃ e ∈ o.untested, e.Plain ∧ e.reference = "T::run(global::System.String)" ∧
        p.table.findMethod e.reference = none := by
  have hreport : (Program.load aliasedParameter).toOption.map (fun p =>
      (((Criteria.run ⟨p, .ofNames [], .transitive⟩ Session.watch (p.frontEnd Session.watch) none
        (Session.newToken {}).1).run (Session.newToken {}).2).1.toOption.map (·.untested),
        p.table.findMethod "T::run(global::System.String)")) =
      some (some [⟨"P", "T", "run", ["global::System.String"]⟩], none) := by
    decide +kernel
  have hplain : Entry.Plain ⟨"P", "T", "run", ["global::System.String"]⟩ := by
    decide +kernel
  obtain ⟨p, hload, hreport⟩ := exists_ok_of_map hreport
  obtain ⟨hrun, hlookup⟩ := Prod.mk.inj hreport
  obtain ⟨o, hrun, huntested⟩ := exists_ok_of_map hrun
  exact ⟨p, o, hload, hrun, _, huntested ▸ List.mem_singleton_self _, hplain, rfl, hlookup⟩

end TestReach
