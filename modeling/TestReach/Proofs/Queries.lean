import TestReach.Proofs.Closure
import TestReach.Proofs.Diagnostics

/-!
# Series of questions to a detector

One detector is asked about methods and types again and again, in any order and also about numbers
that stand for neither. Its answers are facts about the program, and what it has noted in the end
depends only on what it was asked about: `Detector.askAll_exact`.

The facts are said here without the closure: a type is a marker when its chain of bases ends and
steps to bases and interfaces lead from it to a name of the set (`Program.IsMarker`), and an
attribute of a method is in sight when none before it is a marker (`Program.InSight`).
-/

namespace TestReach

/-! ## Questions -/

/-- A question to a detector. -/
inductive Query where
  /-- Is the method a test by itself? -/
  | method (id : SymbolId)
  /-- Is the type a marker? -/
  | type (id : SymbolId)

namespace Detector

/-- The answer to a question, with the detector after it. -/
def ask (p : Program) (markers : MarkerSet) (d : Detector) : Query → Bool × Detector
  | .method id => d.isMarker p markers id
  | .type id => d.typeIsMarker p markers id

/-- The answers to questions that are put one after the other. -/
def askAll (p : Program) (markers : MarkerSet) (d : Detector) : List Query → List Bool × Detector
  | [] => ([], d)
  | q :: qs =>
    let (answer, d) := d.ask p markers q
    let (answers, d) := askAll p markers d qs
    (answer :: answers, d)

end Detector

/-! ## What the answers should be -/

namespace Program

/-- The attribute stands in the list of a method with no marker before it. -/
def InSight (p : Program) (markers : MarkerSet) (id : SymbolId) (a : Attribute) : Prop :=
  ∃ before after, p.attributes id = before ++ a :: after ∧
    ∀ T, .resolved T ∈ before → ¬p.IsMarker markers T

end Program

/-- The answer to a question is yes. -/
def Query.Holds (p : Program) (markers : MarkerSet) : Query → Prop
  | .method id => ∃ T, .resolved T ∈ p.attributes id ∧ p.IsMarker markers T
  | .type id => p.IsMarker markers id

/-- The answers to questions are right, and the detector has noted what was in sight on the way:
names of attributes that are no types, and names of types with a circular chain of bases, both in
ascending order and each once. -/
structure Detector.Exact (p : Program) (markers : MarkerSet) (queries : List Query)
    (answers : List Bool) (d : Detector) : Prop where
  answers : List.Forall₂ (fun q b => b = true ↔ q.Holds p markers) queries answers
  unresolvedOrder : d.unresolved.Pairwise (· < ·)
  unresolved : ∀ name, name ∈ d.unresolved ↔
    ∃ id, .method id ∈ queries ∧ p.InSight markers id (.unresolved name)
  malformedOrder : d.malformed.Pairwise (· < ·)
  malformed : ∀ name, name ∈ d.malformed ↔
    ∃ T, p.table.qualifiedName T = name ∧ p.Circular T ∧
      (.type T ∈ queries ∨ ∃ id, .method id ∈ queries ∧ p.InSight markers id (.resolved T))

/-! ## Attributes in sight -/

theorem mem_upTo {α : Type} {f : α → Bool} {as : List α} {a : α} :
    a ∈ upTo f as ↔ ∃ before after, as = before ++ a :: after ∧ ∀ b ∈ before, f b = false := by
  induction as with
  | nil => simp [upTo]
  | cons c as ih =>
    cases hc : f c with
    | true =>
      simp only [upTo, hc, ↓reduceIte, List.mem_singleton]
      constructor
      · rintro rfl
        exact ⟨[], as, rfl, by simp⟩
      · rintro ⟨before, after, heq, hbefore⟩
        cases before with
        | nil => exact (List.cons.inj heq).1.symm
        | cons b before =>
          -- the first element has the property, so nothing stands before it
          have hb := hbefore b List.mem_cons_self
          rw [← (List.cons.inj heq).1, hc] at hb
          exact Bool.noConfusion hb
    | false =>
      simp only [upTo, hc, Bool.false_eq_true, ↓reduceIte, List.mem_cons, ih]
      constructor
      · rintro (rfl | ⟨before, after, rfl, hbefore⟩)
        · exact ⟨[], as, rfl, by simp⟩
        · exact ⟨c :: before, after, rfl, List.forall_mem_cons.2 ⟨hc, hbefore⟩⟩
      · rintro ⟨before, after, heq, hbefore⟩
        cases before with
        | nil => exact .inl (List.cons.inj heq).1.symm
        | cons b before =>
          exact .inr ⟨before, after, (List.cons.inj heq).2, (List.forall_mem_cons.1 hbefore).2⟩

namespace Program.Represents

open SymbolTable

variable {p : Program} {s : Solution} {blocks : List Block} {markers : MarkerSet} {id : SymbolId}

theorem mem_lookedAt_iff (h : p.Represents s blocks) {a : Attribute} :
    a ∈ p.lookedAt markers id ↔ p.InSight markers id a := by
  rw [lookedAt, mem_upTo, InSight]
  refine exists_congr fun before => exists_congr fun after => and_congr_right fun _ => ?_
  constructor
  · intro hbefore T hT hmarker
    have hfalse := hbefore _ hT
    rw [marksTest, h.isMarkerType_eq.2 hmarker] at hfalse
    exact Bool.noConfusion hfalse
  · intro hbefore b hb
    cases b with
    | unresolved name => rfl
    | resolved T =>
      rw [marksTest, ← Bool.not_eq_true, h.isMarkerType_eq]
      exact hbefore T hb

theorem isTest_eq (h : p.Represents s blocks) :
    p.isTest markers id = true ↔ ∃ T, .resolved T ∈ p.attributes id ∧ p.IsMarker markers T := by
  rw [isTest, List.any_eq_true]
  constructor
  · rintro ⟨a, ha, hmarks⟩
    cases a with
    | unresolved name => exact Bool.noConfusion hmarks
    | resolved T => exact ⟨T, ha, h.isMarkerType_eq.1 hmarks⟩
  · rintro ⟨T, hT, hmarker⟩
    exact ⟨.resolved T, hT, h.isMarkerType_eq.2 hmarker⟩

/-- An attribute gives rise to a malformed type exactly when its chain of bases is circular. -/
theorem diagnosticOf?_resolved (h : p.Represents s blocks) {T : SymbolId} {name : String} :
    p.diagnosticOf? (.resolved T) = some (.malformed name) ↔
      p.table.qualifiedName T = name ∧ p.Circular T := by
  rw [diagnosticOf?]
  rcases (h.closure_exact T).cases with ⟨e, he, hcircular⟩ | ⟨members, hok, hends, -⟩
  · rw [he, closure_error he]
    simp [not_not.1 hcircular]
  · rw [hok]
    simp [hends]

end Program.Represents

/-! ## One question, and a series -/

/-- The attributes that a question makes a detector look at. -/
def Query.lookedAt (p : Program) (markers : MarkerSet) : Query → Set Attribute
  | .method id => {a | a ∈ p.lookedAt markers id}
  | .type id => {.resolved id}

/-- The attributes that questions make a detector look at. -/
def lookedAtBy (p : Program) (markers : MarkerSet) (queries : List Query) : Set Attribute :=
  {a | ∃ q ∈ queries, a ∈ q.lookedAt p markers}

namespace Detector

variable {p : Program} {markers : MarkerSet} {A : Set Attribute} {d : Detector}

theorem Knows.ask (h : d.Knows p markers A) (q : Query) :
    (d.ask p markers q).2.Knows p markers (A ∪ q.lookedAt p markers) := by
  cases q with
  | method id => exact h.isMarker id
  | type id => exact (h.typeIsMarker id).congr Set.union_singleton.symm

theorem Knows.askAll (h : d.Knows p markers A) (queries : List Query) :
    (d.askAll p markers queries).2.Knows p markers (A ∪ lookedAtBy p markers queries) := by
  induction queries generalizing d A with
  | nil => exact h.congr (by simp [lookedAtBy])
  | cons q queries ih =>
    refine (ih (h.ask q)).congr ?_
    ext a
    simp [lookedAtBy, or_assoc]

variable {s : Solution} {blocks : List SymbolTable.Block}

theorem ask_holds_iff (hp : p.Represents s blocks) (hd : d.Sound p markers) (q : Query) :
    ((d.ask p markers q).1 = true ↔ q.Holds p markers) ∧ (d.ask p markers q).2.Sound p markers := by
  cases q with
  | method id =>
    obtain ⟨d', hd', hs⟩ := isMarker_eq hd id
    rw [ask, hd']
    exact ⟨hp.isTest_eq, hs⟩
  | type id =>
    obtain ⟨d', hd', hs⟩ := typeIsMarker_eq hd id
    rw [ask, hd']
    exact ⟨hp.isMarkerType_eq, hs⟩

theorem askAll_holds (hp : p.Represents s blocks) (hd : d.Sound p markers) (queries : List Query) :
    List.Forall₂ (fun q b => b = true ↔ q.Holds p markers) queries
      (d.askAll p markers queries).1 := by
  induction queries generalizing d with
  | nil => exact .nil
  | cons q queries ih =>
    obtain ⟨hanswer, hs⟩ := ask_holds_iff hp hd q
    exact .cons hanswer (ih hs)

/-- What a detector that has looked at the attributes of some questions has noted. -/
theorem Knows.exact (hp : p.Represents s blocks) {queries : List Query} {answers : List Bool}
    (h : d.Knows p markers (lookedAtBy p markers queries))
    (hanswers : List.Forall₂ (fun q b => b = true ↔ q.Holds p markers) queries answers) :
    d.Exact p markers queries answers where
  answers := hanswers
  unresolvedOrder := h.unresolved.imp compareOfLessAndEq_eq_lt.1
  unresolved := by
    intro name
    refine (h.noted (.unresolved name)).trans ?_
    constructor
    · rintro ⟨a, ⟨q, hq, ha⟩, hdiagnostic⟩
      cases a with
      | unresolved other =>
        obtain rfl : other = name := by simpa [Program.diagnosticOf?] using hdiagnostic
        cases q with
        | method id => exact ⟨id, hq, hp.mem_lookedAt_iff.1 ha⟩
        | type id => simp [Query.lookedAt] at ha
      | resolved T => simp [Program.diagnosticOf?] at hdiagnostic
    · rintro ⟨id, hq, hsight⟩
      exact ⟨.unresolved name, ⟨.method id, hq, hp.mem_lookedAt_iff.2 hsight⟩, rfl⟩
  malformedOrder := h.malformed.imp compareOfLessAndEq_eq_lt.1
  malformed := by
    intro name
    refine (h.noted (.malformed name)).trans ?_
    constructor
    · rintro ⟨a, ⟨q, hq, ha⟩, hdiagnostic⟩
      cases a with
      | unresolved other => simp [Program.diagnosticOf?] at hdiagnostic
      | resolved T =>
        obtain ⟨hname, hcircular⟩ := hp.diagnosticOf?_resolved.1 hdiagnostic
        refine ⟨T, hname, hcircular, ?_⟩
        cases q with
        | method id => exact .inr ⟨id, hq, hp.mem_lookedAt_iff.1 ha⟩
        | type id =>
          obtain rfl : T = id := by simpa [Query.lookedAt] using ha
          exact .inl hq
    · rintro ⟨T, hname, hcircular, hasked⟩
      refine ⟨.resolved T, ?_, hp.diagnosticOf?_resolved.2 ⟨hname, hcircular⟩⟩
      rcases hasked with hq | ⟨id, hq, hsight⟩
      · exact ⟨.type T, hq, rfl⟩
      · exact ⟨.method id, hq, hp.mem_lookedAt_iff.2 hsight⟩

/-- Whatever a detector of a loaded program is asked about, in any order and with repeats: every
answer is right, the two lists hold what was in sight and nothing else, and questions about the same
methods and types, put in any order and any number of times, lead to the same lists. -/
theorem askAll_exact (hload : Program.load s = .ok p) (markers : MarkerSet)
    (queries : List Query) :
    (askAll p markers {} queries).2.Exact p markers queries (askAll p markers {} queries).1 ∧
      ∀ queries', (∀ q, q ∈ queries' ↔ q ∈ queries) →
        (askAll p markers {} queries').2.unresolved = (askAll p markers {} queries).2.unresolved ∧
        (askAll p markers {} queries').2.malformed = (askAll p markers {} queries).2.malformed := by
  obtain ⟨hwf, news, outside, order, hloaded⟩ := (Program.load_meets s).of_ok hload
  have hp := hloaded.represents hwf
  have hknows : ∀ queries, (askAll p markers {} queries).2.Knows p markers
      (lookedAtBy p markers queries) :=
    fun queries => (Knows.new.askAll queries).congr (Set.empty_union _)
  refine ⟨(hknows queries).exact hp (askAll_holds hp sound_new queries), fun queries' hsame => ?_⟩
  have hset : lookedAtBy p markers queries' = lookedAtBy p markers queries := by
    ext a
    simp [lookedAtBy, hsame]
  refine (hknows queries').lists_eq (hknows queries) fun x => ?_
  rw [(hknows queries').noted, (hknows queries).noted, hset]

end Detector

/-- A test after two attributes that are none, a method whose attributes name no types, and a type
that is its own base. -/
def doubtfulAttributes : Solution where
  projects :=
    [{ name := "Tests"
       types := [{ name := "Suite"
                   methods := [{ name := "covers"
                                 attributes := ["Slow", "Loop", "Fact", "Late"] },
                               { name := "helps", attributes := ["Note", "Slow"] }] }] }]
  externalTypes :=
    [{ name := "Loop", base := some "Loop" }, { name := "Fact", base := some "Test" },
     { name := "Test" }]

theorem Detector.askAll_exact_doubtfulAttributes :
    ∃ p, Program.load doubtfulAttributes = .ok p ∧
      let queries := [.method 2, .type 4, .method 3, .type 5, .method 2, .type 1]
      let r := askAll p (.ofNames ["Test"]) {} queries
      r.1 = [true, false, false, true, true, false] ∧
        r.2.unresolved = ["Note", "Slow"] ∧ r.2.malformed = ["Loop"] ∧
        r.2.Exact p (.ofNames ["Test"]) queries r.1 := by
  have hfound : (Program.load doubtfulAttributes).toOption.map (fun p =>
      let r := askAll p (.ofNames ["Test"]) {}
        [.method 2, .type 4, .method 3, .type 5, .method 2, .type 1]
      (r.1, r.2.unresolved, r.2.malformed)) =
      some ([true, false, false, true, true, false], ["Note", "Slow"], ["Loop"]) := by
    decide +kernel
  obtain ⟨p, hload, hfound⟩ := exists_ok_of_map hfound
  simp only [Prod.mk.injEq] at hfound
  exact ⟨p, hload, hfound.1, hfound.2.1, hfound.2.2, (askAll_exact hload _ _).1⟩

end TestReach
