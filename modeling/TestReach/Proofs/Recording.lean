import TestReach.Run

/-!
# Recorded runs

What a front end was asked, and what it answered, is part of what happens during a run. A *recorded*
front end behaves like the front end it is made from and also writes down every question with its
answer (`FrontEnd.recorded`). Nothing in an analysis depends on the record: a run gives the same
result over the recorded front end as over the plain one (`Follows`). This is one of many relations
between computations that pass from the questions of an analysis to the whole of it
(`Compositional`).

`Notes x post` says what a recorded computation gives together with the events that it adds to the
record. The rule `Notes.bind` takes such statements through a computation step by step; the first
use of it is that a search, a classification and a series of them ask for callers only, and fail
exactly when a question fails, with the error of that question (`Asking`).
-/

namespace TestReach

variable {σ τ α β : Type}

/-! ## What a computation gives -/

/-- Whatever the state, what `x` gives has the property. -/
def Gives (x : StateM σ α) (post : α → Prop) : Prop :=
  ∀ st, post (x.run st).1

namespace Gives

theorem pure {a : α} {post : α → Prop} (h : post a) : Gives (Pure.pure a : StateM σ α) post :=
  fun _ => h

theorem trivial (x : StateM σ α) : Gives x fun _ => True :=
  fun _ => True.intro

theorem mono {x : StateM σ α} {post post' : α → Prop} (h : Gives x post)
    (hp : ∀ a, post a → post' a) : Gives x post' :=
  fun st => hp _ (h st)

theorem and {x : StateM σ α} {post post' : α → Prop} (h : Gives x post) (h' : Gives x post') :
    Gives x fun a => post a ∧ post' a :=
  fun st => ⟨h st, h' st⟩

theorem bind {x : StateM σ α} {f : α → StateM σ β} {post : α → Prop} {post' : β → Prop}
    (h : Gives x post) (hf : ∀ a, post a → Gives (f a) post') : Gives (x >>= f) post' :=
  fun st => hf _ (h st) (x.run st).2

end Gives

/-! ## Questions to a program -/

/-- A question that costs one check, and to which the answer is `answer` unless the check fails. -/
def AsksOnce (w : Watch (StateM σ)) (token : Token) (answer : Except QueryError (List SymbolId))
    (x : StateM σ (Except QueryError (List SymbolId))) : Prop :=
  ∀ st, x.run st = (((w.check token).run st).1.bind fun _ => answer, ((w.check token).run st).2)

theorem AsksOnce.gives {w : Watch (StateM σ)} {token : Token}
    {answer : Except QueryError (List SymbolId)}
    {x : StateM σ (Except QueryError (List SymbolId))} (h : AsksOnce w token answer x) :
    Gives x fun given => ∀ ids, given = .ok ids → answer = .ok ids := by
  intro st
  rw [h st]
  cases ((w.check token).run st).1 with
  | error e => rintro _ ⟨⟩
  | ok _ => exact fun _ => id

namespace Program

variable (p : Program) (w : Watch (StateM σ)) (token : Token)

theorem frontEnd_methods_asksOnce (ref : ProjectRef) :
    AsksOnce w token (p.listMethods ref) ((p.frontEnd w).methods token ref) := by
  intro st
  cases hc : (w.check token).run st with
  | mk r st' => cases r <;> simp only [Program.frontEnd, StateT.run_bind, hc] <;> rfl

theorem frontEnd_callers_asksOnce (id : SymbolId) :
    AsksOnce w token (.ok (p.callers id)) ((p.frontEnd w).callers token id) := by
  intro st
  cases hc : (w.check token).run st with
  | mk r st' => cases r <;> simp only [Program.frontEnd, StateT.run_bind, hc] <;> rfl

end Program

/-! ## Events -/

/-- A question to a front end, with its answer. -/
inductive Event where
  /-- A project was asked for its methods. -/
  | listed (ref : ProjectRef) (answer : Except QueryError (List SymbolId))
  /-- A method was asked for its callers. -/
  | asked (id : SymbolId) (answer : Except QueryError (List SymbolId))

/-- The error of a computation, if it failed. -/
def errorOf? {ε : Type} : Except ε α → Option ε
  | .error e => some e
  | .ok _ => none

@[simp] theorem errorOf?_ok {ε : Type} (a : α) : errorOf? (.ok a : Except ε α) = none := rfl

@[simp] theorem errorOf?_error {ε : Type} (e : ε) : errorOf? (.error e : Except ε α) = some e := rfl

/-- Why a question was not answered. -/
def Event.failure? : Event → Option QueryError
  | .listed _ answer => errorOf? answer
  | .asked _ answer => errorOf? answer

/-- Why the first question that was not answered was not. -/
def firstFailure (events : List Event) : Option QueryError :=
  events.findSome? Event.failure?

theorem firstFailure_append (es fs : List Event) :
    firstFailure (es ++ fs) = (firstFailure es).or (firstFailure fs) := by
  unfold firstFailure
  exact List.findSome?_append

theorem firstFailure_asked (id : SymbolId) (answer : Except QueryError (List SymbolId)) :
    firstFailure [.asked id answer] = errorOf? answer := by
  cases answer <;> rfl

theorem firstFailure_eq_none_iff {events : List Event} :
    firstFailure events = none ↔ ∀ e ∈ events, e.failure? = none :=
  List.findSome?_eq_none_iff

/-- Do `x` and add to the record the event that its answer makes. -/
def noting (event : α → Event) (x : StateM σ α) : StateM (σ × List Event) α :=
  fun s =>
    let (a, st) := x.run s.1
    (a, (st, s.2 ++ [event a]))

/-- Do `x` and leave the record as it is. -/
def unnoted (x : StateM σ α) : StateM (σ × List Event) α :=
  fun s =>
    let (a, st) := x.run s.1
    (a, (st, s.2))

/-- The front end that also records its questions. -/
def FrontEnd.recorded (front : FrontEnd (StateM σ)) : FrontEnd (StateM (σ × List Event)) where
  projects := front.projects
  methods token ref := noting (.listed ref) (front.methods token ref)
  callers token id := noting (.asked id) (front.callers token id)

/-- The watch beside a record. -/
def Watch.recorded (w : Watch (StateM σ)) : Watch (StateM (σ × List Event)) where
  now := unnoted w.now
  cancelled family := unnoted (w.cancelled family)

/-! ## Analyses over related front ends -/

/-- A relation between computations over two kinds of state that holds of a computation when it
holds of its steps. -/
structure Compositional (R : ∀ {α : Type}, StateM σ α → StateM τ α → Prop) : Prop where
  pure : ∀ {α : Type} (a : α), R (Pure.pure a : StateM σ α) (Pure.pure a : StateM τ α)
  bind : ∀ {α β : Type} {x : StateM σ α} {y : StateM τ α} {f : α → StateM σ β}
    {g : α → StateM τ β}, R x y → (∀ a, R (f a) (g a)) → R (x >>= f) (y >>= g)

namespace Criteria

variable {R : ∀ {α : Type}, StateM σ α → StateM τ α → Prop} (c : Criteria)
  {ask : SymbolId → StateM σ (Except QueryError (List SymbolId))}
  {ask' : SymbolId → StateM τ (Except QueryError (List SymbolId))}
  {front : FrontEnd (StateM σ)} {front' : FrontEnd (StateM τ)}

theorem search_related (hR : Compositional R) (hask : ∀ id, R (ask id) (ask' id)) (v : Verdicts)
    (start : SymbolId) (n : Nat) (queue met : List SymbolId) (d : Detector) :
    R (c.search ask v start n queue met d) (c.search ask' v start n queue met d) := by
  induction n generalizing queue met d with
  | zero => exact hR.pure _
  | succ n ih =>
    cases queue with
    | nil => exact hR.pure _
    | cons id queue =>
      unfold search
      split
      · exact hR.pure _
      · exact ih _ _ _
      · refine hR.bind (hask id) fun answer => ?_
        cases answer with
        | error e => exact hR.pure _
        | ok callers => exact ih _ _ _

theorem classify_related (hR : Compositional R) (hask : ∀ id, R (ask id) (ask' id))
    (id : SymbolId) (f : Findings) : R (c.classify ask id f) (c.classify ask' id f) := by
  unfold classify
  split
  · exact hR.pure _
  · split
    · refine hR.bind (hask id) fun answer => ?_
      cases answer <;> exact hR.pure _
    · unfold classifyTransitive
      split
      · exact hR.pure _
      · refine hR.bind (c.search_related hR hask _ _ _ _ _ _) fun r => ?_
        obtain ⟨_ | _, d⟩ := r <;> exact hR.pure _

theorem classifyAll_related (hR : Compositional R) (hask : ∀ id, R (ask id) (ask' id))
    (ids : List SymbolId) (f : Findings) :
    R (c.classifyAll ask ids f) (c.classifyAll ask' ids f) := by
  induction ids generalizing f with
  | nil => exact hR.pure _
  | cons id rest ih =>
    unfold classifyAll
    refine hR.bind (c.classify_related hR hask id f) fun r => ?_
    obtain ⟨_ | verdict, f'⟩ := r
    · exact hR.pure _
    · refine hR.bind (ih f') fun r => ?_
      obtain ⟨_ | verdicts, f''⟩ := r <;> exact hR.pure _

theorem runProject_related (hR : Compositional R) {token token' : Token}
    (hmethods : ∀ ref, R (front.methods token ref) (front'.methods token' ref))
    (hcallers : ∀ id, R (front.callers token id) (front'.callers token' id)) (ref : ProjectRef)
    (s : RunState) : R (c.runProject front token ref s) (c.runProject front' token' ref s) := by
  unfold runProject runProjectBy
  refine hR.bind (hmethods ref) fun answer => ?_
  cases answer with
  | error e => exact hR.pure _
  | ok methods =>
    refine hR.bind (c.classifyAll_related hR hcallers _ _) fun r => ?_
    obtain ⟨_ | verdicts, f⟩ := r <;> exact hR.pure _

theorem projectToken_related (hR : Compositional R) {w : Watch (StateM σ)} {w' : Watch (StateM τ)}
    (hnow : R w.now w'.now) (timeout : Option Nat) (token : Token) :
    R (projectToken w timeout token) (projectToken w' timeout token) := by
  unfold projectToken
  cases timeout with
  | none => exact hR.pure _
  | some seconds => exact hR.bind hnow fun now => hR.pure _

theorem runProjects_related (hR : Compositional R) {w : Watch (StateM σ)} {w' : Watch (StateM τ)}
    (hnow : R w.now w'.now)
    (hmethods : ∀ token ref, R (front.methods token ref) (front'.methods token ref))
    (hcallers : ∀ token id, R (front.callers token id) (front'.callers token id))
    (timeout : Option Nat) (token : Token) (refs : List ProjectRef) (s : RunState) :
    R (c.runProjects w front timeout token refs s)
      (c.runProjects w' front' timeout token refs s) := by
  induction refs generalizing s with
  | nil => exact hR.pure _
  | cons ref rest ih =>
    unfold runProjects runProjectsBy
    refine hR.bind (projectToken_related hR hnow timeout token) fun r => ?_
    cases r with
    | error e => exact hR.pure _
    | ok t =>
      refine hR.bind (c.runProject_related hR (hmethods t) (hcallers t) ref s) fun s' => ?_
      exact ih s'

/-- An analysis does nothing but ask and compute, so whatever relates the questions relates the
runs. -/
theorem run_related (hR : Compositional R) (w : Watch (StateM σ)) (w' : Watch (StateM τ))
    (front : FrontEnd (StateM σ)) (front' : FrontEnd (StateM τ)) (hnow : R w.now w'.now)
    (hprojects : front.projects = front'.projects)
    (hmethods : ∀ token ref, R (front.methods token ref) (front'.methods token ref))
    (hcallers : ∀ token id, R (front.callers token id) (front'.callers token id))
    (timeout : Option Nat) (token : Token) :
    R (c.run w front timeout token) (c.run w' front' timeout token) := by
  unfold run runBy
  rw [hprojects]
  refine hR.bind (c.runProjects_related hR hnow hmethods hcallers timeout token _ _) fun r => ?_
  cases r <;> exact hR.pure _

end Criteria

/-! ## The record changes nothing -/

/-- Apart from the record, `x` does what `y` does. -/
def Follows (x : StateM (σ × List Event) α) (y : StateM σ α) : Prop :=
  ∀ st log, (x.run (st, log)).1 = (y.run st).1 ∧ (x.run (st, log)).2.1 = (y.run st).2

namespace Follows

theorem bind {x : StateM (σ × List Event) α} {y : StateM σ α}
    {f : α → StateM (σ × List Event) β} {g : α → StateM σ β} (h : Follows x y)
    (hf : ∀ a, Follows (f a) (g a)) : Follows (x >>= f) (y >>= g) := by
  intro st log
  obtain ⟨ha, hst⟩ := h st log
  -- the state of `y` and some record, which `f` does not depend on
  have hx : x.run (st, log) = ((y.run st).1, ((y.run st).2, (x.run (st, log)).2.2)) := by
    rw [← ha, ← hst]
    rfl
  have hr : (x >>= f).run (st, log) =
      (f (y.run st).1).run ((y.run st).2, (x.run (st, log)).2.2) :=
    congrArg (fun r : α × (σ × List Event) => (f r.1).run r.2) hx
  rw [hr]
  exact hf _ _ _

theorem compositional : Compositional (Follows (σ := σ)) where
  pure _ _ _ := ⟨rfl, rfl⟩
  bind := bind

theorem noting (event : α → Event) (x : StateM σ α) : Follows (TestReach.noting event x) x :=
  fun _ _ => ⟨rfl, rfl⟩

theorem unnoted (x : StateM σ α) : Follows (TestReach.unnoted x) x :=
  fun _ _ => ⟨rfl, rfl⟩

end Follows

/-- A run over the recorded front end gives what the run gives. -/
theorem Criteria.run_follows (c : Criteria) (w : Watch (StateM σ)) (front : FrontEnd (StateM σ))
    (timeout : Option Nat) (token : Token) :
    Follows (c.run w.recorded front.recorded timeout token) (c.run w front timeout token) :=
  c.run_related Follows.compositional w.recorded w front.recorded front (.unnoted w.now) rfl
    (fun _ _ => .noting _ _) (fun _ _ => .noting _ _) timeout token

/-! ## What is added to the record -/

/-- Whatever the state, `x` adds events to the record that `post` allows for what `x` gives. -/
def Notes (x : StateM (σ × List Event) α) (post : α → List Event → Prop) : Prop :=
  ∀ st log, ∃ events, (x.run (st, log)).2.2 = log ++ events ∧ post (x.run (st, log)).1 events

namespace Notes

theorem pure {a : α} {post : α → List Event → Prop} (h : post a []) :
    Notes (Pure.pure a : StateM (σ × List Event) α) post :=
  fun _ log => ⟨[], (List.append_nil log).symm, h⟩

theorem mono {x : StateM (σ × List Event) α} {post post' : α → List Event → Prop}
    (h : Notes x post) (hp : ∀ a events, post a events → post' a events) : Notes x post' := by
  intro st log
  obtain ⟨events, hlog, ha⟩ := h st log
  exact ⟨events, hlog, hp _ _ ha⟩

theorem bind {x : StateM (σ × List Event) α} {f : α → StateM (σ × List Event) β}
    {post : α → List Event → Prop} {post' : β → List Event → Prop} (h : Notes x post)
    (hf : ∀ a events, post a events → Notes (f a) fun b more => post' b (events ++ more)) :
    Notes (x >>= f) post' := by
  intro st log
  obtain ⟨events, hlog, ha⟩ := h st log
  -- the second part starts from the record that the first part leaves
  obtain ⟨more, hmore, hb⟩ := hf _ events ha (x.run (st, log)).2.1 (log ++ events)
  have hr : (x >>= f).run (st, log) =
      (f (x.run (st, log)).1).run ((x.run (st, log)).2.1, log ++ events) :=
    congrArg (fun l => (f (x.run (st, log)).1).run ((x.run (st, log)).2.1, l)) hlog
  refine ⟨events ++ more, ?_, ?_⟩
  · rw [hr, hmore, List.append_assoc]
  · rw [hr]
    exact hb

theorem noting (event : α → Event) (x : StateM σ α) :
    Notes (TestReach.noting event x) fun a events => events = [event a] :=
  fun _ _ => ⟨[_], rfl, rfl⟩

theorem unnoted (x : StateM σ α) :
    Notes (TestReach.unnoted x) fun _ events => events = [] :=
  fun _ log => ⟨[], (List.append_nil log).symm, rfl⟩

theorem and_gives {x : StateM (σ × List Event) α} {post : α → List Event → Prop}
    {always : α → Prop} (h : Notes x post) (ha : Gives x always) :
    Notes x fun a events => post a events ∧ always a := by
  intro st log
  obtain ⟨events, hlog, hp⟩ := h st log
  exact ⟨events, hlog, hp, ha _⟩

/-- What is noted from an empty record on. -/
theorem run {x : StateM (σ × List Event) α} {post : α → List Event → Prop} (h : Notes x post)
    (st : σ) : post (x.run (st, [])).1 (x.run (st, [])).2.2 := by
  obtain ⟨events, hlog, ha⟩ := h st []
  rw [List.nil_append] at hlog
  rwa [hlog]

end Notes

/-- What holds of every event that a question may make holds of the record of a run. -/
theorem Criteria.run_notes_all (c : Criteria) (w : Watch (StateM σ)) {front : FrontEnd (StateM σ)}
    {P : Event → Prop}
    (hmethods : ∀ token ref, Gives (front.methods token ref) fun answer => P (.listed ref answer))
    (hcallers : ∀ token id, Gives (front.callers token id) fun answer => P (.asked id answer))
    (timeout : Option Nat) (token : Token) :
    Notes (c.run w.recorded front.recorded timeout token) fun _ events => ∀ e ∈ events, P e := by
  have hR : Compositional fun {α : Type} (x _ : StateM (σ × List Event) α) =>
      Notes x fun _ events => ∀ e ∈ events, P e := by
    refine ⟨fun a => .pure (by simp), fun hx hf => hx.bind fun a events hevents => ?_⟩
    refine (hf a).mono fun b more hmore e he => ?_
    exact (List.mem_append.1 he).elim (hevents e) (hmore e)
  have hquestion : ∀ {α : Type} {event : α → Event} {x : StateM σ α},
      (Gives x fun a => P (event a)) →
        Notes (noting event x) fun _ events => ∀ e ∈ events, P e := by
    intro α event x hx st log
    exact ⟨[event (x.run st).1], rfl, by simpa using hx st⟩
  refine c.run_related hR w.recorded w.recorded front.recorded front.recorded ?_ rfl
    (fun t ref => hquestion (hmethods t ref)) (fun t id => hquestion (hcallers t id)) timeout token
  exact (Notes.unnoted w.now).mono fun _ events hevents => by simp [hevents]

/-! ## Asking for callers -/

/-- Whether a question was one for the callers of a method. -/
def Event.isAsked : Event → Bool
  | .listed .. => false
  | .asked .. => true

/-- The events of a computation that asks for callers only, and that fails exactly when one of its
questions does, with the error of the first. -/
structure Asking {α : Type} (r : Except QueryError α) (events : List Event) : Prop where
  asked : ∀ e ∈ events, e.isAsked = true
  failure : firstFailure events = errorOf? r

namespace Asking

theorem nil (a : α) : Asking (.ok a) [] :=
  ⟨by simp, rfl⟩

theorem single (id : SymbolId) (answer : Except QueryError (List SymbolId)) :
    Asking answer [.asked id answer] :=
  ⟨by simp [Event.isAsked], firstFailure_asked id answer⟩

theorem append {a : α} {r : Except QueryError β} {es fs : List Event} (h : Asking (.ok a) es)
    (h' : Asking r fs) : Asking r (es ++ fs) := by
  refine ⟨fun e he => ?_, ?_⟩
  · exact (List.mem_append.1 he).elim (h.asked e) (h'.asked e)
  · rw [firstFailure_append, h.failure, h'.failure]
    rfl

theorem error {e : QueryError} {events : List Event} (h : Asking (.error e : Except _ α) events) :
    Asking (.error e : Except _ β) (events ++ []) := by
  rw [List.append_nil]
  exact ⟨h.asked, h.failure⟩

theorem ok {a : α} {events : List Event} (h : Asking (.ok a) events) (b : β) :
    Asking (.ok b) (events ++ []) :=
  h.append (nil b)

end Asking

namespace Criteria

/-- The token for a project is made without a question. -/
theorem projectToken_notes (w : Watch (StateM σ)) (timeout : Option Nat) (token : Token) :
    Notes (projectToken w.recorded timeout token) fun _ events => events = [] := by
  unfold projectToken
  cases timeout with
  | none => exact .pure rfl
  | some seconds =>
    refine (Notes.unnoted w.now).bind fun now events hevents => .pure ?_
    rw [hevents, List.append_nil]

variable (c : Criteria) (ask : SymbolId → StateM σ (Except QueryError (List SymbolId)))

/-- The questions of `ask`, recorded. -/
def recordedAsk (id : SymbolId) : StateM (σ × List Event) (Except QueryError (List SymbolId)) :=
  noting (.asked id) (ask id)

theorem search_asking (v : Verdicts) (start : SymbolId) (n : Nat) (queue met : List SymbolId)
    (d : Detector) :
    Notes (c.search (recordedAsk ask) v start n queue met d) fun r events => Asking r.1 events := by
  induction n generalizing queue met d with
  | zero => exact .pure (.nil _)
  | succ n ih =>
    cases queue with
    | nil => exact .pure (.nil _)
    | cons id queue =>
      unfold search
      split
      · exact .pure (.nil _)
      · exact ih _ _ _
      · refine (Notes.noting _ (ask id)).bind fun answer events hevents => ?_
        subst hevents
        have h := Asking.single id answer
        cases answer with
        | error e => exact .pure h.error
        | ok callers => exact (ih _ _ _).mono fun r more hmore => h.append hmore

theorem classify_asking (id : SymbolId) (f : Findings) :
    Notes (c.classify (recordedAsk ask) id f) fun r events => Asking r.1 events := by
  unfold classify
  split
  · exact .pure (.nil _)
  · split
    · refine (Notes.noting _ (ask id)).bind fun answer events hevents => ?_
      subst hevents
      have h := Asking.single id answer
      cases answer with
      | error e => exact .pure h.error
      | ok callers => exact .pure (h.ok _)
    · unfold classifyTransitive
      split
      · exact .pure (.nil _)
      · refine (c.search_asking ask _ _ _ _ _ _).bind fun r events h => ?_
        obtain ⟨e | searchEnd, d⟩ := r
        · exact .pure h.error
        · exact .pure (h.ok _)

/-- A series of classifications stops at the first question that fails. -/
theorem classifyAll_asking (ids : List SymbolId) (f : Findings) :
    Notes (c.classifyAll (recordedAsk ask) ids f) fun r events => Asking r.1 events := by
  induction ids generalizing f with
  | nil => exact .pure (.nil _)
  | cons id rest ih =>
    unfold classifyAll
    refine (c.classify_asking ask id f).bind fun r events h => ?_
    obtain ⟨e | verdict, f'⟩ := r
    · exact .pure h.error
    · refine (ih f').bind fun r more h' => ?_
      obtain ⟨e | verdicts, f''⟩ := r
      · exact .pure (List.append_assoc events more [] ▸ (h.append h').error)
      · exact .pure (List.append_assoc events more [] ▸ (h.append h').ok _)

end Criteria

end TestReach
