import TestReach.Proofs.Detector
import TestReach.Proofs.Ordered
import TestReach.Proofs.Recording
import Mathlib.Data.List.Perm.Subperm
import Mathlib.Logic.Relation

/-!
# Remembered verdicts are right

Let the callers of each method be fixed, `callersOf`, and let every question either fail or be
answered by them (`AnswersBy`). A test *reaches* a method when some number of steps from method to
caller leads from the method to a test (`Criteria.ReachedByTest`).

The verdicts kept by a classifier are right because of three facts that every classification
preserves (`Verdicts.Sound`): a test reaches each method that is kept as tested; no method that is
kept as untested is a test; and whatever calls a method kept as untested is kept as untested too.
The last is what makes it right to stop at such a method. A search preserves the facts because each
method that it has met is still in the queue or settled (`Criteria.Searching`), and it comes to its
end because it meets each method once.
-/

namespace TestReach

variable {σ α β : Type}

/-- Every question that does not fail is answered by `callersOf`. -/
def AnswersBy (ask : SymbolId → StateM σ (Except QueryError (List SymbolId)))
    (callersOf : SymbolId → List SymbolId) : Prop :=
  ∀ id, Gives (ask id) fun answer => ∀ callers, answer = .ok callers → callers = callersOf id

/-- The front end of a program answers by its index of callers, whatever the token. -/
theorem Program.frontEnd_answersBy (p : Program) (w : Watch (StateM σ)) (token : Token) :
    AnswersBy ((p.frontEnd w).callers token) p.callers := by
  intro id
  refine (p.frontEnd_callers_asksOnce w token id).gives.mono fun answer hanswer callers hok => ?_
  exact (Except.ok.inj (hanswer callers hok)).symm

/-! ## Being reached by a test -/

/-- The step from a method to a method that calls it. -/
def CalledBy (callersOf : SymbolId → List SymbolId) (id caller : SymbolId) : Prop :=
  caller ∈ callersOf id

namespace Criteria

variable (c : Criteria) (callersOf : SymbolId → List SymbolId)

/-- A method is a test by itself. -/
def isTest (id : SymbolId) : Bool :=
  c.program.isTest c.markers id

/-- Steps from method to caller lead from a method to a test. -/
def ReachedByTest (id : SymbolId) : Prop :=
  ∃ test, Relation.ReflTransGen (CalledBy callersOf) id test ∧ c.isTest test = true

/-- A method is tested when a test reaches it, in one-hop mode by at most one step. -/
def Tested (id : SymbolId) : Prop :=
  match c.propagation with
  | .transitive => c.ReachedByTest callersOf id
  | .oneHop => c.isTest id = true ∨ ∃ caller ∈ callersOf id, c.isTest caller = true

variable {c callersOf}

theorem reachedByTest_of_isTest {id : SymbolId} (h : c.isTest id = true) :
    c.ReachedByTest callersOf id :=
  ⟨id, .refl, h⟩

theorem tested_of_isTest {id : SymbolId} (h : c.isTest id = true) : c.Tested callersOf id := by
  unfold Tested
  cases c.propagation with
  | transitive => exact reachedByTest_of_isTest h
  | oneHop => exact .inl h

theorem ReachedByTest.of_path {id mid : SymbolId}
    (h : Relation.ReflTransGen (CalledBy callersOf) id mid) (hm : c.ReachedByTest callersOf mid) :
    c.ReachedByTest callersOf id := by
  obtain ⟨test, hpath, ht⟩ := hm
  exact ⟨test, h.trans hpath, ht⟩

end Criteria

/-! ## Sound tables -/

namespace Verdicts

/-- The table is right, and what calls an untested method is recorded as untested. -/
structure Sound (c : Criteria) (callersOf : SymbolId → List SymbolId) (v : Verdicts) : Prop where
  tested : ∀ id ∈ v.tested, c.ReachedByTest callersOf id
  unmarked : ∀ id ∈ v.untested, c.isTest id = false
  closed : ∀ id ∈ v.untested, ∀ caller ∈ callersOf id, caller ∈ v.untested

variable {c : Criteria} {callersOf : SymbolId → List SymbolId} {v : Verdicts}

theorem sound_new : Sound c callersOf {} :=
  ⟨by simp, by simp, by simp⟩

/-- Steps to callers never leave the methods recorded as untested. -/
theorem Sound.untested_of_path (h : v.Sound c callersOf) {id last : SymbolId}
    (hid : id ∈ v.untested) (hpath : Relation.ReflTransGen (CalledBy callersOf) id last) :
    last ∈ v.untested := by
  induction hpath with
  | refl => exact hid
  | tail _ hstep ih => exact h.closed _ ih _ hstep

theorem Sound.not_reached (h : v.Sound c callersOf) {id : SymbolId} (hid : id ∈ v.untested) :
    ¬ c.ReachedByTest callersOf id := by
  rintro ⟨test, hpath, ht⟩
  have hf := h.unmarked test (h.untested_of_path hid hpath)
  rw [ht] at hf
  exact Bool.noConfusion hf

theorem mem_tested_of_get? {id : SymbolId} (h : v.get? id = some true) : id ∈ v.tested := by
  unfold get? at h
  split at h
  · rename_i hc
    exact List.contains_iff_mem.1 hc
  · split at h <;> simp at h

theorem mem_untested_of_get? {id : SymbolId} (h : v.get? id = some false) : id ∈ v.untested := by
  unfold get? at h
  split at h
  · simp at h
  · split at h
    · rename_i hc
      exact List.contains_iff_mem.1 hc
    · simp at h

/-- What a sound table says of a method is right. -/
theorem Sound.get?_iff (h : v.Sound c callersOf) {id : SymbolId} {b : Bool}
    (hb : v.get? id = some b) : b = true ↔ c.ReachedByTest callersOf id := by
  cases b with
  | true => exact ⟨fun _ => h.tested id (mem_tested_of_get? hb), fun _ => rfl⟩
  | false =>
    exact ⟨fun hf => Bool.noConfusion hf,
      fun hr => absurd hr (h.not_reached (mem_untested_of_get? hb))⟩

theorem Sound.addTested (h : v.Sound c callersOf) {id : SymbolId}
    (hid : c.ReachedByTest callersOf id) : (v.addTested id).Sound c callersOf := by
  refine ⟨fun id' h' => ?_, h.unmarked, h.closed⟩
  rcases List.mem_cons.1 h' with rfl | h'
  · exact hid
  · exact h.tested id' h'

theorem mem_addUntested {ids : List SymbolId} {id : SymbolId} :
    id ∈ (v.addUntested ids).untested ↔ id ∈ ids ∨ id ∈ v.untested := by
  unfold addUntested
  rw [List.mem_append, mem_firstNew]
  by_cases h : id ∈ v.untested <;> simp [h]

end Verdicts

/-! ## Searching -/

namespace Criteria

/-- No more has to be known about a method that a search has met: it is recorded as untested, or it
is no test and its callers are met. -/
def Settled (c : Criteria) (callersOf : SymbolId → List SymbolId) (v : Verdicts)
    (met : List SymbolId) (id : SymbolId) : Prop :=
  id ∈ v.untested ∨ c.isTest id = false ∧ ∀ caller ∈ callersOf id, caller ∈ met

/-- The state of a search from `start`: each method that it has met is reached from the start, and
is in the queue or settled. -/
structure Searching (c : Criteria) (callersOf : SymbolId → List SymbolId) (v : Verdicts)
    (start : SymbolId) (queue met : List SymbolId) : Prop where
  start_mem : start ∈ met
  nodup : met.Nodup
  bounded : ∀ id ∈ met, id = start ∨ id < c.numberLimit
  path : ∀ id ∈ met, Relation.ReflTransGen (CalledBy callersOf) start id
  queued : ∀ id ∈ queue, id ∈ met
  settled : ∀ id ∈ met, id ∉ queue → c.Settled callersOf v met id

/-- What the end of a search says about its start and about the methods that it met. -/
def EndsWell (c : Criteria) (callersOf : SymbolId → List SymbolId) (v : Verdicts)
    (start : SymbolId) : SearchEnd → Prop
  | .found => c.ReachedByTest callersOf start
  | .exhausted met => start ∈ met ∧ ∀ id ∈ met, c.Settled callersOf v met id

variable {c : Criteria} {callersOf : SymbolId → List SymbolId} {v : Verdicts}
  {start id : SymbolId} {queue met : List SymbolId}

theorem Settled.mono {met' : List SymbolId} (h : c.Settled callersOf v met id)
    (hm : ∀ k ∈ met, k ∈ met') : c.Settled callersOf v met' id :=
  h.imp_right fun ⟨hid, hk⟩ => ⟨hid, fun k hc => hm k (hk k hc)⟩

theorem searching_new : c.Searching callersOf v start [start] [start] where
  start_mem := List.mem_singleton_self start
  nodup := List.nodup_singleton start
  bounded := fun _ h => .inl (List.mem_singleton.1 h)
  path := fun id h => by rw [List.mem_singleton.1 h]
  queued := fun _ h => h
  settled := fun _ h hn => absurd h hn

/-- A method from the queue that is recorded as untested is passed over. -/
theorem Searching.skip (h : c.Searching callersOf v start (id :: queue) met)
    (hid : id ∈ v.untested) : c.Searching callersOf v start queue met where
  start_mem := h.start_mem
  nodup := h.nodup
  bounded := h.bounded
  path := h.path
  queued := fun k hk => h.queued k (List.mem_cons_of_mem id hk)
  settled := by
    intro k hk hq
    by_cases hki : k = id
    · exact hki ▸ .inl hid
    · exact h.settled k hk (by simp [hki, hq])

/-- A method from the queue that is no test is settled once its callers are met. -/
theorem Searching.expand (h : c.Searching callersOf v start (id :: queue) met)
    (hnum : ∀ caller ∈ callersOf id, caller < c.numberLimit) (hid : c.isTest id = false) :
    c.Searching callersOf v start (queue ++ firstNew met (callersOf id))
      (met ++ firstNew met (callersOf id)) where
  start_mem := List.mem_append_left _ h.start_mem
  nodup := by
    refine List.Nodup.append h.nodup (nodup_firstNew _ _) ?_
    intro k hk hnew
    exact (mem_firstNew.1 hnew).2 hk
  bounded := by
    intro k hk
    rcases List.mem_append.1 hk with hk | hk
    · exact h.bounded k hk
    · exact .inr (hnum k (mem_firstNew.1 hk).1)
  path := by
    intro k hk
    rcases List.mem_append.1 hk with hk | hk
    · exact h.path k hk
    · exact (h.path id (h.queued id List.mem_cons_self)).tail (mem_firstNew.1 hk).1
  queued := by
    intro k hk
    rcases List.mem_append.1 hk with hk | hk
    · exact List.mem_append_left _ (h.queued k (List.mem_cons_of_mem id hk))
    · exact List.mem_append_right _ hk
  settled := by
    intro k hk hq
    rw [List.mem_append, not_or] at hq
    have hmet : k ∈ met := (List.mem_append.1 hk).resolve_right hq.2
    by_cases hki : k = id
    · subst hki
      refine .inr ⟨hid, fun caller hc => ?_⟩
      -- a caller that is not new was met before
      by_cases hm : caller ∈ met
      · exact List.mem_append_left _ hm
      · exact List.mem_append_right _ (mem_firstNew.2 ⟨hc, hm⟩)
    · exact (h.settled k hmet (by simp [hki, hq.1])).mono fun _ => List.mem_append_left _

/-- A search meets each number once, and besides its start only numbers below the limit. -/
theorem Searching.length_met_le (h : c.Searching callersOf v start queue met) :
    met.length ≤ c.numberLimit + 1 := by
  have hsub : met ⊆ start :: List.range c.numberLimit := by
    intro k hk
    rcases h.bounded k hk with rfl | hlt
    · exact List.mem_cons_self
    · exact List.mem_cons_of_mem _ (List.mem_range.2 hlt)
  have hle := (h.nodup.subperm hsub).length_le
  rwa [List.length_cons, List.length_range] at hle

theorem isMarker_eq {d : Detector} (h : d.Sound c.program c.markers) (id : SymbolId) :
    ∃ d', c.isMarker id d = (c.isTest id, d') ∧ d'.Sound c.program c.markers :=
  Detector.isMarker_eq h id

/-- What a search does about a method that it takes from the queue: it goes by the table, does not
look at its start again, or asks the detector. -/
theorem look_cases {d : Detector} (hd : d.Sound c.program c.markers) (id : SymbolId)
    {look : Standing × Detector}
    (hlook : look = if id = start then (.pending, d) else c.standing v id d) :
    look = (.tested, d) ∧ id ∈ v.tested ∨
      look = (.untested, d) ∧ id ∈ v.untested ∨
      look = (.pending, d) ∧ id = start ∨
      ∃ d', c.isMarker id d = (c.isTest id, d') ∧
        look = (if c.isTest id then .tested else .pending, d') := by
  subst hlook
  by_cases hid : id = start
  · exact .inr (.inr (.inl ⟨if_pos hid, hid⟩))
  rw [if_neg hid]
  unfold standing
  rcases hg : v.get? id with _ | _ | _
  · obtain ⟨d', hd', -⟩ := isMarker_eq hd id
    refine .inr (.inr (.inr ⟨d', hd', ?_⟩))
    rw [hd']
    cases c.isTest id <;> rfl
  · exact .inr (.inl ⟨rfl, Verdicts.mem_untested_of_get? hg⟩)
  · exact .inl ⟨rfl, Verdicts.mem_tested_of_get? hg⟩

/-- How a method stands, where the start of a search is not looked at again, is right in each of the
three cases. -/
theorem standing_cases (hv : v.Sound c callersOf) (hstart : c.isTest start = false) {d : Detector}
    (hd : d.Sound c.program c.markers) (id : SymbolId) {look : Standing × Detector}
    (hlook : look = if id = start then (.pending, d) else c.standing v id d) :
    ∃ d', d'.Sound c.program c.markers ∧
      (look = (.tested, d') ∧ c.ReachedByTest callersOf id ∨
        look = (.untested, d') ∧ id ∈ v.untested ∨
        look = (.pending, d') ∧ c.isTest id = false) := by
  obtain ⟨he, ht⟩ | ⟨he, hu⟩ | ⟨he, rfl⟩ | ⟨d', hd', he⟩ := look_cases hd id hlook
  · exact ⟨d, hd, .inl ⟨he, hv.tested id ht⟩⟩
  · exact ⟨d, hd, .inr (.inl ⟨he, hu⟩)⟩
  · exact ⟨d, hd, .inr (.inr ⟨he, hstart⟩)⟩
  · obtain ⟨d'', hd'', hs⟩ := isMarker_eq hd id
    obtain rfl : d'' = d' := congrArg Prod.snd (hd''.symm.trans hd')
    refine ⟨d'', hs, ?_⟩
    cases ht : c.isTest id with
    | true => exact .inl ⟨by simpa [ht] using he, reachedByTest_of_isTest ht⟩
    | false => exact .inr (.inr ⟨by simpa [ht] using he, rfl⟩)

variable {ask : SymbolId → StateM σ (Except QueryError (List SymbolId))}

-- The invariant bounds what a search has met, each method once, so that with `n` steps left the
-- search is over before the steps are.
theorem search_induct (hask : AnswersBy ask callersOf)
    (inv : List SymbolId → List SymbolId → Detector → Prop)
    (post : Except QueryError SearchEnd → Detector → Prop)
    (hbound : ∀ queue met d, inv queue met d → met.length ≤ c.numberLimit + 1)
    (hdone : ∀ met d, inv [] met d → post (.ok (.exhausted met)) d)
    (hstep : ∀ id queue met d, inv (id :: queue) met d → ∀ look,
      look = (if id = start then (.pending, d) else c.standing v id d) →
      ∃ d', look = (.tested, d') ∧ post (.ok .found) d' ∨
        look = (.untested, d') ∧ inv queue met d' ∨
        look = (.pending, d') ∧ (∀ e, post (.error e) d') ∧
          inv (queue ++ firstNew met (callersOf id)) (met ++ firstNew met (callersOf id)) d')
    (n : Nat) (queue met : List SymbolId) (d : Detector) (h : inv queue met d)
    (hn : c.numberLimit + 2 + queue.length ≤ n + met.length) :
    Gives (c.search ask v start n queue met d) fun r => post r.1 r.2 := by
  induction n generalizing queue met d with
  | zero =>
    have hlen := hbound queue met d h
    omega
  | succ n ih =>
    cases queue with
    | nil => exact .pure (hdone met d h)
    | cons id queue =>
      rw [List.length_cons] at hn
      unfold search
      obtain ⟨d', ⟨he, hfound⟩ | ⟨he, hskip⟩ | ⟨he, hfail, hexpand⟩⟩ := hstep id queue met d h _ rfl
      · rw [he]
        exact .pure hfound
      · rw [he]
        exact ih queue met d' hskip (by omega)
      · rw [he]
        refine (hask id).bind fun answer hanswer => ?_
        cases answer with
        | error e => exact .pure (hfail e)
        | ok callers =>
          obtain rfl := hanswer callers rfl
          refine ih _ _ d' hexpand ?_
          rw [List.length_append, List.length_append]
          omega

/-- A search that is answered ends well. -/
theorem search_gives (hask : AnswersBy ask callersOf)
    (hnum : ∀ id, ∀ caller ∈ callersOf id, caller < c.numberLimit) (hv : v.Sound c callersOf)
    (hstart : c.isTest start = false) (n : Nat) (queue met : List SymbolId) (d : Detector)
    (hd : d.Sound c.program c.markers) (h : c.Searching callersOf v start queue met)
    (hn : c.numberLimit + 2 + queue.length ≤ n + met.length) :
    Gives (c.search ask v start n queue met d) fun r =>
      r.2.Sound c.program c.markers ∧ ∀ e, r.1 = .ok e → c.EndsWell callersOf v start e := by
  refine search_induct hask
    (fun queue met d => d.Sound c.program c.markers ∧ c.Searching callersOf v start queue met)
    (fun r d => d.Sound c.program c.markers ∧ ∀ e, r = .ok e → c.EndsWell callersOf v start e)
    ?_ ?_ ?_ n queue met d ⟨hd, h⟩ hn
  · exact fun _ _ _ h => h.2.length_met_le
  · rintro met d ⟨hd, h⟩
    refine ⟨hd, ?_⟩
    rintro _ ⟨⟩
    exact ⟨h.start_mem, fun id hid => h.settled id hid List.not_mem_nil⟩
  · rintro id queue met d ⟨hd, h⟩ look hlook
    obtain ⟨d', hs, ⟨he, hr⟩ | ⟨he, hu⟩ | ⟨he, ht⟩⟩ := standing_cases hv hstart hd id hlook
    · refine ⟨d', .inl ⟨he, hs, ?_⟩⟩
      rintro _ ⟨⟩
      exact hr.of_path (h.path id (h.queued id List.mem_cons_self))
    · exact ⟨d', .inr (.inl ⟨he, hs, h.skip hu⟩)⟩
    · exact ⟨d', .inr (.inr ⟨he, fun e => ⟨hs, by rintro _ ⟨⟩⟩, hs, h.expand (hnum id) ht⟩)⟩

/-- What a search concludes is right, and the table stays sound. -/
theorem concludes_sound (hv : v.Sound c callersOf) {e : SearchEnd}
    (h : c.EndsWell callersOf v start e) :
    ((concludes v start e).1 = true ↔ c.ReachedByTest callersOf start) ∧
      (concludes v start e).2.Sound c callersOf := by
  cases e with
  | found => exact ⟨⟨fun _ => h, fun _ => rfl⟩, hv.addTested h⟩
  | exhausted met =>
    obtain ⟨hmem, hset⟩ := h
    have hsound : (v.addUntested met).Sound c callersOf := by
      refine ⟨hv.tested, fun id hid => ?_, fun id hid caller hc => ?_⟩
      · rcases Verdicts.mem_addUntested.1 hid with hid | hid
        · exact (hset id hid).elim (hv.unmarked id) (·.1)
        · exact hv.unmarked id hid
      · rw [Verdicts.mem_addUntested] at hid ⊢
        rcases hid with hid | hid
        · exact (hset id hid).elim (fun hu => .inr (hv.closed id hu caller hc))
            (fun hs => .inl (hs.2 caller hc))
        · exact .inr (hv.closed id hid caller hc)
    refine ⟨⟨fun hf => Bool.noConfusion hf, fun hr => ?_⟩, hsound⟩
    exact absurd hr (hsound.not_reached (Verdicts.mem_addUntested.2 (.inl hmem)))

end Criteria

/-! ## Classifying -/

/-- What an analysis has found out is right. -/
structure Findings.Sound (c : Criteria) (callersOf : SymbolId → List SymbolId) (f : Findings) :
    Prop where
  detector : f.detector.Sound c.program c.markers
  verdicts : f.verdicts.Sound c callersOf

theorem Findings.sound_new {c : Criteria} {callersOf : SymbolId → List SymbolId} :
    Findings.Sound c callersOf {} :=
  ⟨Detector.sound_new, Verdicts.sound_new⟩

namespace Criteria

variable {c : Criteria} {callersOf : SymbolId → List SymbolId} {f : Findings}
  {ask : SymbolId → StateM σ (Except QueryError (List SymbolId))}

/-- A classification of `id` after which `r` is known: the verdict is right, a failure leaves the
verdicts as they were, and the findings stay sound. -/
structure Classified (c : Criteria) (callersOf : SymbolId → List SymbolId) (f : Findings)
    (id : SymbolId) (r : Except QueryError Bool × Findings) : Prop where
  right : ∀ b, r.1 = .ok b → (b = true ↔ c.Tested callersOf id)
  kept : ∀ e, r.1 = .error e → r.2.verdicts = f.verdicts
  sound : r.2.Sound c callersOf

theorem anyIsMarker_eq {d : Detector} (hd : d.Sound c.program c.markers) (ids : List SymbolId) :
    ∃ d', c.anyIsMarker d ids = (ids.any c.isTest, d') ∧ d'.Sound c.program c.markers := by
  induction ids generalizing d with
  | nil => exact ⟨d, rfl, hd⟩
  | cons id rest ih =>
    obtain ⟨d', hd', hs⟩ := isMarker_eq hd id
    simp only [anyIsMarker, hd', List.any_cons]
    cases c.isTest id with
    | true => exact ⟨d', rfl, hs⟩
    | false => exact ih hs

theorem classifyOneHop_gives (hask : AnswersBy ask callersOf) (hmode : c.propagation = .oneHop)
    (hf : f.Sound c callersOf) {id : SymbolId} (hid : c.isTest id = false) :
    Gives (c.classifyOneHop ask id f) (c.Classified callersOf f id) := by
  unfold classifyOneHop
  refine (hask id).bind fun answer hanswer => ?_
  cases answer with
  | error e => exact .pure ⟨by rintro _ ⟨⟩, fun _ _ => rfl, hf⟩
  | ok callers =>
    obtain rfl := hanswer callers rfl
    obtain ⟨d', hd', hs⟩ := anyIsMarker_eq hf.detector (callersOf id)
    simp only [hd']
    refine .pure ⟨?_, by rintro _ ⟨⟩, hs, hf.verdicts⟩
    rintro _ ⟨⟩
    simp [Tested, hmode, hid]

/-- What comes of a transitive classification of a method that is no test by itself: its verdict is
in the table, or a search from it fails, or one ends well. -/
theorem classifyTransitive_cases (hask : AnswersBy ask callersOf)
    (hnum : ∀ id, ∀ caller ∈ callersOf id, caller < c.numberLimit) (hf : f.Sound c callersOf)
    {id : SymbolId} (hid : c.isTest id = false) :
    Gives (c.classifyTransitive ask id f) fun r =>
      (∃ b, f.verdicts.get? id = some b ∧ r = (.ok b, f)) ∨
        ∃ d, d.Sound c.program c.markers ∧
          ((∃ e, r = (.error e, { f with detector := d })) ∨
            ∃ e, c.EndsWell callersOf f.verdicts id e ∧
              r = (.ok (concludes f.verdicts id e).1, ⟨d, (concludes f.verdicts id e).2⟩)) := by
  unfold classifyTransitive
  cases hg : f.verdicts.get? id with
  | some verdict => exact .pure (.inl ⟨verdict, rfl, rfl⟩)
  | none =>
    have hsearch := search_gives hask hnum hf.verdicts hid (c.numberLimit + 2) [id] [id]
      f.detector hf.detector searching_new (by simp)
    refine hsearch.bind fun r hr => ?_
    obtain ⟨e | e, d⟩ := r
    · exact .pure (.inr ⟨d, hr.1, .inl ⟨e, rfl⟩⟩)
    · exact .pure (.inr ⟨d, hr.1, .inr ⟨e, hr.2 e rfl, rfl⟩⟩)

theorem classifyTransitive_gives (hask : AnswersBy ask callersOf)
    (hnum : ∀ id, ∀ caller ∈ callersOf id, caller < c.numberLimit)
    (hmode : c.propagation = .transitive) (hf : f.Sound c callersOf) {id : SymbolId}
    (hid : c.isTest id = false) :
    Gives (c.classifyTransitive ask id f) (c.Classified callersOf f id) := by
  have htested : c.Tested callersOf id ↔ c.ReachedByTest callersOf id := by
    simp only [Tested, hmode]
  refine (classifyTransitive_cases hask hnum hf hid).mono ?_
  rintro _ (⟨verdict, hg, rfl⟩ | ⟨d, hd, ⟨e, rfl⟩ | ⟨e, hends, rfl⟩⟩)
  · refine ⟨?_, by rintro _ ⟨⟩, hf⟩
    rintro _ ⟨⟩
    rw [htested]
    exact hf.verdicts.get?_iff hg
  · exact ⟨by rintro _ ⟨⟩, fun _ _ => rfl, hd, hf.verdicts⟩
  · obtain ⟨hb, hs⟩ := concludes_sound hf.verdicts hends
    refine ⟨?_, by rintro _ ⟨⟩, hd, hs⟩
    rintro _ ⟨⟩
    rw [htested]
    exact hb

/-- A classification gives the right verdict in either mode, if it gives one. -/
theorem classify_gives (hask : AnswersBy ask callersOf)
    (hnum : ∀ id, ∀ caller ∈ callersOf id, caller < c.numberLimit) (hf : f.Sound c callersOf)
    (id : SymbolId) : Gives (c.classify ask id f) (c.Classified callersOf f id) := by
  obtain ⟨d', hd', hs⟩ := isMarker_eq hf.detector id
  have hf' : Findings.Sound c callersOf { f with detector := d' } := ⟨hs, hf.verdicts⟩
  unfold classify
  rw [hd']
  cases hid : c.isTest id with
  | true =>
    refine .pure ⟨?_, by rintro _ ⟨⟩, hf'⟩
    rintro _ ⟨⟩
    exact ⟨fun _ => tested_of_isTest hid, fun _ => rfl⟩
  | false =>
    cases hmode : c.propagation with
    | oneHop =>
      exact (classifyOneHop_gives hask hmode hf' hid).mono fun r h => ⟨h.right, h.kept, h.sound⟩
    | transitive =>
      exact (classifyTransitive_gives hask hnum hmode hf' hid).mono fun r h =>
        ⟨h.right, h.kept, h.sound⟩

end Criteria

end TestReach
