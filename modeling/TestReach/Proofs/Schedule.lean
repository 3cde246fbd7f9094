import TestReach.Proofs.Answer
import TestReach.Proofs.Diagnostics

/-!
# Which diagnostics depend on the order of classification

Classifying some methods looks at their attributes and at those of callers. In one-hop mode, which
callers these are depends on each method alone. In transitive mode a search stops at what earlier
searches have found out, so that only bounds are left: all that leads to an untested method is
looked at (`Criteria.surelySeen`), and nothing that leads to none of the methods
(`Criteria.possiblySeen`).

Where the two bounds have the same diagnostics the order does not matter
(`Criteria.diagnostics_independent_of_schedule`). Where they differ it can:
`Criteria.diagnostics_depend_on_schedule`.
-/

namespace TestReach

open Relation

variable {σ τ : Type}

/-- The attributes that are looked at when the methods of a set are. -/
def Program.seen (p : Program) (markers : MarkerSet) (M : Set SymbolId) : Set Attribute :=
  {a | ∃ id ∈ M, a ∈ p.lookedAt markers id}

namespace Criteria

variable {c : Criteria} {callersOf : SymbolId → List SymbolId} {M : Set SymbolId} {d : Detector}

/-! ## Methods that a detector has looked at -/

/-- The detector has looked at the methods of a set and at no others. -/
def Seen (c : Criteria) (M : Set SymbolId) (d : Detector) : Prop :=
  d.Knows c.program c.markers (c.program.seen c.markers M)

theorem seen_new : c.Seen ∅ {} :=
  Detector.Knows.new.congr (by simp [Program.seen])

theorem Seen.isMarker (h : c.Seen M d) (id : SymbolId) :
    ∃ d', c.isMarker id d = (c.isTest id, d') ∧ c.Seen (insert id M) d' := by
  obtain ⟨d', hd', -⟩ := Detector.isMarker_eq h.sound id
  have hlooked := Detector.Knows.isMarker h id
  rw [hd'] at hlooked
  refine ⟨d', hd', hlooked.congr ?_⟩
  ext a
  simp [Program.seen, or_comm]

theorem Seen.anyIsMarker (h : c.Seen M d) (ids : List SymbolId) :
    ∃ d', c.anyIsMarker d ids = (ids.any c.isTest, d') ∧
      c.Seen (M ∪ {m | m ∈ upTo c.isTest ids}) d' := by
  induction ids generalizing d M with
  | nil => exact ⟨d, rfl, by simpa [upTo] using h⟩
  | cons id rest ih =>
    obtain ⟨d₁, hd₁, h₁⟩ := h.isMarker id
    simp only [Criteria.anyIsMarker, hd₁, List.any_cons, upTo]
    cases c.isTest id with
    | true =>
      refine ⟨d₁, rfl, ?_⟩
      convert h₁ using 1
      ext m
      simp [or_comm]
    | false =>
      obtain ⟨d₂, hd₂, h₂⟩ := ih h₁
      refine ⟨d₂, hd₂, ?_⟩
      convert h₂ using 1
      ext m
      simp [or_left_comm, or_assoc]

/-! ## Bounds for what is looked at -/

/-- A method with its callers up to the first test or, in transitive mode and where `climbs` says
so, with all methods that lead to it. -/
def seenWhere (c : Criteria) (callersOf : SymbolId → List SymbolId) (climbs : SymbolId → Prop)
    (id : SymbolId) : Set SymbolId :=
  match c.propagation with
  | .oneHop => {m | m = id ∨ c.isTest id = false ∧ m ∈ upTo c.isTest (callersOf id)}
  | .transitive => {m | m = id ∨ climbs id ∧ ReflTransGen (CalledBy callersOf) id m}

theorem mem_seenWhere {climbs : SymbolId → Prop} (id : SymbolId) :
    id ∈ c.seenWhere callersOf climbs id := by
  unfold seenWhere
  cases c.propagation with
  | oneHop => exact .inl rfl
  | transitive => exact .inl rfl

/-- The methods that a classification may look at: none but itself if it is a test. -/
def possiblySeen (c : Criteria) (callersOf : SymbolId → List SymbolId) : SymbolId → Set SymbolId :=
  c.seenWhere callersOf fun id => c.isTest id = false

/-- The methods that have been looked at after a classification, whatever came before it: all that
lead to an untested method. -/
def surelySeen (c : Criteria) (callersOf : SymbolId → List SymbolId) : SymbolId → Set SymbolId :=
  c.seenWhere callersOf fun id => ¬c.ReachedByTest callersOf id

theorem surelySeen_of_isTest {id : SymbolId} (h : c.isTest id = true) :
    c.surelySeen callersOf id ⊆ {id} := by
  unfold surelySeen seenWhere
  cases c.propagation with
  | oneHop =>
    rintro m (rfl | ⟨hno, -⟩)
    · rfl
    · simp [h] at hno
  | transitive =>
    rintro m (rfl | ⟨hno, -⟩)
    · rfl
    · exact absurd (reachedByTest_of_isTest h) hno

variable {ask : SymbolId → StateM σ (Except QueryError (List SymbolId))} {v : Verdicts}
  {start : SymbolId}

/-- A search from `start` that found the methods of `M` looked at has looked at those of `M'`. -/
structure SeenFrom (c : Criteria) (callersOf : SymbolId → List SymbolId) (start : SymbolId)
    (M M' : Set SymbolId) (d : Detector) : Prop where
  seen : c.Seen M' d
  subset : M ⊆ M'
  reached : ∀ id ∈ M', id ∈ M ∨ ReflTransGen (CalledBy callersOf) start id

theorem SeenFrom.isMarker {M' : Set SymbolId} (h : c.SeenFrom callersOf start M M' d)
    {id : SymbolId} (hpath : ReflTransGen (CalledBy callersOf) start id) :
    ∃ d', c.isMarker id d = (c.isTest id, d') ∧
      c.SeenFrom callersOf start M (insert id M') d' := by
  obtain ⟨d', hd', hseen⟩ := h.seen.isMarker id
  refine ⟨d', hd', hseen, h.subset.trans (Set.subset_insert id M'), ?_⟩
  rintro m (rfl | hm)
  · exact .inr hpath
  · exact h.reached m hm

/-- What has been met and taken from the queue is in the set. -/
def Taken (queue met : List SymbolId) (M : Set SymbolId) : Prop :=
  ∀ id ∈ met, id ∉ queue → id ∈ M

theorem Taken.next {id : SymbolId} {queue met : List SymbolId} {N : Set SymbolId}
    (h : Taken (id :: queue) met M) (hsub : M ⊆ N) (hid : id ∈ N) : Taken queue met N := by
  intro m hm hqueue
  by_cases hmid : m = id
  · exact hmid ▸ hid
  · exact hsub (h m hm (by simp [hmid, hqueue]))

theorem Taken.append {queue met : List SymbolId} (h : Taken queue met M) (new : List SymbolId) :
    Taken (queue ++ new) (met ++ new) M := by
  intro m hm hqueue
  rw [List.mem_append, not_or] at hqueue
  exact h m ((List.mem_append.1 hm).resolve_right hqueue.2) hqueue.1

/-- A search that ends without a test has looked at all methods that it met. -/
theorem search_seen (hask : AnswersBy ask callersOf)
    (hnum : ∀ id, ∀ caller ∈ callersOf id, caller < c.numberLimit)
    (hstart : c.isTest start = false) (hmem : start ∈ M) (hv : ∀ id ∈ v.untested, id ∈ M)
    (h : c.Seen M d) :
    Gives (c.searchFrom ask v start d) fun r => ∀ e, r.1 = .ok e →
      ∃ M', c.SeenFrom callersOf start M M' r.2 ∧
        ∀ met, e = .exhausted met → ∀ id ∈ met, id ∈ M' := by
  have hbegin : c.SeenFrom callersOf start M M d := ⟨h, subset_rfl, fun _ => .inl⟩
  refine search_induct hask
    (fun queue met d => c.Searching callersOf v start queue met ∧
      ∃ M', c.SeenFrom callersOf start M M' d ∧ Taken queue met M')
    (fun r d => ∀ e, r = .ok e → ∃ M', c.SeenFrom callersOf start M M' d ∧
      ∀ met, e = .exhausted met → ∀ id ∈ met, id ∈ M')
    ?_ ?_ ?_ _ [start] [start] d ⟨searching_new, M, hbegin, ?_⟩ (by simp)
  · exact fun _ _ _ hinv => hinv.1.length_met_le
  · rintro met d ⟨-, M', hseen, htaken⟩ _ ⟨⟩
    refine ⟨M', hseen, ?_⟩
    rintro _ ⟨⟩ id hid
    exact htaken id hid List.not_mem_nil
  · rintro id queue met d ⟨hs, M', hseen, htaken⟩ look hlook
    have hpath := hs.path id (hs.queued id List.mem_cons_self)
    obtain ⟨he, -⟩ | ⟨he, hu⟩ | ⟨he, rfl⟩ | ⟨d', hd', he⟩ := look_cases hseen.seen.sound id hlook
    · refine ⟨d, .inl ⟨he, ?_⟩⟩
      rintro _ ⟨⟩
      exact ⟨M', hseen, by rintro _ ⟨⟩⟩
    · have hnext := htaken.next subset_rfl (hseen.subset (hv id hu))
      exact ⟨d, .inr (.inl ⟨he, hs.skip hu, M', hseen, hnext⟩)⟩
    · have hnext := htaken.next subset_rfl (hseen.subset hmem)
      exact ⟨d, .inr (.inr ⟨he, by rintro _ _ ⟨⟩, hs.expand (hnum id) hstart, M', hseen,
        hnext.append _⟩)⟩
    · obtain ⟨d₁, hd₁, hseen₁⟩ := hseen.isMarker hpath
      obtain rfl : d₁ = d' := congrArg Prod.snd (hd₁.symm.trans hd')
      cases ht : c.isTest id with
      | true =>
        refine ⟨d₁, .inl ⟨by simpa [ht] using he, ?_⟩⟩
        rintro _ ⟨⟩
        exact ⟨_, hseen₁, by rintro _ ⟨⟩⟩
      | false =>
        have hnext := htaken.next (Set.subset_insert id M') (Set.mem_insert id M')
        exact ⟨d₁, .inr (.inr ⟨by simpa [ht] using he, by rintro _ _ ⟨⟩, hs.expand (hnum id) ht, _,
          hseen₁, hnext.append _⟩)⟩
  · exact fun id hid hqueue => absurd hid hqueue

end Criteria

/-! ## Classifying -/

/-- What an analysis knows after it has looked at the methods of a set: all of them that are kept as
untested are in the set. -/
structure Findings.Seen (c : Criteria) (M : Set SymbolId) (f : Findings) : Prop where
  detector : c.Seen M f.detector
  untested : ∀ id ∈ f.verdicts.untested, id ∈ M

namespace Criteria

variable {c : Criteria} {callersOf : SymbolId → List SymbolId} {M : Set SymbolId} {f : Findings}
  {ask : SymbolId → StateM σ (Except QueryError (List SymbolId))}

/-- A classification that found the methods of `M` looked at has looked at those of `M'`, within the
two bounds. -/
structure Looks (c : Criteria) (callersOf : SymbolId → List SymbolId) (id : SymbolId)
    (M M' : Set SymbolId) (f' : Findings) : Prop where
  seen : f'.Seen c M'
  subset : M ⊆ M'
  within : M' ⊆ M ∪ c.possiblySeen callersOf id
  covers : c.surelySeen callersOf id ⊆ M'

theorem Looks.of_insert {id : SymbolId} {M' : Set SymbolId} {f' : Findings}
    (h : c.Looks callersOf id (insert id M) M' f') : c.Looks callersOf id M M' f' where
  seen := h.seen
  subset := (Set.subset_insert id M).trans h.subset
  within := by
    intro m hm
    rcases h.within hm with (rfl | hm) | hm
    · exact .inr (mem_seenWhere m)
    · exact .inl hm
    · exact .inr hm
  covers := h.covers

theorem classifyOneHop_looks (hask : AnswersBy ask callersOf) (hmode : c.propagation = .oneHop)
    {id : SymbolId} (hid : c.isTest id = false) (hmem : id ∈ M) (hf : f.Seen c M) :
    Gives (c.classifyOneHop ask id f) fun r => ∀ b, r.1 = .ok b →
      ∃ M', c.Looks callersOf id M M' r.2 := by
  unfold classifyOneHop
  refine (hask id).bind fun answer hanswer => ?_
  cases answer with
  | error e => exact .pure (by rintro _ ⟨⟩)
  | ok callers =>
    obtain rfl := hanswer callers rfl
    obtain ⟨d', hd', hseen⟩ := hf.detector.anyIsMarker (callersOf id)
    simp only [hd']
    refine .pure fun b _ => ⟨_, ⟨hseen, fun m hm => .inl (hf.untested m hm)⟩,
      Set.subset_union_left, ?_, ?_⟩
    · simp only [possiblySeen, seenWhere, hmode]
      exact Set.union_subset_union_right M fun m hm => .inr ⟨hid, hm⟩
    · simp only [surelySeen, seenWhere, hmode]
      rintro m (rfl | ⟨-, hm⟩)
      · exact .inl hmem
      · exact .inr hm

theorem Seen.concludes {v : Verdicts} {e : SearchEnd} {d : Detector} (hd : c.Seen M d)
    (start : SymbolId) (hv : ∀ id ∈ v.untested, id ∈ M)
    (hmet : ∀ met, e = .exhausted met → ∀ id ∈ met, id ∈ M) :
    Findings.Seen c M ⟨d, (concludes v start e).2⟩ := by
  refine ⟨hd, fun id hid => ?_⟩
  cases e with
  | found => exact hv id hid
  | exhausted met =>
    rcases Verdicts.mem_addUntested.1 hid with hid | hid
    · exact hmet met rfl id hid
    · exact hv id hid

-- What is kept as untested is closed under callers, and all of it has been looked at.
theorem covers_of_untested {id : SymbolId} (hmode : c.propagation = .transitive) (hmem : id ∈ M)
    (hf : f.Seen c M) (hv : f.verdicts.Sound c callersOf)
    (hid : ¬c.ReachedByTest callersOf id → id ∈ f.verdicts.untested) :
    c.surelySeen callersOf id ⊆ M := by
  simp only [surelySeen, seenWhere, hmode]
  rintro m (rfl | ⟨hno, hpath⟩)
  · exact hmem
  · exact hf.untested m (hv.untested_of_path (hid hno) hpath)

theorem classifyTransitive_looks (hask : AnswersBy ask callersOf)
    (hnum : ∀ id, ∀ caller ∈ callersOf id, caller < c.numberLimit)
    (hmode : c.propagation = .transitive) (hs : f.Sound c callersOf) {id : SymbolId}
    (hid : c.isTest id = false) (hmem : id ∈ M) (hf : f.Seen c M) :
    Gives (c.classifyTransitive ask id f) fun r => ∀ b, r.1 = .ok b →
      ∃ M', c.Looks callersOf id M M' r.2 := by
  unfold classifyTransitive
  cases hg : f.verdicts.get? id with
  | some verdict =>
    refine .pure fun b _ => ⟨M, hf, subset_rfl, Set.subset_union_left, ?_⟩
    refine covers_of_untested hmode hmem hf hs.verdicts fun hno => ?_
    have hfalse : verdict = false := by
      rw [← Bool.not_eq_true, hs.verdicts.get?_iff hg]
      exact hno
    exact Verdicts.mem_untested_of_get? (hfalse ▸ hg)
  | none =>
    have hgives := search_gives hask hnum hs.verdicts hid (c.numberLimit + 2) [id] [id] f.detector
      hs.detector searching_new (by simp)
    have hlooks := search_seen (v := f.verdicts) hask hnum hid hmem hf.untested hf.detector
    refine (hgives.and hlooks).bind fun r hr => ?_
    obtain ⟨_ | e, d⟩ := r
    · exact .pure (by rintro _ ⟨⟩)
    · obtain ⟨⟨-, hends⟩, hseen⟩ := hr
      obtain ⟨M', hM', hmet⟩ := hseen e rfl
      obtain ⟨-, hsound⟩ := concludes_sound hs.verdicts (hends e rfl)
      have hf' := hM'.seen.concludes id (fun m hm => hM'.subset (hf.untested m hm)) hmet
      refine .pure fun b _ => ⟨M', hf', hM'.subset, ?_, ?_⟩
      · simp only [possiblySeen, seenWhere, hmode]
        exact fun m hm => (hM'.reached m hm).imp_right fun hpath => .inr ⟨hid, hpath⟩
      · refine covers_of_untested hmode (hM'.subset hmem) hf' hsound fun hno => ?_
        have hended := hends e rfl
        cases e with
        | found => exact absurd hended hno
        | exhausted met => exact Verdicts.mem_addUntested.2 (.inl hended.1)

theorem classify_looks (hask : AnswersBy ask callersOf)
    (hnum : ∀ id, ∀ caller ∈ callersOf id, caller < c.numberLimit) (hs : f.Sound c callersOf)
    (hf : f.Seen c M) (id : SymbolId) :
    Gives (c.classify ask id f) fun r => ∀ b, r.1 = .ok b →
      ∃ M', c.Looks callersOf id M M' r.2 := by
  obtain ⟨d', hd', hseen⟩ := hf.detector.isMarker id
  have hf' : Findings.Seen c (insert id M) { f with detector := d' } :=
    ⟨hseen, fun m hm => .inr (hf.untested m hm)⟩
  have hs' : Findings.Sound c callersOf { f with detector := d' } := ⟨hseen.sound, hs.verdicts⟩
  have hmem : id ∈ insert id M := Set.mem_insert id M
  unfold classify
  rw [hd']
  cases hid : c.isTest id with
  | true =>
    refine .pure fun b _ => ⟨insert id M, Looks.of_insert ⟨hf', subset_rfl, ?_, ?_⟩⟩
    · exact Set.subset_union_left
    · exact (surelySeen_of_isTest hid).trans (Set.singleton_subset_iff.2 hmem)
  | false =>
    cases hmode : c.propagation with
    | oneHop =>
      refine (classifyOneHop_looks hask hmode hid hmem hf').mono fun r hr b hb => ?_
      obtain ⟨M', hM'⟩ := hr b hb
      exact ⟨M', hM'.of_insert⟩
    | transitive =>
      refine (classifyTransitive_looks hask hnum hmode hs' hid hmem hf').mono fun r hr b hb => ?_
      obtain ⟨M', hM'⟩ := hr b hb
      exact ⟨M', hM'.of_insert⟩

/-- Classifying methods one after the other looks at what each of them surely needs, and at nothing
that none of them may need. -/
theorem classifyAll_looks (hask : AnswersBy ask callersOf)
    (hnum : ∀ id, ∀ caller ∈ callersOf id, caller < c.numberLimit) (hs : f.Sound c callersOf)
    (hf : f.Seen c M) (ids : List SymbolId) :
    Gives (c.classifyAll ask ids f) fun r => ∀ verdicts, r.1 = .ok verdicts →
      ∃ M', r.2.Seen c M' ∧ M ⊆ M' ∧ (∀ id ∈ ids, c.surelySeen callersOf id ⊆ M') ∧
        ∀ m ∈ M', m ∈ M ∨ ∃ id ∈ ids, m ∈ c.possiblySeen callersOf id := by
  induction ids generalizing f M with
  | nil => exact .pure fun _ _ => ⟨M, hf, subset_rfl, by simp, fun m hm => .inl hm⟩
  | cons id ids ih =>
    unfold classifyAll
    have hboth := (classify_gives hask hnum hs id).and (classify_looks hask hnum hs hf id)
    refine hboth.bind ?_
    rintro ⟨_ | b, f₁⟩ ⟨hr, hlooks⟩
    · exact .pure (by rintro _ ⟨⟩)
    · obtain ⟨M₁, h₁⟩ := hlooks b rfl
      refine (ih hr.sound h₁.seen).bind ?_
      rintro ⟨_ | verdicts, f₂⟩ hrest
      · exact .pure (by rintro _ ⟨⟩)
      · obtain ⟨M₂, h₂, hsub, hsure, hmay⟩ := hrest verdicts rfl
        refine .pure fun _ _ => ⟨M₂, h₂, h₁.subset.trans hsub, ?_, fun m hm => ?_⟩
        · exact List.forall_mem_cons.2 ⟨h₁.covers.trans hsub, hsure⟩
        · rcases hmay m hm with hm | ⟨id', hid', hm⟩
          · exact (h₁.within hm).imp_right fun hm => ⟨id, List.mem_cons_self, hm⟩
          · exact .inr ⟨id', List.mem_cons_of_mem _ hid', hm⟩

/-! ## Diagnostics -/

/-- A diagnostic of a method that belongs to some methods by `seen`. -/
def NotedBy (c : Criteria) (seen : SymbolId → Set SymbolId) (ids : List SymbolId)
    (x : Diagnostic) : Prop :=
  ∃ id ∈ ids, ∃ m ∈ seen id,
    ∃ a ∈ c.program.lookedAt c.markers m, c.program.diagnosticOf? a = some x

variable {ids ids' : List SymbolId} {x : Diagnostic}

theorem surelyNoted_of_oneHop (hmode : c.propagation = .oneHop)
    (h : c.NotedBy (c.possiblySeen callersOf) ids x) :
    c.NotedBy (c.surelySeen callersOf) ids x := by
  have hsame : c.surelySeen callersOf = c.possiblySeen callersOf := by
    funext id
    simp only [surelySeen, possiblySeen, seenWhere, hmode]
  rw [hsame]
  exact h

/-- When all callers are among the methods, every diagnostic that may be noted is. -/
theorem surelyNoted_of_closed (hclosed : ∀ id ∈ ids, ∀ caller ∈ callersOf id, caller ∈ ids)
    (h : c.NotedBy (c.possiblySeen callersOf) ids x) :
    c.NotedBy (c.surelySeen callersOf) ids x := by
  cases hmode : c.propagation with
  | oneHop => exact surelyNoted_of_oneHop hmode h
  | transitive =>
    obtain ⟨id, hid, m, hm, hx⟩ := h
    have hpath : ∀ {m}, ReflTransGen (CalledBy callersOf) id m → m ∈ ids := by
      intro m hpath
      induction hpath with
      | refl => exact hid
      | tail _ hstep ih => exact hclosed _ ih _ hstep
    simp only [possiblySeen, seenWhere, hmode] at hm
    have hlisted : m ∈ ids := by
      rcases hm with rfl | ⟨-, hm⟩
      · exact hid
      · exact hpath hm
    exact ⟨m, hlisted, m, mem_seenWhere m, hx⟩

end Criteria

/-- What an analysis knows after it has classified some methods: it has looked at what each of them
surely needs, and at nothing that none of them may need. -/
structure Findings.Covers (c : Criteria) (callersOf : SymbolId → List SymbolId)
    (ids : List SymbolId) (f : Findings) : Prop where
  sound : f.Sound c callersOf
  looked : ∃ M, f.Seen c M ∧ (∀ id ∈ ids, c.surelySeen callersOf id ⊆ M) ∧
    ∀ m ∈ M, ∃ id ∈ ids, m ∈ c.possiblySeen callersOf id

namespace Findings.Covers

variable {c : Criteria} {callersOf : SymbolId → List SymbolId} {ids ids' : List SymbolId}
  {f : Findings} {x : Diagnostic}

theorem new : Covers c callersOf [] {} :=
  ⟨Findings.sound_new, ∅, ⟨Criteria.seen_new, by simp⟩, by simp, by simp⟩

theorem of_perm (hperm : ids.Perm ids') (h : f.Covers c callersOf ids) :
    f.Covers c callersOf ids' := by
  obtain ⟨M, hseen, hsure, hmay⟩ := h.looked
  refine ⟨h.sound, M, hseen, fun id hid => hsure id (hperm.mem_iff.2 hid), fun m hm => ?_⟩
  obtain ⟨id, hid, hpossible⟩ := hmay m hm
  exact ⟨id, hperm.subset hid, hpossible⟩

theorem noted (h : f.Covers c callersOf ids) (hx : c.NotedBy (c.surelySeen callersOf) ids x) :
    f.detector.Noted x := by
  obtain ⟨M, hseen, hsure, -⟩ := h.looked
  obtain ⟨id, hid, m, hm, a, ha, hx⟩ := hx
  exact (hseen.detector.noted x).2 ⟨a, ⟨m, hsure id hid hm, ha⟩, hx⟩

theorem of_noted (h : f.Covers c callersOf ids) (hx : f.detector.Noted x) :
    c.NotedBy (c.possiblySeen callersOf) ids x := by
  obtain ⟨M, hseen, -, hmay⟩ := h.looked
  obtain ⟨a, ⟨m, hm, ha⟩, hx⟩ := (hseen.detector.noted x).1 hx
  obtain ⟨id, hid, hm⟩ := hmay m hm
  exact ⟨id, hid, m, hm, a, ha, hx⟩

/-- Where every diagnostic that may be noted surely is, the methods alone decide on the lists. -/
theorem lists_eq {f' : Findings} (h : f.Covers c callersOf ids) (h' : f'.Covers c callersOf ids)
    (hagree : c.propagation = .transitive →
      ∀ x, c.NotedBy (c.possiblySeen callersOf) ids x → c.NotedBy (c.surelySeen callersOf) ids x) :
    f.detector.unresolved = f'.detector.unresolved ∧
      f.detector.malformed = f'.detector.malformed := by
  have hboth : ∀ x, c.NotedBy (c.possiblySeen callersOf) ids x →
      c.NotedBy (c.surelySeen callersOf) ids x := by
    cases hmode : c.propagation with
    | oneHop => exact fun x => Criteria.surelyNoted_of_oneHop hmode
    | transitive => exact hagree hmode
  obtain ⟨M, hseen, -⟩ := h.looked
  obtain ⟨M', hseen', -⟩ := h'.looked
  refine hseen.detector.lists_eq hseen'.detector fun x => ⟨fun hx => ?_, fun hx => ?_⟩
  · exact h'.noted (hboth x (h.of_noted hx))
  · exact h.noted (hboth x (h'.of_noted hx))

end Findings.Covers

namespace Criteria

theorem classifies_covers {c : Criteria} {v : SymbolId → Bool}
    (hnum : ∀ id, ∀ caller ∈ c.program.callers id, caller < c.numberLimit)
    (hv : ∀ id, v id = true ↔ c.Tested c.program.callers id) (w : Watch (StateM σ))
    (token : Token) :
    c.Classifies v (fun ids f => f.Covers c c.program.callers ids) w token
      fun _ => c.classifyAll := by
  intro ref ids done f hf
  obtain ⟨M, hseen, hsure, hmay⟩ := hf.looked
  have hverdicts := classifies_sound w token hnum hv ref ids done f hf.sound
  have hlooks := classifyAll_looks (c.program.frontEnd_answersBy w token) hnum hf.sound hseen ids
  refine (hverdicts.and_gives hlooks).mono ?_
  rintro r ⟨⟨hok, hsound⟩, hlooks⟩
  obtain ⟨M', hseen', hsub, hsure', hmay'⟩ := hlooks _ hok
  refine ⟨hok, hsound, M', hseen', ?_, fun m hm => ?_⟩
  · rw [List.forall_mem_append]
    exact ⟨fun id hid => (hsure id hid).trans hsub, hsure'⟩
  · rcases hmay' m hm with hm | ⟨id, hid, hm⟩
    · obtain ⟨id, hid, hm⟩ := hmay m hm
      exact ⟨id, List.mem_append_left _ hid, hm⟩
    · exact ⟨id, List.mem_append_right _ hid, hm⟩

end Criteria

/-- Whatever the order in which some methods of a loaded program are classified, the verdicts are
the same and the diagnostics lie between two bounds. They do not depend on the order in one-hop
mode, nor in transitive mode where every diagnostic that may be noted surely is. -/
theorem Criteria.diagnostics_independent_of_schedule {s : Solution} {p : Program}
    (hload : Program.load s = .ok p) {c : Criteria} (hc : c.program = p)
    {ids ids' : List SymbolId} (hperm : ids.Perm ids') (w : Watch (StateM σ)) (token : Token)
    (st : σ) (hw : w.HoldsFrom token st) (w' : Watch (StateM τ)) (token' : Token) (st' : τ)
    (hw' : w'.HoldsFrom token' st') :
    ∃ (verdict : SymbolId → Bool) (f f' : Findings),
      (∀ id, verdict id = true ↔ c.Tested p.callers id) ∧
      ((c.classifyAll ((p.frontEnd w).callers token) ids {}).run st).1 =
        (.ok (ids.map verdict), f) ∧
      ((c.classifyAll ((p.frontEnd w').callers token') ids' {}).run st').1 =
        (.ok (ids'.map verdict), f') ∧
      (∀ x, c.NotedBy (c.surelySeen p.callers) ids x →
        f.detector.Noted x ∧ f'.detector.Noted x) ∧
      (∀ x, f.detector.Noted x ∨ f'.detector.Noted x →
        c.NotedBy (c.possiblySeen p.callers) ids x) ∧
      ((c.propagation = .transitive → ∀ x, c.NotedBy (c.possiblySeen p.callers) ids x →
          c.NotedBy (c.surelySeen p.callers) ids x) →
        f.detector.unresolved = f'.detector.unresolved ∧
          f.detector.malformed = f'.detector.malformed) := by
  classical
  subst hc
  obtain ⟨hwf, news, outside, order, hloaded⟩ := (Program.load_meets s).of_ok hload
  have hnum := (hloaded.represents hwf).callers_lt c.markers c.propagation
  have hv : ∀ id, decide (c.Tested c.program.callers id) = true ↔
      c.Tested c.program.callers id := fun id => decide_eq_true_iff
  have hcovers := classifies_covers hnum hv w token ⟨0, ""⟩ ids [] {} .new st hw
  have hcovers' := classifies_covers hnum hv w' token' ⟨0, ""⟩ ids' [] {} .new st' hw'
  obtain ⟨⟨hok, hf⟩, -⟩ := hcovers
  obtain ⟨⟨hok', hf'⟩, -⟩ := hcovers'
  rw [List.nil_append] at hf hf'
  have hf' := hf'.of_perm hperm.symm
  refine ⟨_, _, _, hv, Prod.ext hok rfl, Prod.ext hok' rfl, ?_, ?_, hf.lists_eq hf'⟩
  · exact fun x hx => ⟨hf.noted hx, hf'.noted hx⟩
  · rintro x (hx | hx)
    · exact hf.of_noted hx
    · exact hf'.of_noted hx

/-- All callers are methods of the one project. -/
def selfContained : Solution where
  projects :=
    [{ name := "Core"
       types := [{ name := "Service"
                   methods := [{ name := "run" },
                               { name := "step", calls := ["Service::run"] },
                               { name := "retry"
                                 attributes := ["Missing"]
                                 calls := ["Service::run"] },
                               { name := "covers"
                                 attributes := ["Test"]
                                 calls := ["Service::step"] }] }] }]
  externalTypes := [{ name := "Test" }]

theorem Criteria.diagnostics_independent_of_schedule_selfContained :
    ∃ p, Program.load selfContained = .ok p ∧ [2, 3, 4, 5].Perm [3, 2, 5, 4] ∧
      Session.watch.HoldsFrom (Session.newToken {}).1 (Session.newToken {}).2 ∧
      ∃ (verdict : SymbolId → Bool) (f f' : Findings),
        ((classifyAll ⟨p, .ofNames ["Test"], .transitive⟩ ((p.frontEnd Session.watch).callers
          (Session.newToken {}).1) [2, 3, 4, 5] {}).run (Session.newToken {}).2).1 =
            (.ok ([2, 3, 4, 5].map verdict), f) ∧
        ((classifyAll ⟨p, .ofNames ["Test"], .transitive⟩ ((p.frontEnd Session.watch).callers
          (Session.newToken {}).1) [3, 2, 5, 4] {}).run (Session.newToken {}).2).1 =
            (.ok ([3, 2, 5, 4].map verdict), f') ∧
        f.detector.unresolved = f'.detector.unresolved ∧
          f.detector.malformed = f'.detector.malformed := by
  have hholds : Session.watch.HoldsFrom (Session.newToken {}).1 (Session.newToken {}).2 :=
    Session.holdsFrom _ rfl rfl
  have hperm : [2, 3, 4, 5].Perm [3, 2, 5, 4] := by decide
  have hclosed : (Program.load selfContained).toOption.map
      (fun p => [2, 3, 4, 5].all fun id => (p.callers id).all [2, 3, 4, 5].contains) =
        some true := by decide +kernel
  obtain ⟨p, hload, hcallers⟩ := exists_ok_of_map hclosed
  simp only [List.all_eq_true, List.contains_iff_mem] at hcallers
  obtain ⟨verdict, f, f', -, hrun, hrun', -, -, hsame⟩ :=
    Criteria.diagnostics_independent_of_schedule hload (c := ⟨p, .ofNames ["Test"], .transitive⟩)
      rfl hperm Session.watch _ _ hholds Session.watch _ _ hholds
  exact ⟨p, hload, hperm, hholds, verdict, f, f', hrun, hrun',
    hsame fun _ x => surelyNoted_of_closed hcallers⟩

/-- A caller from outside with an attribute that names no type, beside one that a test leads to. -/
def outsideCallers : Solution where
  projects :=
    [{ name := "Core"
       types := [{ name := "Service"
                   methods := [{ name := "run" },
                               { name := "step", calls := ["Service::run"] }] }] }]
  externalTypes :=
    [{ name := "Script"
       methods := [{ name := "main", attributes := ["Missing"], calls := ["Service::run"] }] },
     { name := "Suite"
       methods := [{ name := "covers", attributes := ["Test"], calls := ["Service::step"] }] },
     { name := "Test" }]

/-- In transitive mode the order in which the methods of a project are classified can decide whether
an attribute is listed. -/
theorem Criteria.diagnostics_depend_on_schedule :
    ∃ p project, Program.load outsideCallers = .ok p ∧ p.projects = [project] ∧
      Session.watch.HoldsFrom (Session.newToken {}).1 (Session.newToken {}).2 ∧
      ∃ ids, project.methods.Perm ids ∧
        ((classifyAll ⟨p, .ofNames ["Test"], .transitive⟩ ((p.frontEnd Session.watch).callers
          (Session.newToken {}).1) project.methods {}).run
            (Session.newToken {}).2).1.2.detector.unresolved = ["Missing"] ∧
        ((classifyAll ⟨p, .ofNames ["Test"], .transitive⟩ ((p.frontEnd Session.watch).callers
          (Session.newToken {}).1) ids {}).run
            (Session.newToken {}).2).1.2.detector.unresolved = [] := by
  have hholds : Session.watch.HoldsFrom (Session.newToken {}).1 (Session.newToken {}).2 :=
    Session.holdsFrom _ rfl rfl
  have hfound : (Program.load outsideCallers).toOption.map (fun p =>
      (p.projects,
        ((classifyAll ⟨p, .ofNames ["Test"], .transitive⟩ ((p.frontEnd Session.watch).callers
          (Session.newToken {}).1) [2, 3] {}).run
            (Session.newToken {}).2).1.2.detector.unresolved,
        ((classifyAll ⟨p, .ofNames ["Test"], .transitive⟩ ((p.frontEnd Session.watch).callers
          (Session.newToken {}).1) [3, 2] {}).run
            (Session.newToken {}).2).1.2.detector.unresolved)) =
      some ([⟨"Core", none, [2, 3]⟩], ["Missing"], []) := by decide +kernel
  obtain ⟨p, hload, hfound⟩ := exists_ok_of_map hfound
  simp only [Prod.mk.injEq] at hfound
  obtain ⟨hprojects, hfirst, hsecond⟩ := hfound
  exact ⟨p, _, hload, hprojects, hholds, [3, 2], .swap 3 2 [], hfirst, hsecond⟩

end TestReach
