import TestReach.Token
import Mathlib.Logic.Relation
import Mathlib.Order.Bounds.Basic

/-!
# Families of tokens

Tokens are created, copied, limited by a timeout and cancelled in any order, at any times of the
clock (`TokenHistory`). Each token keeps one deadline and the number of its family. What these are
worth is said of the history alone: a token comes from others (`TokenHistory.From`), it is revoked
when a token of the same root was cancelled (`TokenHistory.Revoked`), and its limits are those of all
timeouts between its root and itself (`TokenHistory.limits`).

One act adds a token that is made from one before it, or a cancelled family (`TokenStore.Tallies`).
From this local account of the tokens follow, along the way from a token to its root, that families
are the tokens of one root (`TokenStore.Tallies.family_eq_iff`) and that a deadline is the least
limit (`TokenStore.Tallies.isLeast_limits`). So a check says what the history says
(`TokenStore.check_closed_form`).
-/

namespace TestReach

/-! ## Histories -/

/-- What is done with tokens, which are numbered in the order in which they come to be. -/
inductive TokenAct where
  | create
  | copy (source : Nat)
  | limit (source : Nat) (timeout : Duration)
  | cancel (target : Nat)
  deriving DecidableEq, Repr

/-- Acts with the times at which they are done. -/
abbrev TokenHistory := List (Instant × TokenAct)

/-- A session with the tokens that were made in it. -/
structure TokenStore where
  session : Session := {}
  tokens : List Token := []
  deriving DecidableEq, Repr

namespace TokenStore

/-- Do one act. An act on a token that there is not does nothing. -/
def perform (d : TokenStore) (e : Instant × TokenAct) : Except ClockOverflow TokenStore :=
  let s := { d.session with clock := e.1 }
  match e.2 with
  | .create => .ok ⟨s.newToken.2, d.tokens ++ [s.newToken.1]⟩
  | .copy i =>
    match d.tokens[i]? with
    | none => .ok d
    | some t => .ok ⟨s, d.tokens ++ [t]⟩
  | .limit i timeout =>
    match d.tokens[i]? with
    | none => .ok d
    | some t => (s.limited t timeout).map fun limited => ⟨s, d.tokens ++ [limited]⟩
  | .cancel i =>
    match d.tokens[i]? with
    | none => .ok d
    | some t => .ok ⟨s.cancel t, d.tokens⟩

/-- Do all acts of a history. -/
def performAll (d : TokenStore) (h : TokenHistory) : Except ClockOverflow TokenStore :=
  h.foldlM perform d

/-- Check a token at a time. -/
def checkAt (d : TokenStore) (now : Instant) (t : Token) : Except QueryError Unit :=
  Session.check { d.session with clock := now } t

end TokenStore

/-! ## What a history says -/

/-- How a token came to be. A limit is the time of the act and its timeout together. -/
inductive Origin where
  | root
  | copy (source : Nat)
  | limited (source : Nat) (limit : Instant)
  deriving DecidableEq, Repr

def Origin.source? : Origin → Option Nat
  | .root => none
  | .copy i => some i
  | .limited i _ => some i

def Origin.limit? : Origin → Option Instant
  | .root => none
  | .copy _ => none
  | .limited _ m => some m

/-- The origin of the token that an act makes. -/
def TokenAct.origin? (time : Instant) : TokenAct → Option Origin
  | .create => some .root
  | .copy i => some (.copy i)
  | .limit i timeout => some (.limited i (time + timeout))
  | .cancel _ => none

/-- An act is possible when it is done to a token that there is, and no deadline is beyond the
clock. -/
def TokenAct.Possible (count : Nat) (time : Instant) : TokenAct → Prop
  | .create => True
  | .copy i => i < count
  | .limit i timeout => i < count ∧ Instant.Shown (time + timeout)
  | .cancel i => i < count

namespace TokenHistory

/-- The origins of all tokens, in the order of their numbers. -/
def origins (h : TokenHistory) : List Origin :=
  h.filterMap fun e => e.2.origin? e.1

/-- Every act is possible when its turn comes, where so many tokens are there at the start. -/
def PossibleFrom (count : Nat) : TokenHistory → Prop
  | [] => True
  | e :: rest => e.2.Possible count e.1 ∧ PossibleFrom (count + (origins [e]).length) rest

/-- Every act is possible when its turn comes. The times may be any. -/
def Possible (h : TokenHistory) : Prop :=
  PossibleFrom 0 h

/-- The second token is made from the first by one act. -/
def Next (h : TokenHistory) (u v : Nat) : Prop :=
  ∃ o, h.origins[v]? = some o ∧ o.source? = some u

/-- The second token is made from the first by any number of acts. -/
def From (h : TokenHistory) : Nat → Nat → Prop :=
  Relation.ReflTransGen h.Next

/-- Two tokens come from the same root. -/
def Kin (h : TokenHistory) (u v : Nat) : Prop :=
  ∃ r, h.origins[r]? = some .root ∧ h.From r u ∧ h.From r v

/-- A token of the same root was cancelled. -/
def Revoked (h : TokenHistory) (v : Nat) : Prop :=
  ∃ time u, (time, TokenAct.cancel u) ∈ h ∧ h.Kin u v

/-- The limits of all timeouts on the way from the root to a token. -/
def limits (h : TokenHistory) (v : Nat) : Set Instant :=
  {m | ∃ u o, h.From u v ∧ h.origins[u]? = some o ∧ o.limit? = some m}

theorem origins_append (h more : TokenHistory) :
    origins (h ++ more) = h.origins ++ origins more :=
  List.filterMap_append

theorem possibleFrom_append {count : Nat} {h more : TokenHistory} :
    PossibleFrom count (h ++ more) ↔
      PossibleFrom count h ∧ PossibleFrom (count + h.origins.length) more := by
  induction h generalizing count with
  | nil => simp [PossibleFrom, origins]
  | cons e h ih =>
    have hlength : (origins (e :: h)).length = (origins [e]).length + (origins h).length := by
      rw [← List.singleton_append, origins_append, List.length_append]
    rw [List.cons_append, PossibleFrom, PossibleFrom, ih, hlength, Nat.add_assoc, and_assoc]

end TokenHistory

/-! ## The tokens of a history -/

/-- The earlier one of an instant and a deadline, if there is one. -/
def earliest (own : Instant) : Option Instant → Instant
  | none => own
  | some other => min own other

theorem Token.limited_eq {now : Instant} {timeout : Duration}
    (h : Instant.Shown (now + timeout)) (t : Token) :
    t.limited now timeout =
      .ok ⟨t.family, now, some (earliest (now + timeout) t.deadline)⟩ := by
  rw [Token.limited, Instant.after, if_pos h]
  cases hd : t.deadline with
  | none => rfl
  | some other =>
    have hmin : (if other < now + timeout then other else now + timeout) =
        min (now + timeout) other := by
      by_cases hlt : other < now + timeout
      · rw [if_pos hlt, Nat.min_eq_right (Nat.le_of_lt hlt)]
      · rw [if_neg hlt, Nat.min_eq_left (Nat.le_of_not_lt hlt)]
    simp only [earliest, hmin]

/-- A token is made as its origin says from the tokens before it. -/
inductive Origin.Makes (tokens : List Token) (i : Nat) : Origin → Token → Prop where
  | root {t : Token} (hdeadline : t.deadline = none)
      (hfresh : ∀ j < i, ∀ t', tokens[j]? = some t' → t'.family < t.family) :
      Makes tokens i .root t
  | copy {j : Nat} {t : Token} (hj : j < i) (ht : tokens[j]? = some t) :
      Makes tokens i (.copy j) t
  | limited {j : Nat} {m : Instant} {t t' : Token} (hj : j < i) (ht : tokens[j]? = some t')
      (hfamily : t.family = t'.family) (hdeadline : t.deadline = some (earliest m t'.deadline)) :
      Makes tokens i (.limited j m) t

theorem Origin.Makes.append {tokens : List Token} {i : Nat} {o : Origin} {t : Token}
    (h : o.Makes tokens i t) (hi : i ≤ tokens.length) (more : List Token) :
    o.Makes (tokens ++ more) i t := by
  have hsame : ∀ j < i, (tokens ++ more)[j]? = tokens[j]? :=
    fun j hj => List.getElem?_append_left (Nat.lt_of_lt_of_le hj hi)
  cases h with
  | root hdeadline hfresh =>
    exact .root hdeadline fun j hj t' ht' => hfresh j hj t' (hsame j hj ▸ ht')
  | copy hj ht => exact .copy hj ((hsame _ hj).trans ht)
  | limited hj ht hfamily hdeadline => exact .limited hj ((hsame _ hj).trans ht) hfamily hdeadline

namespace TokenStore

/-- The account of a history: each token is made as its origin says, and the families of the tokens
that were cancelled are cancelled. -/
structure Tallies (d : TokenStore) (h : TokenHistory) : Prop where
  length : d.tokens.length = h.origins.length
  makes : ∀ (i : Nat) (o : Origin) (t : Token),
    h.origins[i]? = some o → d.tokens[i]? = some t → o.Makes d.tokens i t
  families : ∀ t ∈ d.tokens, t.family < d.session.families
  targets : ∀ time i, (time, TokenAct.cancel i) ∈ h → i < d.tokens.length
  cancelled : ∀ f, f ∈ d.session.cancelled ↔
    ∃ time i t, (time, TokenAct.cancel i) ∈ h ∧ d.tokens[i]? = some t ∧ t.family = f

theorem tallies_nil : Tallies {} [] where
  length := rfl
  makes := by simp [TokenHistory.origins]
  families := by simp
  targets := by simp
  cancelled := by simp

variable {d : TokenStore} {h : TokenHistory}

/-- The account after a token is added. -/
theorem Tallies.add (hd : d.Tallies h) {e : Instant × TokenAct} {o : Origin} {t : Token}
    {s : Session} (ho : e.2.origin? e.1 = some o) (ht : o.Makes d.tokens d.tokens.length t)
    (hcancelled : s.cancelled = d.session.cancelled) (hfamilies : d.session.families ≤ s.families)
    (hfamily : t.family < s.families) : Tallies ⟨s, d.tokens ++ [t]⟩ (h ++ [e]) := by
  have horigins : TokenHistory.origins (h ++ [e]) = h.origins ++ [o] := by
    rw [TokenHistory.origins_append]
    simp [TokenHistory.origins, ho]
  have hcancel : ∀ time i, (time, TokenAct.cancel i) ∈ h ++ [e] ↔ (time, TokenAct.cancel i) ∈ h := by
    intro time i
    rw [List.mem_append, List.mem_singleton, or_iff_left]
    rintro rfl
    cases ho
  constructor
  case length => simp [horigins, hd.length]
  case makes =>
    intro i o' t' ho' ht'
    rw [horigins] at ho'
    by_cases hi : i < d.tokens.length
    · rw [List.getElem?_append_left (hd.length ▸ hi)] at ho'
      rw [List.getElem?_append_left hi] at ht'
      exact (hd.makes i o' t' ho' ht').append (Nat.le_of_lt hi) _
    · have hlt : i < (d.tokens ++ [t]).length := (List.getElem?_eq_some_iff.1 ht').1
      rw [List.length_append, List.length_singleton] at hlt
      obtain rfl : i = d.tokens.length := by omega
      rw [List.getElem?_concat_length, Option.some.injEq] at ht'
      rw [hd.length, List.getElem?_concat_length, Option.some.injEq] at ho'
      rw [← ho', ← ht']
      exact ht.append (Nat.le_refl _) _
  case families =>
    intro t' ht'
    rcases List.mem_append.1 ht' with ht' | ht'
    · exact Nat.lt_of_lt_of_le (hd.families t' ht') hfamilies
    · exact List.mem_singleton.1 ht' ▸ hfamily
  case targets =>
    intro time i hi
    rw [List.length_append]
    exact Nat.lt_of_lt_of_le (hd.targets time i ((hcancel time i).1 hi)) (Nat.le_add_right _ _)
  case cancelled =>
    intro f
    rw [hcancelled, hd.cancelled]
    simp only [hcancel]
    refine exists_congr fun time => exists_congr fun i => exists_congr fun t' =>
      and_congr_right fun hi => ?_
    rw [List.getElem?_append_left (hd.targets time i hi)]

/-- The account after a token is cancelled. -/
theorem Tallies.cancel (hd : d.Tallies h) (time : Instant) {i : Nat} {t : Token} {s : Session}
    (ht : d.tokens[i]? = some t) (hcancelled : s.cancelled = d.session.cancelled)
    (hfamilies : s.families = d.session.families) :
    Tallies ⟨s.cancel t, d.tokens⟩ (h ++ [(time, .cancel i)]) := by
  have horigins : TokenHistory.origins (h ++ [(time, .cancel i)]) = h.origins := by
    rw [TokenHistory.origins_append]
    simp [TokenHistory.origins, TokenAct.origin?]
  have hcancel : ∀ time' j, (time', TokenAct.cancel j) ∈ h ++ [(time, .cancel i)] ↔
      (time', TokenAct.cancel j) ∈ h ∨ time' = time ∧ j = i := by
    intro time' j
    rw [List.mem_append, List.mem_singleton, Prod.mk.injEq, TokenAct.cancel.injEq]
  constructor
  case length => rw [horigins, hd.length]
  case makes =>
    rw [horigins]
    exact hd.makes
  case families =>
    intro t' ht'
    exact Nat.lt_of_lt_of_eq (hd.families t' ht') hfamilies.symm
  case targets =>
    intro time' j hj
    rcases (hcancel time' j).1 hj with hj | ⟨-, rfl⟩
    · exact hd.targets time' j hj
    · exact (List.getElem?_eq_some_iff.1 ht).1
  case cancelled =>
    intro f
    rw [Session.cancel, hcancelled, List.mem_cons, hd.cancelled]
    constructor
    · rintro (rfl | ⟨time', j, t', hj, ht', hf⟩)
      · exact ⟨time, i, t, (hcancel time i).2 (.inr ⟨rfl, rfl⟩), ht, rfl⟩
      · exact ⟨time', j, t', (hcancel time' j).2 (.inl hj), ht', hf⟩
    · rintro ⟨time', j, t', hj, ht', hf⟩
      rcases (hcancel time' j).1 hj with hj | ⟨-, rfl⟩
      · exact .inr ⟨time', j, t', hj, ht', hf⟩
      · rw [ht, Option.some.injEq] at ht'
        exact .inl (ht' ▸ hf.symm)

/-- What is there stays there: tokens keep their numbers, and families stay cancelled. -/
structure Extends (d d' : TokenStore) : Prop where
  tokens : d.tokens <+: d'.tokens
  cancelled : d.session.cancelled ⊆ d'.session.cancelled

theorem Extends.refl (d : TokenStore) : d.Extends d :=
  ⟨List.prefix_rfl, List.Subset.refl _⟩

theorem Extends.trans {d d' d'' : TokenStore} (h : d.Extends d') (h' : d'.Extends d'') :
    d.Extends d'' :=
  ⟨h.tokens.trans h'.tokens, List.Subset.trans h.cancelled h'.cancelled⟩

theorem Extends.getElem? {d d' : TokenStore} (h : d.Extends d') {i : Nat} {t : Token}
    (ht : d.tokens[i]? = some t) : d'.tokens[i]? = some t := by
  obtain ⟨more, hmore⟩ := h.tokens
  rw [← hmore, List.getElem?_append_left (List.getElem?_eq_some_iff.1 ht).1, ht]

theorem Tallies.exists_token (hd : d.Tallies h) {i : Nat} (hi : i < h.origins.length) :
    ∃ t, d.tokens[i]? = some t :=
  ⟨_, List.getElem?_eq_getElem (hd.length ▸ hi)⟩

theorem Tallies.exists_origin (hd : d.Tallies h) {i : Nat} {t : Token}
    (ht : d.tokens[i]? = some t) : ∃ o, h.origins[i]? = some o :=
  ⟨_, List.getElem?_eq_getElem (hd.length ▸ (List.getElem?_eq_some_iff.1 ht).1)⟩

/-- One act that is possible is done, and the account is kept. -/
theorem Tallies.perform (hd : d.Tallies h) {e : Instant × TokenAct}
    (he : e.2.Possible h.origins.length e.1) :
    ∃ d', d.perform e = .ok d' ∧ d'.Tallies (h ++ [e]) ∧ d.Extends d' := by
  obtain ⟨time, act⟩ := e
  have hadded : ∀ (s : Session) (t : Token), s.cancelled = d.session.cancelled →
      d.Extends ⟨s, d.tokens ++ [t]⟩ :=
    fun s t hs => ⟨List.prefix_append _ _, hs ▸ List.Subset.refl _⟩
  cases act with
  | create =>
    refine ⟨_, rfl, hd.add rfl (.root rfl ?_) rfl (Nat.le_succ _) (Nat.lt_succ_self _),
      hadded _ _ rfl⟩
    intro j _ t' ht'
    exact hd.families t' (List.mem_of_getElem? ht')
  | copy i =>
    obtain ⟨t, ht⟩ := hd.exists_token he
    have hi : i < d.tokens.length := hd.length ▸ he
    refine ⟨⟨{ d.session with clock := time }, d.tokens ++ [t]⟩, by simp [TokenStore.perform, ht],
      hd.add rfl (.copy hi ht) rfl (Nat.le_refl _) ?_, hadded _ _ rfl⟩
    exact hd.families t (List.mem_of_getElem? ht)
  | limit i timeout =>
    obtain ⟨hi, hshown⟩ := he
    obtain ⟨t, ht⟩ := hd.exists_token hi
    have hi : i < d.tokens.length := hd.length ▸ hi
    have hlimited := Token.limited_eq hshown t
    have hmakes : Origin.Makes d.tokens d.tokens.length (.limited i (time + timeout))
        ⟨t.family, time, some (earliest (time + timeout) t.deadline)⟩ := .limited hi ht rfl rfl
    refine ⟨⟨{ d.session with clock := time }, d.tokens ++ [_]⟩, ?_,
      hd.add rfl hmakes rfl (Nat.le_refl _) ?_, hadded _ _ rfl⟩
    · simp [TokenStore.perform, ht, Session.limited, hlimited, Except.map]
    · exact hd.families t (List.mem_of_getElem? ht)
  | cancel i =>
    obtain ⟨t, ht⟩ := hd.exists_token he
    refine ⟨⟨Session.cancel { d.session with clock := time } t, d.tokens⟩,
      by simp [TokenStore.perform, ht], hd.cancel time ht rfl rfl, List.prefix_rfl, ?_⟩
    exact List.subset_cons_self _ _

/-- A whole history that is possible is done, and the account is kept. -/
theorem Tallies.performAll (hd : d.Tallies h) {more : TokenHistory}
    (hmore : TokenHistory.PossibleFrom h.origins.length more) :
    ∃ d', d.performAll more = .ok d' ∧ d'.Tallies (h ++ more) ∧ d.Extends d' := by
  induction more generalizing d h with
  | nil => exact ⟨d, rfl, by rwa [List.append_nil], .refl d⟩
  | cons e more ih =>
    obtain ⟨he, hmore⟩ := hmore
    obtain ⟨d₁, hperform, hd₁, hext₁⟩ := hd.perform he
    rw [← List.length_append, ← TokenHistory.origins_append] at hmore
    obtain ⟨d₂, hrest, hd₂, hext₂⟩ := ih hd₁ hmore
    refine ⟨d₂, ?_, by simpa using hd₂, hext₁.trans hext₂⟩
    rw [TokenStore.performAll, List.foldlM_cons, hperform]
    exact hrest

end TokenStore

/-! ## The way to the root -/

namespace TokenHistory

variable {h : TokenHistory}

theorem from_iff {u v : Nat} {o : Origin} (ho : h.origins[v]? = some o) :
    h.From u v ↔ u = v ∨ ∃ w, o.source? = some w ∧ h.From u w := by
  constructor
  · intro hfrom
    rcases hfrom.cases_tail with rfl | ⟨w, hw, o', ho', hsource⟩
    · exact .inl rfl
    · rw [ho, Option.some.injEq] at ho'
      exact .inr ⟨w, ho' ▸ hsource, hw⟩
  · rintro (rfl | ⟨w, hsource, hw⟩)
    · exact .refl
    · exact hw.tail ⟨o, ho, hsource⟩

theorem mem_limits_iff {v : Nat} {o : Origin} (ho : h.origins[v]? = some o) {m : Instant} :
    m ∈ h.limits v ↔ o.limit? = some m ∨ ∃ w, o.source? = some w ∧ m ∈ h.limits w := by
  constructor
  · rintro ⟨u, o', hfrom, ho', hm⟩
    rcases (from_iff ho).1 hfrom with rfl | ⟨w, hsource, hw⟩
    · rw [ho, Option.some.injEq] at ho'
      exact .inl (ho' ▸ hm)
    · exact .inr ⟨w, hsource, u, o', hw, ho', hm⟩
  · rintro (hm | ⟨w, hsource, u, o', hw, ho', hm⟩)
    · exact ⟨v, o, .refl, ho, hm⟩
    · exact ⟨u, o', (from_iff ho).2 (.inr ⟨w, hsource, hw⟩), ho', hm⟩

theorem limits_subset_of_from {u v : Nat} (hfrom : h.From u v) : h.limits u ⊆ h.limits v := by
  rintro m ⟨w, o, hw, ho, hm⟩
  exact ⟨w, o, hw.trans hfrom, ho, hm⟩

theorem Revoked.of_from {u v : Nat} (hu : h.Revoked u) (hfrom : h.From u v) : h.Revoked v := by
  obtain ⟨time, w, hw, r, hr, hrw, hru⟩ := hu
  exact ⟨time, w, hw, r, hr, hrw, hru.trans hfrom⟩

end TokenHistory

namespace TokenStore

variable {d : TokenStore} {h : TokenHistory}

/-- A token is of the family of the token it is made from. -/
theorem Tallies.next (hd : d.Tallies h) {u v : Nat} (hnext : h.Next u v) {t : Token}
    (ht : d.tokens[v]? = some t) :
    u < v ∧ ∃ t', d.tokens[u]? = some t' ∧ t'.family = t.family := by
  obtain ⟨o, ho, hsource⟩ := hnext
  cases hd.makes v o t ho ht with
  | root => cases hsource
  | copy hj ht' =>
    cases hsource
    exact ⟨hj, t, ht', rfl⟩
  | limited hj ht' hfamily =>
    cases hsource
    exact ⟨hj, _, ht', hfamily.symm⟩

theorem Tallies.family_of_from (hd : d.Tallies h) {u v : Nat} (hfrom : h.From u v) {t : Token}
    (ht : d.tokens[v]? = some t) : ∃ t', d.tokens[u]? = some t' ∧ t'.family = t.family := by
  induction hfrom generalizing t with
  | refl => exact ⟨t, ht, rfl⟩
  | tail _ hnext ih =>
    obtain ⟨-, t₁, ht₁, hfamily₁⟩ := hd.next hnext ht
    obtain ⟨t₂, ht₂, hfamily₂⟩ := ih ht₁
    exact ⟨t₂, ht₂, hfamily₂.trans hfamily₁⟩

theorem Tallies.exists_root (hd : d.Tallies h) {v : Nat} {t : Token}
    (ht : d.tokens[v]? = some t) : ∃ r, h.origins[r]? = some .root ∧ h.From r v := by
  induction v using Nat.strong_induction_on generalizing t with
  | _ v ih =>
    obtain ⟨o, ho⟩ := hd.exists_origin ht
    cases hsource : o.source? with
    | none =>
      cases o with
      | root => exact ⟨v, ho, .refl⟩
      | copy => cases hsource
      | limited => cases hsource
    | some u =>
      have hnext : h.Next u v := ⟨o, ho, hsource⟩
      obtain ⟨hlt, t', ht', -⟩ := hd.next hnext ht
      obtain ⟨r, hr, hfrom⟩ := ih u hlt ht'
      exact ⟨r, hr, hfrom.tail hnext⟩

/-- Roots start families of their own. -/
theorem Tallies.root_eq (hd : d.Tallies h) {r r' : Nat} (hr : h.origins[r]? = some .root)
    (hr' : h.origins[r']? = some .root) {t t' : Token} (ht : d.tokens[r]? = some t)
    (ht' : d.tokens[r']? = some t') (hfamily : t.family = t'.family) : r = r' := by
  have hnot : ∀ {i j : Nat} {a b : Token}, h.origins[j]? = some .root → d.tokens[i]? = some a →
      d.tokens[j]? = some b → a.family = b.family → ¬i < j := by
    intro i j a b hj ha hb heq hlt
    cases hd.makes j _ b hj hb with
    | root _ hfresh => exact absurd heq (Nat.ne_of_lt (hfresh i hlt a ha))
  exact Nat.le_antisymm (Nat.le_of_not_lt (hnot hr ht' ht hfamily.symm))
    (Nat.le_of_not_lt (hnot hr' ht ht' hfamily))

/-- Tokens of one family are those of one root. -/
theorem Tallies.family_eq_iff (hd : d.Tallies h) {u v : Nat} {t t' : Token}
    (ht : d.tokens[u]? = some t) (ht' : d.tokens[v]? = some t') :
    t.family = t'.family ↔ h.Kin u v := by
  constructor
  · intro hfamily
    obtain ⟨r, hr, hfrom⟩ := hd.exists_root ht
    obtain ⟨r', hr', hfrom'⟩ := hd.exists_root ht'
    obtain ⟨a, ha, hat⟩ := hd.family_of_from hfrom ht
    obtain ⟨b, hb, hbt⟩ := hd.family_of_from hfrom' ht'
    obtain rfl := hd.root_eq hr hr' ha hb (hat.trans (hfamily.trans hbt.symm))
    exact ⟨r, hr, hfrom, hfrom'⟩
  · rintro ⟨r, -, hfrom, hfrom'⟩
    obtain ⟨a, ha, hat⟩ := hd.family_of_from hfrom ht
    obtain ⟨b, hb, hbt⟩ := hd.family_of_from hfrom' ht'
    rw [ha, Option.some.injEq] at hb
    rw [← hat, ← hbt, hb]

theorem Tallies.revoked_iff (hd : d.Tallies h) {v : Nat} {t : Token}
    (ht : d.tokens[v]? = some t) : t.family ∈ d.session.cancelled ↔ h.Revoked v := by
  rw [hd.cancelled]
  constructor
  · rintro ⟨time, u, t', hu, ht', hfamily⟩
    exact ⟨time, u, hu, (hd.family_eq_iff ht' ht).1 hfamily⟩
  · rintro ⟨time, u, hu, hkin⟩
    have ht' := List.getElem?_eq_getElem (hd.targets time u hu)
    exact ⟨time, u, _, hu, ht', (hd.family_eq_iff ht' ht).2 hkin⟩

/-- The deadline of a token is the least limit on the way from its root. -/
theorem Tallies.isLeast_limits (hd : d.Tallies h) {v : Nat} {t : Token}
    (ht : d.tokens[v]? = some t) :
    (t.deadline = none ∧ h.limits v = ∅) ∨
      ∃ m, t.deadline = some m ∧ IsLeast (h.limits v) m := by
  induction v using Nat.strong_induction_on generalizing t with
  | _ v ih =>
    obtain ⟨o, ho⟩ := hd.exists_origin ht
    have hlimits : h.limits v = {m | o.limit? = some m ∨ ∃ w, o.source? = some w ∧ m ∈ h.limits w} :=
      Set.ext fun m => TokenHistory.mem_limits_iff ho
    cases hd.makes v o t ho ht with
    | root hdeadline =>
      refine .inl ⟨hdeadline, ?_⟩
      rw [hlimits]
      simp [Origin.limit?, Origin.source?]
    | @copy j _ hj ht' =>
      have hsame : h.limits v = h.limits j := by
        rw [hlimits]
        simp [Origin.limit?, Origin.source?]
      rw [hsame]
      exact ih j hj ht'
    | @limited j m _ t' hj ht' _ hdeadline =>
      have hinsert : h.limits v = insert m (h.limits j) := by
        rw [hlimits]
        ext m'
        simp [Origin.limit?, Origin.source?, eq_comm]
      rw [hinsert, hdeadline]
      rcases ih j hj ht' with ⟨hnone, hempty⟩ | ⟨m', hsome, hleast⟩
      · refine .inr ⟨m, by rw [hnone, earliest], ?_⟩
        rw [hempty]
        simp
      · refine .inr ⟨min m m', by rw [hsome, earliest], ?_⟩
        exact hleast.insert m

end TokenStore

/-! ## Checks -/

namespace Token

/-- What a check can say, and when. -/
theorem status_cases (t : Token) (now : Instant) (cancelled : Bool) :
    (cancelled = true ∧ t.status now cancelled = .error .cancelled) ∨
      (cancelled = false ∧ (∃ m, t.deadline = some m ∧ m ≤ now) ∧
        t.status now cancelled = .error (.timedOut (now - t.started))) ∨
      (cancelled = false ∧ (¬∃ m, t.deadline = some m ∧ m ≤ now) ∧
        t.status now cancelled = .ok ()) := by
  rw [status]
  cases cancelled with
  | true => simp
  | false =>
    cases t.deadline with
    | none => simp
    | some m => by_cases hm : m ≤ now <;> simp [hm]

theorem status_ne_ok_iff {t : Token} {now : Instant} {cancelled : Bool} :
    t.status now cancelled ≠ .ok () ↔
      cancelled = true ∨ ∃ m, t.deadline = some m ∧ m ≤ now := by
  rcases t.status_cases now cancelled with ⟨hc, hs⟩ | ⟨hc, hm, hs⟩ | ⟨hc, hm, hs⟩
  · exact iff_of_true (by simp [hs]) (.inl hc)
  · exact iff_of_true (by simp [hs]) (.inr hm)
  · rw [hs, hc]
    simpa using hm

end Token

namespace TokenStore

/-- What the checks of token number `i` say at each time, told by the history. -/
structure Answers (d : TokenStore) (h : TokenHistory) (i : Nat) (t : Token) : Prop where
  cancelled : ∀ now, d.checkAt now t = .error .cancelled ↔ h.Revoked i
  timedOut : ∀ now, (∃ elapsed, d.checkAt now t = .error (.timedOut elapsed)) ↔
    ¬h.Revoked i ∧ ∃ m, IsLeast (h.limits i) m ∧ m ≤ now
  ok : ∀ now, d.checkAt now t = .ok () ↔
    ¬h.Revoked i ∧ ¬∃ m, IsLeast (h.limits i) m ∧ m ≤ now

variable {d d' : TokenStore} {h : TokenHistory} {i : Nat} {t : Token}

theorem checkAt_eq (d : TokenStore) (now : Instant) (t : Token) :
    d.checkAt now t = t.status now (d.session.cancelled.contains t.family) :=
  rfl

theorem checkAt_ne_ok_iff {now : Instant} :
    d.checkAt now t ≠ .ok () ↔
      t.family ∈ d.session.cancelled ∨ ∃ m, t.deadline = some m ∧ m ≤ now := by
  rw [checkAt_eq, Token.status_ne_ok_iff, List.contains_iff_mem]

theorem Tallies.deadline_eq_iff (hd : d.Tallies h) (ht : d.tokens[i]? = some t) (m : Instant) :
    t.deadline = some m ↔ IsLeast (h.limits i) m := by
  rcases hd.isLeast_limits ht with ⟨hnone, hempty⟩ | ⟨m', hsome, hleast⟩
  · rw [hnone, hempty]
    exact iff_of_false (by simp) fun hm => hm.1
  · rw [hsome, Option.some.injEq]
    exact ⟨fun heq => heq ▸ hleast, fun hm => hleast.unique hm⟩

theorem Tallies.answers (hd : d.Tallies h) (ht : d.tokens[i]? = some t) : d.Answers h i t := by
  have hcases : ∀ now,
      (h.Revoked i ∧ d.checkAt now t = .error .cancelled) ∨
        (¬h.Revoked i ∧ (∃ m, IsLeast (h.limits i) m ∧ m ≤ now) ∧
          d.checkAt now t = .error (.timedOut (now - t.started))) ∨
        (¬h.Revoked i ∧ (¬∃ m, IsLeast (h.limits i) m ∧ m ≤ now) ∧ d.checkAt now t = .ok ()) := by
    intro now
    have hstatus := t.status_cases now (d.session.cancelled.contains t.family)
    simpa only [← checkAt_eq, ← Bool.not_eq_true, List.contains_iff_mem, hd.revoked_iff ht,
      hd.deadline_eq_iff ht] using hstatus
  constructor
  · intro now
    rcases hcases now with ⟨hr, hs⟩ | ⟨hr, -, hs⟩ | ⟨hr, -, hs⟩ <;> simp [hs, hr]
  · intro now
    rcases hcases now with ⟨hr, hs⟩ | ⟨hr, hm, hs⟩ | ⟨-, hm, hs⟩
    · simp [hs, hr]
    · exact iff_of_true ⟨_, hs⟩ ⟨hr, hm⟩
    · exact iff_of_false (by simp [hs]) fun hlimit => hm hlimit.2
  · intro now
    rcases hcases now with ⟨hr, hs⟩ | ⟨-, hm, hs⟩ | ⟨hr, hm, hs⟩
    · simp [hs, hr]
    · exact iff_of_false (by simp [hs]) fun hlimit => hlimit.2 hm
    · exact iff_of_true hs ⟨hr, hm⟩

/-- A check that failed fails again at each later time. -/
theorem Extends.checkAt_ne_ok (hext : d.Extends d') {now later : Instant} (hle : now ≤ later)
    (hfail : d.checkAt now t ≠ .ok ()) : d'.checkAt later t ≠ .ok () := by
  rw [checkAt_ne_ok_iff] at hfail ⊢
  rcases hfail with hcancelled | ⟨m, hm, hnow⟩
  · exact .inl (hext.cancelled hcancelled)
  · exact .inr ⟨m, hm, Nat.le_trans hnow hle⟩

/-- Where a token fails, each token that comes from it fails. -/
theorem Tallies.checkAt_ne_ok (hd : d.Tallies h) {j : Nat} {t' : Token}
    (ht' : d.tokens[j]? = some t') (ht : d.tokens[i]? = some t) (hfrom : h.From j i)
    {now : Instant} (hfail : d.checkAt now t' ≠ .ok ()) : d.checkAt now t ≠ .ok () := by
  rw [checkAt_ne_ok_iff] at hfail ⊢
  rcases hfail with hcancelled | ⟨m, hm, hnow⟩
  · rw [hd.revoked_iff ht'] at hcancelled
    exact .inl ((hd.revoked_iff ht).2 (hcancelled.of_from hfrom))
  · rw [hd.deadline_eq_iff ht'] at hm
    have hmem := TokenHistory.limits_subset_of_from hfrom hm.1
    rcases hd.isLeast_limits ht with ⟨-, hempty⟩ | ⟨m', hsome, hleast⟩
    · rw [hempty] at hmem
      exact hmem.elim
    · exact .inr ⟨m', hsome, Nat.le_trans (hleast.2 hmem) hnow⟩

/-- After every history that is possible, and whatever the clock shows, a token is found cancelled
exactly when a token of its root was cancelled, and else expired exactly when the least limit on the
way from its root has come. So a token that has failed never holds again, and a token never outlives
one it comes from. -/
theorem check_closed_form {h : TokenHistory} (hpossible : h.Possible) :
    ∃ d, performAll {} h = .ok d ∧ d.tokens.length = h.origins.length ∧
      ∀ i t, d.tokens[i]? = some t →
        d.Answers h i t ∧
          (∀ more, TokenHistory.Possible (h ++ more) →
            ∃ d', performAll {} (h ++ more) = .ok d' ∧ d'.tokens[i]? = some t ∧
              ∀ now later, now ≤ later →
                d.checkAt now t ≠ .ok () → d'.checkAt later t ≠ .ok ()) ∧
          ∀ j t', h.From j i → d.tokens[j]? = some t' →
            ∀ now, d.checkAt now t' ≠ .ok () → d.checkAt now t ≠ .ok () := by
  obtain ⟨d, hrun, hd, -⟩ := tallies_nil.performAll hpossible
  rw [List.nil_append] at hd
  refine ⟨d, hrun, hd.length, fun i t ht => ⟨hd.answers ht, ?_, ?_⟩⟩
  · intro more hmore
    obtain ⟨-, hmore⟩ := TokenHistory.possibleFrom_append.1 hmore
    rw [Nat.zero_add] at hmore
    obtain ⟨d', hrun', -, hext⟩ := hd.performAll hmore
    refine ⟨d', ?_, hext.getElem? ht, fun now later hle => hext.checkAt_ne_ok hle⟩
    rw [performAll] at hrun ⊢
    rw [List.foldlM_append, hrun]
    exact hrun'
  · intro j t' hfrom ht' now
    exact hd.checkAt_ne_ok ht' ht hfrom

/-- Two roots, the tokens `0` and `4`. The first has a chain of limits, of which the second, at `29`,
is the least, and the second is cancelled. -/
def twoFamilies : TokenHistory :=
  [(0, .create), (5, .limit 0 100), (7, .copy 1), (9, .limit 2 20), (9, .create),
    (10, .limit 3 1000), (12, .cancel 4), (15, .copy 4)]

theorem check_closed_form_twoFamilies :
    twoFamilies.Possible ∧ ∃ d, performAll {} twoFamilies = .ok d ∧
      (∃ t, d.tokens[5]? = some t ∧ d.Answers twoFamilies 5 t ∧ d.checkAt 28 t = .ok () ∧
        d.checkAt 29 t = .error (.timedOut 19)) ∧
      ∃ t, d.tokens[6]? = some t ∧ d.Answers twoFamilies 6 t ∧
        d.checkAt 15 t = .error .cancelled := by
  have hpossible : twoFamilies.Possible := by
    simp [twoFamilies, TokenHistory.Possible, TokenHistory.PossibleFrom, TokenAct.Possible,
      TokenHistory.origins, TokenAct.origin?, Instant.Shown]
  obtain ⟨d, hrun, -, htokens⟩ := check_closed_form hpossible
  have hresult : performAll {} twoFamilies =
      .ok ⟨⟨15, 2, [1]⟩, [⟨0, 0, none⟩, ⟨0, 5, some 105⟩, ⟨0, 5, some 105⟩, ⟨0, 9, some 29⟩,
        ⟨1, 9, none⟩, ⟨0, 10, some 29⟩, ⟨1, 9, none⟩]⟩ := by
    decide
  rw [hresult, Except.ok.injEq] at hrun
  rw [hresult]
  subst hrun
  exact ⟨hpossible, _, rfl, ⟨_, rfl, (htokens 5 _ rfl).1, by decide, by decide⟩,
    _, rfl, (htokens 6 _ rfl).1, by decide⟩

end TokenStore

end TestReach
