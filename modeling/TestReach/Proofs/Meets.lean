import Mathlib.Data.List.Forall2

/-!
# Stages that may fail

A stage of loading is described in one statement, `Meets r cond post`: it succeeds exactly under the
condition `cond`, and then its result satisfies `post`. Stages in a row and one stage for each
element of a list are described by what describes the single stages (`Meets.bind`, `Meets.mapM`).
-/

namespace TestReach

/-- A stage succeeds exactly under a condition, and its result is as described. -/
def Meets {ε α : Type} (r : Except ε α) (cond : Prop) (post : α → Prop) : Prop :=
  match r with
  | .ok a => cond ∧ post a
  | .error _ => ¬cond

namespace Meets

variable {ε α β : Type} {r : Except ε α} {cond cond' : Prop} {post post' : α → Prop}

theorem cases (h : Meets r cond post) :
    (∃ e, r = .error e ∧ ¬cond) ∨ ∃ a, r = .ok a ∧ cond ∧ post a := by
  cases r with
  | error e => exact .inl ⟨e, rfl, h⟩
  | ok a => exact .inr ⟨a, rfl, h⟩

theorem imp (h : Meets r cond post) (hc : cond ↔ cond') (hp : ∀ a, post a → post' a) :
    Meets r cond' post' := by
  rcases h.cases with ⟨e, rfl, hno⟩ | ⟨a, rfl, hyes, ha⟩
  · exact fun hc' => hno (hc.2 hc')
  · exact ⟨hc.1 hyes, hp a ha⟩

/-- Two stages in a row; the condition on both is the condition on the first, and after it that on
the second. -/
theorem bind {f : α → Except ε β} {both : Prop} {post' : β → Prop} (h : Meets r cond post)
    (hfirst : both → cond)
    (hf : ∀ a, r = .ok a → cond → post a → Meets (f a) both post') :
    Meets (r >>= f) both post' := by
  rcases h.cases with ⟨e, rfl, hno⟩ | ⟨a, rfl, hyes, ha⟩
  · exact fun hboth => hno (hfirst hboth)
  · exact hf a rfl hyes ha

theorem of_ok {a : α} (h : Meets r cond post) (hr : r = .ok a) : cond ∧ post a := by
  subst hr
  exact h

theorem exists_ok_iff (h : Meets r cond post) : (∃ a, r = .ok a) ↔ cond := by
  rcases h.cases with ⟨e, rfl, hno⟩ | ⟨a, rfl, hyes, -⟩
  · exact iff_of_false (by simp) hno
  · exact iff_of_true ⟨a, rfl⟩ hyes

/-- The same stage for each element of a list. -/
theorem mapM {f : α → Except ε β} {cond : α → Prop} {post : α → β → Prop} (as : List α)
    (h : ∀ a ∈ as, Meets (f a) (cond a) (post a)) :
    Meets (as.mapM f) (∀ a ∈ as, cond a) (List.Forall₂ post as) := by
  induction as with
  | nil => exact ⟨by simp, .nil⟩
  | cons a as ih =>
    rw [List.mapM_cons]
    refine bind (h a List.mem_cons_self) (fun hall => hall a List.mem_cons_self)
      fun b _ hyes hb => ?_
    refine bind (ih fun a' ha' => h a' (List.mem_cons_of_mem _ ha'))
      (fun hall a' ha' => hall a' (List.mem_cons_of_mem _ ha')) fun bs _ hrest hbs => ?_
    exact ⟨List.forall_mem_cons.2 ⟨hyes, hrest⟩, .cons hb hbs⟩

end Meets

/-- What is seen of a result is seen of a stage that succeeded. -/
theorem exists_ok_of_map {ε α β : Type} {r : Except ε α} {f : α → β} {b : β}
    (h : r.toOption.map f = some b) : ∃ a, r = .ok a ∧ f a = b := by
  cases r with
  | error e => cases h
  | ok a => exact ⟨a, rfl, Option.some.inj h⟩

/-- A stage for each element of a list fails with the first failure. -/
theorem exists_first_failure {ε α β : Type} {f : α → Except ε β} {as : List α} {e : ε}
    (h : as.mapM f = .error e) : ∃ before a after, as = before ++ a :: after ∧
      (∀ b ∈ before, ∃ c, f b = .ok c) ∧ f a = .error e := by
  induction as with
  | nil => cases h
  | cons a as ih =>
    rw [List.mapM_cons] at h
    cases hf : f a with
    | error e' =>
      rw [hf] at h
      obtain rfl : e' = e := Except.error.inj h
      exact ⟨[], a, as, rfl, by simp, hf⟩
    | ok b =>
      have hrest : as.mapM f = .error e := by
        rw [hf] at h
        cases hm : as.mapM f with
        | error e' =>
          rw [hm] at h
          exact h
        | ok bs =>
          rw [hm] at h
          cases h
      obtain ⟨before, a', after, rfl, hbefore, ha'⟩ := ih hrest
      exact ⟨a :: before, a', after, rfl, List.forall_mem_cons.2 ⟨⟨b, hf⟩, hbefore⟩, ha'⟩

/-! ## Lists related element by element -/

theorem exists_right_of_mem {α β : Type} {R : α → β → Prop} {as : List α} {bs : List β} {a : α}
    (h : List.Forall₂ R as bs) (ha : a ∈ as) : ∃ b ∈ bs, R a b := by
  induction h with
  | nil => exact absurd ha List.not_mem_nil
  | cons hab _ ih =>
    rcases List.mem_cons.1 ha with rfl | ha
    · exact ⟨_, List.mem_cons_self, hab⟩
    · obtain ⟨b, hb, hR⟩ := ih ha
      exact ⟨b, List.mem_cons_of_mem _ hb, hR⟩

theorem exists_left_of_mem {α β : Type} {R : α → β → Prop} {as : List α} {bs : List β} {b : β}
    (h : List.Forall₂ R as bs) (hb : b ∈ bs) : ∃ a ∈ as, R a b :=
  exists_right_of_mem (R := flip R) h.flip hb

/-- The elements that are related are elements of the two lists. -/
theorem forall₂_mem {α β : Type} {R : α → β → Prop} {as : List α} {bs : List β}
    (h : List.Forall₂ R as bs) : List.Forall₂ (fun a b => a ∈ as ∧ b ∈ bs ∧ R a b) as bs := by
  rw [List.forall₂_iff_zip] at h ⊢
  refine ⟨h.1, fun {a b} hab => ?_⟩
  obtain ⟨ha, hb⟩ := List.of_mem_zip hab
  exact ⟨ha, hb, h.2 hab⟩

end TestReach
