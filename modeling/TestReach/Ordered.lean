/-!
# Ascending lists and first occurrences

An ascending list without repeats stands for a finite set that is shown in order. `firstNew` keeps
the first occurrence of each element that has not been seen before. Each operation comes with what
it does to the elements of a list.
-/

namespace TestReach

/-- Put an element into an ascending list, unless it is there. -/
def insertOrdered {α : Type} [Ord α] (a : α) : List α → List α
  | [] => [a]
  | b :: bs =>
    match compare a b with
    | .lt => a :: b :: bs
    | .eq => b :: bs
    | .gt => b :: insertOrdered a bs

/-- The ascending list of the elements of a list. -/
def ordered {α : Type} [Ord α] (as : List α) : List α :=
  as.foldl (fun acc a => insertOrdered a acc) []

/-- The elements of a list that are not in `seen`, each at its first occurrence only. -/
def firstNew {α : Type} [BEq α] (seen : List α) : List α → List α
  | [] => []
  | a :: as => if seen.contains a then firstNew seen as else a :: firstNew (a :: seen) as

/-! ## First occurrences -/

section FirstNew

variable {α : Type} [BEq α] [LawfulBEq α]

theorem mem_firstNew {seen as : List α} {a : α} : a ∈ firstNew seen as ↔ a ∈ as ∧ a ∉ seen := by
  induction as generalizing seen with
  | nil => simp [firstNew]
  | cons b as ih =>
    unfold firstNew
    by_cases hb : b ∈ seen
    · rw [if_pos (List.contains_iff_mem.2 hb), ih, List.mem_cons]
      constructor
      · rintro ⟨ha, hs⟩
        exact ⟨.inr ha, hs⟩
      · rintro ⟨rfl | ha, hs⟩
        · exact absurd hb hs
        · exact ⟨ha, hs⟩
    · rw [if_neg (fun h => hb (List.contains_iff_mem.1 h)), List.mem_cons, ih, List.mem_cons,
        List.mem_cons, not_or]
      by_cases hab : a = b
      · simp [hab, hb]
      · simp [hab]

theorem nodup_firstNew (seen as : List α) : (firstNew seen as).Nodup := by
  induction as generalizing seen with
  | nil => exact List.nodup_nil
  | cons b as ih =>
    unfold firstNew
    split
    · exact ih seen
    · refine List.nodup_cons.2 ⟨fun hb => ?_, ih _⟩
      exact (mem_firstNew.1 hb).2 List.mem_cons_self

/-- A list without repeats and outside `seen` stays as it is. -/
theorem firstNew_eq_self {seen as : List α} (hn : as.Nodup) (hs : ∀ a ∈ as, a ∉ seen) :
    firstNew seen as = as := by
  induction as generalizing seen with
  | nil => rfl
  | cons b as ih =>
    obtain ⟨hb, hn⟩ := List.nodup_cons.1 hn
    unfold firstNew
    rw [if_neg (fun h => hs b List.mem_cons_self (List.contains_iff_mem.1 h)), ih hn]
    intro a ha
    rw [List.mem_cons, not_or]
    exact ⟨fun h => hb (h ▸ ha), hs a (List.mem_cons_of_mem b ha)⟩

theorem firstNew_eq_eraseDups (seen as : List α) :
    firstNew seen as = (as.filter fun a => !seen.contains a).eraseDups := by
  induction as generalizing seen with
  | nil => rfl
  | cons b as ih =>
    unfold firstNew
    by_cases hb : seen.contains b = true
    · rw [if_pos hb, ih, List.filter_cons_of_neg (by simpa using hb)]
    · rw [if_neg hb, ih, List.filter_cons_of_pos (by simpa using hb), List.eraseDups_cons,
        List.filter_filter]
      congr 2
      refine List.filter_congr fun a _ => ?_
      rw [List.contains_cons]
      cases a == b <;> cases seen.contains a <;> rfl

theorem firstNew_congr {seen seen' : List α} (h : ∀ a, a ∈ seen ↔ a ∈ seen') (as : List α) :
    firstNew seen as = firstNew seen' as := by
  have hcontains : ∀ a, seen.contains a = seen'.contains a := by
    intro a
    rw [Bool.eq_iff_iff, List.contains_iff_mem, List.contains_iff_mem, h]
  simp only [firstNew_eq_eraseDups, hcontains]

theorem firstNew_append (seen as bs : List α) :
    firstNew seen (as ++ bs) = firstNew seen as ++ firstNew (seen ++ as) bs := by
  induction as generalizing seen with
  | nil => simp [firstNew]
  | cons a as ih =>
    rw [List.cons_append, firstNew, firstNew]
    by_cases ha : seen.contains a = true
    · rw [if_pos ha, if_pos ha, ih]
      rw [List.contains_iff_mem] at ha
      exact congrArg _ (firstNew_congr (by grind) bs)
    · rw [if_neg ha, if_neg ha, ih, List.cons_append]
      exact congrArg _ (congrArg _ (firstNew_congr (by grind) bs))

/-- What is new after `seen` among what is new after `seen'` is what is new after both. -/
theorem firstNew_firstNew (seen seen' as : List α) :
    firstNew seen (firstNew seen' as) = firstNew (seen ++ seen') as := by
  induction as generalizing seen seen' with
  | nil => rfl
  | cons a as ih =>
    have hboth : (seen ++ seen').contains a = (seen.contains a || seen'.contains a) := by
      rw [Bool.eq_iff_iff, Bool.or_eq_true]
      simp only [List.contains_iff_mem, List.mem_append]
    rw [firstNew, firstNew, hboth]
    cases ha' : seen'.contains a with
    | true => rw [if_pos rfl, Bool.or_true, if_pos rfl, ih]
    | false =>
      rw [if_neg (by simp), Bool.or_false, firstNew]
      cases ha : seen.contains a with
      | true =>
        rw [if_pos rfl, if_pos rfl, ih]
        rw [List.contains_iff_mem] at ha
        exact firstNew_congr (by grind) as
      | false =>
        rw [if_neg (by simp), if_neg (by simp), ih]
        exact congrArg _ (firstNew_congr (by grind) as)

end FirstNew

/-! ## Ascending lists -/

section Ordered

variable {α : Type} [Ord α] [Std.LawfulEqOrd α]

theorem mem_insertOrdered {a b : α} {as : List α} : b ∈ insertOrdered a as ↔ b = a ∨ b ∈ as := by
  induction as with
  | nil => simp [insertOrdered]
  | cons c as ih =>
    unfold insertOrdered
    cases hcompare : compare a c with
    | lt => exact List.mem_cons
    | eq =>
      rw [Std.LawfulEqOrd.eq_of_compare hcompare]
      simp
    | gt =>
      rw [List.mem_cons, ih, List.mem_cons]
      exact or_left_comm

theorem mem_ordered {a : α} {as : List α} : a ∈ ordered as ↔ a ∈ as := by
  have hfold : ∀ acc, a ∈ as.foldl (fun acc b => insertOrdered b acc) acc ↔ a ∈ as ∨ a ∈ acc := by
    induction as with
    | nil => simp
    | cons b as ih =>
      intro acc
      rw [List.foldl_cons, ih, mem_insertOrdered, List.mem_cons]
      exact or_left_comm.trans or_assoc.symm
  simpa [ordered] using hfold []

end Ordered

end TestReach
