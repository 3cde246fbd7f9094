import TestReach.Ordered
import Mathlib.Data.List.Nodup
import Mathlib.Data.List.Sort

/-!
# First occurrences and ascending lists, in order

`firstNew seen as` has the elements of `as` outside `seen` in the order of their first occurrences.
`ordered as` has the elements of `as` in ascending order, and an ascending list is determined by its
elements.
-/

namespace TestReach

/-! ## First occurrences -/

section FirstOccurrences

variable {α : Type} [BEq α] [LawfulBEq α]

/-- Each element of `all` once, in the order in which they come up first. -/
structure FirstOccurrences (all names : List α) : Prop where
  mem_iff : ∀ a, a ∈ names ↔ a ∈ all
  nodup : names.Nodup
  order : names.Pairwise fun a b => all.idxOf a < all.idxOf b

theorem firstNew_pairwise_idxOf (seen as : List α) :
    (firstNew seen as).Pairwise fun a b => as.idxOf a < as.idxOf b := by
  induction as generalizing seen with
  | nil => exact .nil
  | cons c as ih =>
    -- past its first element a list shows every other element one place later
    have hlater : ∀ {seen : List α}, c ∈ seen → (firstNew seen as).Pairwise
        fun a b => (c :: as).idxOf a < (c :: as).idxOf b := by
      intro seen hc
      refine (ih seen).imp_of_mem fun {a b} ha hb hab => ?_
      have hca : a ≠ c := fun h => (mem_firstNew.1 ha).2 (h ▸ hc)
      have hcb : b ≠ c := fun h => (mem_firstNew.1 hb).2 (h ▸ hc)
      rw [List.idxOf_cons_ne as hca.symm, List.idxOf_cons_ne as hcb.symm]
      exact Nat.succ_lt_succ hab
    rw [firstNew]
    by_cases hc : c ∈ seen
    · rw [if_pos (List.contains_iff_mem.2 hc)]
      exact hlater hc
    · rw [if_neg (fun h => hc (List.contains_iff_mem.1 h)), List.pairwise_cons]
      refine ⟨fun b hb => ?_, hlater List.mem_cons_self⟩
      have hcb : b ≠ c := fun h => (mem_firstNew.1 hb).2 (h ▸ List.mem_cons_self)
      rw [List.idxOf_cons_self, List.idxOf_cons_ne as hcb.symm]
      exact Nat.succ_pos _

theorem firstOccurrences_firstNew (as : List α) : FirstOccurrences as (firstNew [] as) where
  mem_iff a := by simp [mem_firstNew]
  nodup := nodup_firstNew [] as
  order := firstNew_pairwise_idxOf [] as

end FirstOccurrences

/-! ## Ascending lists -/

section Ascending

variable {α : Type} [Ord α] [Std.TransOrd α] [Std.LawfulEqOrd α] {as bs : List α}

/-- Each element comes before those after it, so none comes twice. -/
def Ascending (as : List α) : Prop :=
  as.Pairwise fun a b => compare a b = .lt

theorem Ascending.insertOrdered (h : Ascending as) (a : α) : Ascending (insertOrdered a as) := by
  induction as with
  | nil => exact List.pairwise_singleton _ _
  | cons b as ih =>
    obtain ⟨hb, has⟩ := List.pairwise_cons.1 h
    unfold TestReach.insertOrdered
    cases hcompare : compare a b with
    | lt =>
      refine List.pairwise_cons.2 ⟨fun c hc => ?_, h⟩
      rcases List.mem_cons.1 hc with rfl | hc
      · exact hcompare
      · exact Std.TransCmp.lt_trans hcompare (hb c hc)
    | eq => exact h
    | gt =>
      refine List.pairwise_cons.2 ⟨fun c hc => ?_, ih has⟩
      rcases mem_insertOrdered.1 hc with rfl | hc
      · exact Std.OrientedCmp.gt_iff_lt.1 hcompare
      · exact hb c hc

theorem Ascending.eq_of_mem_iff (h : Ascending as) (h' : Ascending bs)
    (hmem : ∀ a, a ∈ as ↔ a ∈ bs) : as = bs := by
  have hself : ∀ a : α, compare a a ≠ .lt := fun a => by simp [Std.ReflCmp.compare_self]
  have : Std.Irrefl fun a b : α => compare a b = .lt := ⟨hself⟩
  have : Std.Antisymm fun a b : α => compare a b = .lt :=
    ⟨fun a b hab hba => absurd (Std.TransCmp.lt_trans hab hba) (hself a)⟩
  exact List.Pairwise.eq_of_mem_iff h h' hmem

end Ascending

theorem pairwise_zipIdx {α : Type} (as : List α) : as.zipIdx.Pairwise fun a b => a.2 < b.2 := by
  have hrange : (as.zipIdx.map Prod.snd).Pairwise (· < ·) := by
    rw [List.zipIdx_map_snd]
    exact List.pairwise_lt_range'
  exact List.pairwise_map.1 hrange

end TestReach
