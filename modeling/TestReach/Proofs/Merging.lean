import TestReach.Outcome
import TestReach.Proofs.Ordered
import Mathlib.Algebra.BigOperators.Group.List.Basic
import Mathlib.Algebra.GroupWithZero.Nat
import Mathlib.Data.List.Induction

/-!
# Merging outcomes

An outcome is merged into another by appending its lists, except that a name which was noticed is
appended only where it is not yet listed. The lists that are merged may repeat names themselves.

Names are merged by `firstNew`, so merging is associative because the new names among new names are
those that are new after both (`Outcome.mergeNames_assoc`). A list of outcomes merged one after the
other is then the outcome of all of them (`Outcome.Gathers`): one step keeps this
(`Outcome.Gathers.merge`), and so does a whole list (`Outcome.gathers_foldl_merge`).
-/

namespace TestReach

namespace Outcome

/-! ## Names -/

theorem mem_mergeNames {names more : List String} {s : String} :
    s ∈ mergeNames names more ↔ s ∈ names ∨ s ∈ more := by
  rw [mergeNames, List.mem_append, mem_firstNew]
  by_cases hs : s ∈ names <;> simp [hs]

theorem mergeNames_assoc (names more others : List String) :
    mergeNames (mergeNames names more) others = mergeNames names (mergeNames more others) := by
  have hseen : ∀ s, s ∈ mergeNames names more ↔ s ∈ names ++ more ++ more := by
    intro s
    rw [mem_mergeNames, List.append_assoc]
    simp
  calc mergeNames (mergeNames names more) others
      = names ++ firstNew names more ++ firstNew (names ++ more ++ more) others :=
        congrArg (mergeNames names more ++ ·) (firstNew_congr hseen others)
    _ = mergeNames names (mergeNames more others) := by
        rw [mergeNames, mergeNames, firstNew_append, firstNew_firstNew, List.append_assoc]

/-- First occurrences are merged into first occurrences. -/
theorem mergeNames_firstNew (names more : List String) :
    mergeNames (firstNew [] names) more = firstNew [] (names ++ more) := by
  have hseen : ∀ s, s ∈ firstNew [] names ↔ s ∈ [] ++ names := by
    intro s
    simp [mem_firstNew]
  rw [mergeNames, firstNew_append, firstNew_congr hseen]

theorem merge_assoc (a b c : Outcome) : (a.merge b).merge c = a.merge (b.merge c) := by
  simp only [merge, List.append_assoc, mergeNames_assoc, UInt64.add_assoc]

/-! ## Lists of outcomes -/

/-- The outcome of all outcomes of a list, for a mode. The number of projects is counted in a word
of 64 bits. -/
structure Gathers (mode : Propagation) (os : List Outcome) (o : Outcome) : Prop where
  propagation : o.propagation = mode
  tested : o.tested = os.flatMap (·.tested)
  untested : o.untested = os.flatMap (·.untested)
  projectsAnalyzed :
    o.projectsAnalyzed.toNat = (os.map (·.projectsAnalyzed.toNat)).sum % 2 ^ 64
  skippedProjects : o.skippedProjects = os.flatMap (·.skippedProjects)
  unresolvedAttributes : o.unresolvedAttributes = firstNew [] (os.flatMap (·.unresolvedAttributes))
  malformedTypes : o.malformedTypes = firstNew [] (os.flatMap (·.malformedTypes))

variable {mode : Propagation} {os : List Outcome} {o : Outcome}

theorem gathers_empty (mode : Propagation) : Gathers mode [] (empty mode) :=
  ⟨rfl, rfl, rfl, rfl, rfl, rfl, rfl⟩

theorem Gathers.merge (h : Gathers mode os o) (more : Outcome) :
    Gathers mode (os ++ [more]) (o.merge more) where
  propagation := h.propagation
  tested := by simp [Outcome.merge, h.tested]
  untested := by simp [Outcome.merge, h.untested]
  projectsAnalyzed := by simp [Outcome.merge, h.projectsAnalyzed]
  skippedProjects := by simp [Outcome.merge, h.skippedProjects]
  unresolvedAttributes := by
    simp [Outcome.merge, h.unresolvedAttributes, mergeNames_firstNew]
  malformedTypes := by
    simp [Outcome.merge, h.malformedTypes, mergeNames_firstNew]

theorem gathers_foldl_merge (mode : Propagation) (os : List Outcome) :
    Gathers mode os (os.foldl Outcome.merge (empty mode)) := by
  -- from the end, since outcomes are merged from the left
  induction os using List.reverseRecOn with
  | nil => exact gathers_empty mode
  | append_singleton os o ih =>
    rw [List.foldl_append]
    exact ih.merge o

theorem Gathers.total (h : Gathers mode os o) : o.total = (os.map Outcome.total).sum := by
  rw [Outcome.total, h.tested, h.untested, List.length_flatMap, List.length_flatMap,
    ← List.sum_map_add]
  rfl

/-- Merging is associative. A list of outcomes merged in turn into a fresh one loses nothing: its
lists are all their lists in order, its numbers are sums, and what was noticed is listed once, in
the order in which it came up first. -/
theorem merge_lossless :
    (∀ a b c : Outcome, (a.merge b).merge c = a.merge (b.merge c)) ∧
      ∀ (mode : Propagation) (os : List Outcome),
        let o := os.foldl Outcome.merge (empty mode)
        o.propagation = mode ∧
          o.tested = os.flatMap (·.tested) ∧
          o.untested = os.flatMap (·.untested) ∧
          o.skippedProjects = os.flatMap (·.skippedProjects) ∧
          o.total = (os.map Outcome.total).sum ∧
          ((os.map (·.projectsAnalyzed.toNat)).sum < 2 ^ 64 →
            o.projectsAnalyzed.toNat = (os.map (·.projectsAnalyzed.toNat)).sum) ∧
          FirstOccurrences (os.flatMap (·.unresolvedAttributes)) o.unresolvedAttributes ∧
          FirstOccurrences (os.flatMap (·.malformedTypes)) o.malformedTypes := by
  refine ⟨merge_assoc, fun mode os => ?_⟩
  have h := gathers_foldl_merge mode os
  refine ⟨h.propagation, h.tested, h.untested, h.skippedProjects, h.total, fun hsum => ?_, ?_, ?_⟩
  · rw [h.projectsAnalyzed, Nat.mod_eq_of_lt hsum]
  · rw [h.unresolvedAttributes]
    exact firstOccurrences_firstNew _
  · rw [h.malformedTypes]
    exact firstOccurrences_firstNew _

/-- Outcomes that repeat names, each for itself and one after the other. -/
def repeatingOutcomes : List Outcome :=
  [{ propagation := .oneHop
     tested := [⟨"Core", "Store", "put", []⟩]
     projectsAnalyzed := 1
     unresolvedAttributes := ["Retry", "Trace", "Retry"] },
   { propagation := .transitive
     untested := [⟨"Web", "Page", "show", []⟩]
     projectsAnalyzed := 2
     skippedProjects := [⟨"Old", "build failed"⟩]
     unresolvedAttributes := ["Cache", "Trace", "Cache"]
     malformedTypes := ["Loop"] }]

theorem merge_lossless_repeatingOutcomes :
    (repeatingOutcomes.map (·.projectsAnalyzed.toNat)).sum < 2 ^ 64 ∧
      let o := repeatingOutcomes.foldl Outcome.merge (empty .transitive)
      o.total = 2 ∧ o.projectsAnalyzed.toNat = 3 ∧
        o.unresolvedAttributes = ["Retry", "Trace", "Cache"] ∧
        FirstOccurrences ["Retry", "Trace", "Retry", "Cache", "Trace", "Cache"]
          o.unresolvedAttributes := by
  have hsum : (repeatingOutcomes.map (·.projectsAnalyzed.toNat)).sum < 2 ^ 64 := by decide
  obtain ⟨-, -, -, -, htotal, hanalyzed, hnames, -⟩ :=
    merge_lossless.2 .transitive repeatingOutcomes
  exact ⟨hsum, htotal, hanalyzed hsum, by decide, hnames⟩

end Outcome

end TestReach
