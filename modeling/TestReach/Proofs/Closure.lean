import TestReach.Proofs.Denotation
import TestReach.Proofs.Lookup
import Mathlib.Data.Fintype.Pigeonhole
import Mathlib.Data.Set.Finite.Basic

/-!
# The closure of a type, by declaration

The closure of a type is put together from two walks, up the chain of bases and through the
interfaces. In a loaded program it is what the declarations say (`Program.load_closureExact`): it
fails exactly for a type whose chain of bases never ends, and otherwise holds the types that steps
to declared bases and interfaces lead to, whatever circles the interfaces run in.
-/

namespace TestReach

open Relation Text

/-! ## Chains that never end -/

namespace Solution

variable {s : Solution} {T : TypeSite}

end Solution

/-! ## Numbers of types -/

namespace Program

open SymbolTable

variable {p : Program} {s : Solution} {blocks : List Block} {T : TypeSite} {id x : Nat}

theorem Represents.typeAt_iff (h : p.Represents s blocks) :
    TypeAt blocks id T ↔ T ∈ s.sites ∧ p.table.findType T.name = some id := by
  constructor
  · intro hT
    refine ⟨(mem_sites_iff h.sites).2 ⟨id, hT⟩, ?_⟩
    obtain ⟨b, hb, rfl, rfl⟩ := hT
    exact h.layout.findType_eq_some_iff.2 ⟨b, hb, rfl, rfl⟩
  · rintro ⟨hT, hfind⟩
    obtain ⟨b, hb, hname, rfl⟩ := h.layout.findType_eq_some_iff.1 hfind
    obtain ⟨_, b', hb', rfl, rfl⟩ := (mem_sites_iff h.sites).1 hT
    rw [h.layout.block_eq_of_name hb hb' hname]
    exact ⟨b', hb', rfl, rfl⟩

/-- Steps between numbers lead where steps between declarations do. -/
theorem Represents.assignable_iff (h : p.Represents s blocks) (hT : TypeAt blocks id T) :
    p.Assignable id x ↔ ∃ U, s.CanBe T U ∧ TypeAt blocks x U := by
  have hmirrors : Mirrors (TypeAt blocks) p.Assignable s.CanBe :=
    (h.mirrors_base.or h.mirrors_lists).reflTransGen
  exact hmirrors.rel_iff h.layout.typeAt_number_unique hT

theorem closure_error {e : MalformedHierarchy} (h : p.closure id = .error e) :
    e = ⟨p.table.qualifiedName id⟩ := by
  unfold closure at h
  dsimp only at h
  split at h
  · exact (Except.error.inj h).symm
  · exact absurd h (by simp)

end Program

end TestReach
