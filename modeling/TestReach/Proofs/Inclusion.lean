import TestReach.Proofs.Denotation

/-!
# Solutions within others

One solution is within another (`Solution.Within`) when the two have the same types, with the same
bases and interfaces, and every method of the first is a method of the second that keeps its
attributes and its calls. What is tested in the first is then tested in the second, also when more
names count as those of markers there, and calls are followed further.
-/

namespace TestReach

open Relation Text

/-- Types of the same qualified name, with the same base and interfaces. -/
structure TypeSite.Matches (T T' : TypeSite) : Prop where
  name : T.name = T'.name
  base : T.decl.base = T'.decl.base
  interfaces : ∀ name, name ∈ T.decl.interfaces ↔ name ∈ T'.decl.interfaces

/-- The same method, where `m'` has all attributes and calls of `m`. -/
structure MethodSite.Within (m m' : MethodSite) : Prop where
  typeName : m.typeName = m'.typeName
  key : m.decl.key = m'.decl.key
  attributes : m.decl.attributes ⊆ m'.decl.attributes
  calls : m.decl.calls ⊆ m'.decl.calls

theorem TypeSite.Matches.symm {T T' : TypeSite} (h : T.Matches T') : T'.Matches T :=
  ⟨h.name.symm, h.base.symm, fun name => (h.interfaces name).symm⟩

theorem MethodSite.Within.names_eq {m m' : MethodSite} (h : m.Within m') (ref : MethodRef) :
    ref.names m.decl = ref.names m'.decl := by
  rw [MethodRef.names, MethodRef.names, h.key]

namespace Solution

variable {s s' : Solution}

/-- A type of one solution and its match in another. -/
def MatchedType (s s' : Solution) (T T' : TypeSite) : Prop :=
  T ∈ s.sites ∧ T' ∈ s'.sites ∧ T.Matches T'

/-- Every type of each of two solutions has a match in the other. -/
structure SameTypes (s s' : Solution) : Prop where
  forth : ∀ T ∈ s.sites, ∃ T' ∈ s'.sites, T.Matches T'
  back : ∀ T' ∈ s'.sites, ∃ T ∈ s.sites, T.Matches T'

/-- The solution has the method `m` as `m'`, with all its attributes and calls. -/
def Keeps (s : Solution) (m m' : MethodSite) : Prop :=
  m' ∈ s.methodSites ∧ m.Within m'

/-- The solutions have the same types, and the second keeps the methods of the first. -/
structure Within (s s' : Solution) : Prop extends s.SameTypes s' where
  methods : ∀ m ∈ s.methodSites, ∃ m', s'.Keeps m m'

theorem MatchedType.symm {T T' : TypeSite} (h : s.MatchedType s' T T') : s'.MatchedType s T' T :=
  ⟨h.2.1, h.1, h.2.2.symm⟩

/-- In a solution where names are distinct, a type has one match. -/
theorem WellFormed.matchedType_unique (hwf : s'.WellFormed) {T U U' : TypeSite}
    (hU : s.MatchedType s' T U) (hU' : s.MatchedType s' T U') : U = U' :=
  List.inj_on_of_nodup_map hwf.distinct hU.2.1 hU'.2.1 (hU.2.2.name.symm.trans hU'.2.2.name)

/-! ## Types -/

namespace SameTypes

theorem symm (h : s.SameTypes s') : s'.SameTypes s where
  forth T' hT' := by
    obtain ⟨T, hT, hmatches⟩ := h.back T' hT'
    exact ⟨T, hT, hmatches.symm⟩
  back T hT := by
    obtain ⟨T', hT', hmatches⟩ := h.forth T hT
    exact ⟨T', hT', hmatches.symm⟩

theorem simulates_base (h : s.SameTypes s') :
    Simulates (s.MatchedType s') s.IsBase s'.IsBase := by
  rintro T T' U ⟨-, -, hmatches⟩ ⟨hU, hwritten⟩
  obtain ⟨U', hU', hname⟩ := h.forth U hU
  exact ⟨U', ⟨hU, hU', hname⟩, hU', by rw [← hmatches.base, hwritten, hname.name]⟩

theorem simulates_lists (h : s.SameTypes s') :
    Simulates (s.MatchedType s') s.ListsInterface s'.ListsInterface := by
  rintro T T' U ⟨-, -, hmatches⟩ ⟨hU, name, hname, htrim⟩
  obtain ⟨U', hU', hmatches'⟩ := h.forth U hU
  refine ⟨U', ⟨hU, hU', hmatches'⟩, hU', name, (hmatches.interfaces name).1 hname, ?_⟩
  exact htrim.trans hmatches'.name

theorem mirrors_base (h : s.SameTypes s') : Mirrors (s.MatchedType s') s.IsBase s'.IsBase where
  forth := h.simulates_base
  back := by
    intro T' T U' hT hbase
    obtain ⟨U, hU, hbase'⟩ := h.symm.simulates_base hT.symm hbase
    exact ⟨U, hU.symm, hbase'⟩

theorem circularBases_iff (h : s.SameTypes s') (hwf : s.WellFormed) (hwf' : s'.WellFormed)
    {T T' : TypeSite} (hT : s.MatchedType s' T T') : s.CircularBases T ↔ s'.CircularBases T' := by
  refine h.mirrors_base.reflTransGen.exists_iff ?_ hT
  refine h.mirrors_base.transGen_self_iff hwf'.matchedType_unique ?_
  exact fun hU hU' => hwf.matchedType_unique hU.symm hU'.symm

/-- A type that marks tests still does when there are more names. -/
theorem isMarker (h : s.SameTypes s') (hwf : s.WellFormed) (hwf' : s'.WellFormed)
    {names names' : List String} (hnames : names.map trim ⊆ names'.map trim) {T T' : TypeSite}
    (hT : s.MatchedType s' T T') (hmarker : s.IsMarker names T) : s'.IsMarker names' T' := by
  obtain ⟨hends, hcan⟩ := hmarker
  refine ⟨fun hcircular => hends ((h.circularBases_iff hwf hwf' hT).2 hcircular), ?_⟩
  refine (h.simulates_base.or h.simulates_lists).reflTransGen.exists_of_exists ?_ hT hcan
  rintro U U' hU ⟨name, hname, hne, heq⟩
  obtain ⟨name', hname', htrim⟩ := List.mem_map.1 (hnames (List.mem_map_of_mem hname))
  exact ⟨name', hname', htrim ▸ hne, by rw [htrim, heq, hU.2.2.name]⟩

end SameTypes

/-! ## Methods -/

/-- Following all calls, one finds what following one call finds. -/
theorem Tested.transitive {names : List String} {m : MethodSite}
    (h : s.Tested names .oneHop m) : s.Tested names .transitive m := by
  rcases h with hmarked | ⟨caller, hcalled, hmarked⟩
  · exact ⟨m, .refl, hmarked⟩
  · exact ⟨caller, .single hcalled, hmarked⟩

namespace Within

theorem simulates_calls (h : s.Within s') : Simulates s'.Keeps s.CalledBy s'.CalledBy := by
  rintro m m' caller ⟨hm', hwithin⟩ ⟨-, hcaller, call, hcall, ref, href, htype, hnames⟩
  obtain ⟨caller', hkeeps⟩ := h.methods caller hcaller
  refine ⟨caller', hkeeps, hm', hkeeps.1, call, hkeeps.2.calls hcall, ref, href, ?_, ?_⟩
  · exact htype.trans hwithin.typeName
  · exact hwithin.names_eq ref ▸ hnames

variable {names names' : List String} {m m' : MethodSite}

theorem selfMarked (h : s.Within s') (hwf : s.WellFormed) (hwf' : s'.WellFormed)
    (hnames : names.map trim ⊆ names'.map trim) (hm : s'.Keeps m m')
    (hmarked : s.SelfMarked names m) : s'.SelfMarked names' m' := by
  obtain ⟨a, ha, T, hT, hname, hmarker⟩ := hmarked
  obtain ⟨T', hT', hmatches⟩ := h.forth T hT
  refine ⟨a, hm.2.attributes ha, T', hT', hmatches.name ▸ hname, ?_⟩
  exact h.isMarker hwf hwf' hnames ⟨hT, hT', hmatches⟩ hmarker

/-- What is tested stays tested where the solution has more calls, there are more names of markers,
or all calls count where only one did. -/
theorem tested (h : s.Within s') (hwf : s.WellFormed) (hwf' : s'.WellFormed)
    (hnames : names.map trim ⊆ names'.map trim) {mode mode' : Propagation}
    (hmode : mode = mode' ∨ mode = .oneHop) (hm : s'.Keeps m m')
    (htested : s.Tested names mode m) : s'.Tested names' mode' m' := by
  have hmarked : ∀ {m m'}, s'.Keeps m m' → s.SelfMarked names m → s'.SelfMarked names' m' :=
    h.selfMarked hwf hwf' hnames
  have hsame : s'.Tested names' mode m' := by
    cases mode with
    | transitive => exact h.simulates_calls.reflTransGen.exists_of_exists hmarked hm htested
    | oneHop =>
      exact htested.imp (hmarked hm) (h.simulates_calls.exists_of_exists hmarked hm)
  rcases hmode with rfl | rfl
  · exact hsame
  · cases mode' with
    | transitive => exact hsame.transitive
    | oneHop => exact hsame

end Within

end Solution

end TestReach
