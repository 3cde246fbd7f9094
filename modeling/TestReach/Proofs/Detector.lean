import TestReach.Marker.Detector

/-!
# Detecting tests is a fact about the program

Whether a type is a marker and whether a method is a test by itself depends on the program and the
marker set alone (`Program.isMarkerType`, `Program.isTest`). A detector that has only looked at
types and methods of the program knows nothing else (`Detector.Sound`), so its answers are these
facts whatever it was asked before.
-/

namespace TestReach

namespace Program

/-- A type is a marker when its chain of bases ends and it can be treated as a type of the set. -/
def isMarkerType (p : Program) (markers : MarkerSet) (id : SymbolId) : Bool :=
  match p.closure id with
  | .ok members => members.any fun m => markers.contains (p.table.qualifiedName m)
  | .error _ => false

/-- An attribute marks a test when it is a marker type of the program. -/
def marksTest (p : Program) (markers : MarkerSet) : Attribute → Bool
  | .resolved id => p.isMarkerType markers id
  | .unresolved _ => false

/-- A method is a test by itself when one of its attributes marks it. -/
def isTest (p : Program) (markers : MarkerSet) (id : SymbolId) : Bool :=
  (p.attributes id).any (p.marksTest markers)

end Program

namespace Detector

variable {p : Program} {markers : MarkerSet}

/-- Every verdict kept by a detector is a fact about the program. -/
structure Sound (p : Program) (markers : MarkerSet) (d : Detector) : Prop where
  types : ∀ id b, d.typeVerdicts.lookup id = some b → b = p.isMarkerType markers id
  methods : ∀ id b, d.methodVerdicts.lookup id = some b → b = p.isTest markers id

/-- What holds of the verdicts of a table and of one more holds of the longer table. -/
theorem lookup_cons_of {verdicts : List (SymbolId × Bool)} {P : SymbolId → Bool → Prop}
    (h : ∀ id b, verdicts.lookup id = some b → P id b) {id : SymbolId} {verdict : Bool}
    (hid : P id verdict) :
    ∀ id' b, ((id, verdict) :: verdicts).lookup id' = some b → P id' b := by
  intro id' b hb
  rw [List.lookup_cons] at hb
  split at hb
  · rename_i heq
    rw [← Option.some.inj hb, eq_of_beq heq]
    exact hid
  · exact h id' b hb

theorem sound_new : Sound p markers {} :=
  ⟨by simp, by simp⟩

theorem Sound.noteUnresolved {d : Detector} (h : d.Sound p markers) (name : String) :
    (d.noteUnresolved name).Sound p markers :=
  ⟨h.types, h.methods⟩

theorem Sound.noteMalformed {d : Detector} (h : d.Sound p markers) (name : String) :
    (d.noteMalformed name).Sound p markers :=
  ⟨h.types, h.methods⟩

theorem inspectType_eq {d : Detector} (h : d.Sound p markers) (id : SymbolId) :
    ∃ d', d.inspectType p markers id = (p.isMarkerType markers id, d') ∧ d'.Sound p markers := by
  unfold inspectType Program.isMarkerType
  cases p.closure id with
  | ok members => exact ⟨d, rfl, h⟩
  | error e => exact ⟨_, rfl, h.noteMalformed _⟩

theorem typeIsMarker_eq {d : Detector} (h : d.Sound p markers) (id : SymbolId) :
    ∃ d', d.typeIsMarker p markers id = (p.isMarkerType markers id, d') ∧ d'.Sound p markers := by
  unfold typeIsMarker
  cases hl : d.typeVerdicts.lookup id with
  | some verdict => exact ⟨d, by rw [h.types id verdict hl], h⟩
  | none =>
    obtain ⟨d', hd', hs⟩ := inspectType_eq h id
    simp only [hd']
    exact ⟨_, rfl, lookup_cons_of hs.types rfl, hs.methods⟩

theorem anyMarker_eq {d : Detector} (h : d.Sound p markers) (attributes : List Attribute) :
    ∃ d', d.anyMarker p markers attributes = (attributes.any (p.marksTest markers), d') ∧
      d'.Sound p markers := by
  induction attributes generalizing d with
  | nil => exact ⟨d, rfl, h⟩
  | cons a rest ih =>
    cases a with
    | unresolved name => exact ih (h.noteUnresolved name)
    | resolved id =>
      obtain ⟨d', hd', hs⟩ := typeIsMarker_eq h id
      simp only [anyMarker, hd', List.any_cons, Program.marksTest]
      cases p.isMarkerType markers id with
      | true => exact ⟨d', rfl, hs⟩
      | false => exact ih hs

/-- Asking about a method gives the fact, and adds only facts to what is kept. -/
theorem isMarker_eq {d : Detector} (h : d.Sound p markers) (id : SymbolId) :
    ∃ d', d.isMarker p markers id = (p.isTest markers id, d') ∧ d'.Sound p markers := by
  unfold isMarker
  cases hl : d.methodVerdicts.lookup id with
  | some verdict => exact ⟨d, by rw [h.methods id verdict hl], h⟩
  | none =>
    obtain ⟨d', hd', hs⟩ := anyMarker_eq h (p.attributes id)
    simp only [hd']
    exact ⟨_, rfl, hs.types, lookup_cons_of hs.methods rfl⟩

end Detector

end TestReach
