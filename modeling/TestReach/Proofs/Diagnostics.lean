import TestReach.Proofs.Detector
import TestReach.Proofs.Ordered
import TestReach.Proofs.Recording
import Mathlib.Data.Set.Insert

/-!
# What a detector notes

A detector looks at the attributes of a method in order, up to the first that marks a test. An
attribute gives rise to a diagnostic when it names no type, or a type whose chain of bases does not
end. Verdicts that are kept hide no diagnostics: a detector that has looked at the attributes of a
set has noted those of the set and no others (`Detector.Knows`), whatever it was asked and in which
order.
-/

namespace TestReach

/-- The elements up to the first that has the property, and that one. -/
def upTo {α : Type} (f : α → Bool) : List α → List α
  | [] => []
  | a :: as => if f a then [a] else a :: upTo f as

/-- What a detector has to say apart from its verdicts. -/
inductive Diagnostic where
  | unresolved (name : String)
  | malformed (typeName : String)

namespace Program

/-- The attributes of a method that are looked at. -/
def lookedAt (p : Program) (markers : MarkerSet) (id : SymbolId) : List Attribute :=
  upTo (p.marksTest markers) (p.attributes id)

/-- The diagnostic that an attribute gives rise to, if any. -/
def diagnosticOf? (p : Program) : Attribute → Option Diagnostic
  | .unresolved name => some (.unresolved name)
  | .resolved id => (errorOf? (p.closure id)).map fun e => .malformed e.typeName

end Program

namespace Detector

variable {p : Program} {markers : MarkerSet} {A : Set Attribute} {d d' : Detector}

def Noted (d : Detector) : Diagnostic → Prop
  | .unresolved name => name ∈ d.unresolved
  | .malformed typeName => typeName ∈ d.malformed

theorem noted_noteUnresolved {name : String} {x : Diagnostic} :
    (d.noteUnresolved name).Noted x ↔ some (.unresolved name) = some x ∨ d.Noted x := by
  cases x with
  | unresolved other => simp [Noted, noteUnresolved, mem_insertOrdered, eq_comm]
  | malformed typeName => simp [Noted, noteUnresolved]

theorem noted_noteMalformed {typeName : String} {x : Diagnostic} :
    (d.noteMalformed typeName).Noted x ↔
      some (.malformed typeName) = some x ∨ d.Noted x := by
  cases x with
  | unresolved name => simp [Noted, noteMalformed]
  | malformed other => simp [Noted, noteMalformed, mem_insertOrdered, eq_comm]

/-- The detector has looked at the attributes of a set and at no others. -/
structure Knows (p : Program) (markers : MarkerSet) (A : Set Attribute) (d : Detector) : Prop where
  sound : d.Sound p markers
  methods : ∀ id b, d.methodVerdicts.lookup id = some b → ∀ a ∈ p.lookedAt markers id, a ∈ A
  types : ∀ id b, d.typeVerdicts.lookup id = some b → .resolved id ∈ A
  noted : ∀ x, d.Noted x ↔ ∃ a ∈ A, p.diagnosticOf? a = some x
  unresolved : Ascending d.unresolved
  malformed : Ascending d.malformed

namespace Knows

theorem new : Knows p markers ∅ {} where
  sound := sound_new
  methods := by simp
  types := by simp
  noted x := by cases x <;> simp [Noted]
  unresolved := .nil
  malformed := .nil

theorem congr (h : d.Knows p markers A) {B : Set Attribute} (hAB : A = B) : d.Knows p markers B :=
  hAB ▸ h

-- The attribute is looked at without a verdict being kept: only its diagnostic is added.
theorem look (h : d.Knows p markers A) (a : Attribute)
    (htypes : d'.typeVerdicts = d.typeVerdicts) (hmethods : d'.methodVerdicts = d.methodVerdicts)
    (hnoted : ∀ x, d'.Noted x ↔ p.diagnosticOf? a = some x ∨ d.Noted x)
    (hunresolved : Ascending d'.unresolved) (hmalformed : Ascending d'.malformed) :
    d'.Knows p markers (insert a A) where
  sound := ⟨htypes ▸ h.sound.types, hmethods ▸ h.sound.methods⟩
  methods id b hb x hx := Set.mem_insert_of_mem _ (h.methods id b (hmethods ▸ hb) x hx)
  types id b hb := Set.mem_insert_of_mem _ (h.types id b (htypes ▸ hb))
  noted x := by rw [hnoted, h.noted, Set.exists_mem_insert]
  unresolved := hunresolved
  malformed := hmalformed

theorem noteUnresolved (h : d.Knows p markers A) (name : String) :
    (d.noteUnresolved name).Knows p markers (insert (.unresolved name) A) := by
  refine h.look _ rfl rfl (fun x => ?_) (h.unresolved.insertOrdered name) h.malformed
  exact noted_noteUnresolved

theorem inspectType (h : d.Knows p markers A) (id : SymbolId) :
    (d.inspectType p markers id).2.Knows p markers (insert (.resolved id) A) := by
  unfold Detector.inspectType
  cases hclosure : p.closure id with
  | ok members =>
    refine h.look _ rfl rfl (fun x => ?_) h.unresolved h.malformed
    simp [Program.diagnosticOf?, hclosure]
  | error e =>
    refine h.look _ rfl rfl (fun x => ?_) h.unresolved (h.malformed.insertOrdered e.typeName)
    rw [Program.diagnosticOf?, hclosure]
    exact noted_noteMalformed

theorem typeIsMarker (h : d.Knows p markers A) (id : SymbolId) :
    (d.typeIsMarker p markers id).2.Knows p markers (insert (.resolved id) A) := by
  obtain ⟨d₂, hd₂, hsound⟩ := typeIsMarker_eq h.sound id
  rw [hd₂]
  unfold Detector.typeIsMarker at hd₂
  cases hl : d.typeVerdicts.lookup id with
  | some verdict =>
    -- a type with a verdict was looked at before
    simp only [hl, Prod.mk.injEq] at hd₂
    obtain ⟨-, rfl⟩ := hd₂
    exact h.congr (Set.insert_eq_of_mem (h.types id verdict hl)).symm
  | none =>
    simp only [hl, Prod.mk.injEq] at hd₂
    obtain ⟨-, rfl⟩ := hd₂
    have hnew := h.inspectType id
    exact ⟨hsound, hnew.methods, lookup_cons_of hnew.types (Set.mem_insert _ _), hnew.noted,
      hnew.unresolved, hnew.malformed⟩

theorem anyMarker (h : d.Knows p markers A) (attributes : List Attribute) :
    (d.anyMarker p markers attributes).2.Knows p markers
      (A ∪ {a | a ∈ upTo (p.marksTest markers) attributes}) := by
  induction attributes generalizing d A with
  | nil => exact h.congr (by simp [upTo])
  | cons a rest ih =>
    cases a with
    | unresolved name =>
      refine (ih (h.noteUnresolved name)).congr ?_
      ext x
      simp [upTo, Program.marksTest, or_left_comm, or_assoc]
    | resolved id =>
      have hlook := h.typeIsMarker id
      obtain ⟨d₂, hd₂, -⟩ := typeIsMarker_eq h.sound id
      rw [hd₂] at hlook
      cases hmarker : p.isMarkerType markers id with
      | true =>
        rw [hmarker] at hd₂
        simp only [Detector.anyMarker, hd₂]
        refine hlook.congr ?_
        ext x
        simp [upTo, Program.marksTest, hmarker, or_comm]
      | false =>
        rw [hmarker] at hd₂
        simp only [Detector.anyMarker, hd₂]
        refine (ih hlook).congr ?_
        ext x
        simp [upTo, Program.marksTest, hmarker, or_left_comm, or_assoc]

/-- A method is looked at once; what is kept of it stands for its attributes. -/
theorem isMarker (h : d.Knows p markers A) (id : SymbolId) :
    (d.isMarker p markers id).2.Knows p markers (A ∪ {a | a ∈ p.lookedAt markers id}) := by
  obtain ⟨d₂, hd₂, hsound⟩ := isMarker_eq h.sound id
  rw [hd₂]
  unfold Detector.isMarker at hd₂
  cases hl : d.methodVerdicts.lookup id with
  | some verdict =>
    simp only [hl, Prod.mk.injEq] at hd₂
    obtain ⟨-, rfl⟩ := hd₂
    exact h.congr (Set.union_eq_left.2 (h.methods id verdict hl)).symm
  | none =>
    simp only [hl, Prod.mk.injEq] at hd₂
    obtain ⟨-, rfl⟩ := hd₂
    have hnew := h.anyMarker (p.attributes id)
    exact ⟨hsound, lookup_cons_of hnew.methods (fun _ => .inr), hnew.types, hnew.noted,
      hnew.unresolved, hnew.malformed⟩

/-- Detectors that have noted the same diagnostics list the same names. -/
theorem lists_eq (h : d.Knows p markers A) {B : Set Attribute} (h' : d'.Knows p markers B)
    (hnoted : ∀ x, d.Noted x ↔ d'.Noted x) :
    d.unresolved = d'.unresolved ∧ d.malformed = d'.malformed :=
  ⟨h.unresolved.eq_of_mem_iff h'.unresolved fun name => hnoted (.unresolved name),
    h.malformed.eq_of_mem_iff h'.malformed fun name => hnoted (.malformed name)⟩

end Knows

end Detector

end TestReach
