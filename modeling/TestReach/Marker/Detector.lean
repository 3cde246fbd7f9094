import TestReach.Hierarchy
import TestReach.Marker

/-!
# Detecting test methods

A type is a marker when one of the types it can be treated as has a name in the marker set, and a
method is a test by itself when one of its attributes is a marker. Attributes are looked at in order
and only up to the first that is a marker. On the way the detector notes the attributes that name no
type of the program and the types whose chain of bases is malformed.

Verdicts on types and methods are kept, so that no type and no method is looked at twice.
-/

namespace TestReach

/-- The verdicts reached so far, and what was noted on the way. -/
structure Detector where
  typeVerdicts : List (SymbolId × Bool) := []
  methodVerdicts : List (SymbolId × Bool) := []
  /-- Names of attributes that are no types of the program, in ascending order. -/
  unresolved : List String := []
  /-- Names of types with a malformed chain of bases, in ascending order. -/
  malformed : List String := []
  deriving DecidableEq, Repr, Inhabited

namespace Detector

def noteUnresolved (d : Detector) (name : String) : Detector :=
  { d with unresolved := insertOrdered name d.unresolved }

def noteMalformed (d : Detector) (name : String) : Detector :=
  { d with malformed := insertOrdered name d.malformed }

/-- Look at a type that has no verdict yet. -/
def inspectType (p : Program) (markers : MarkerSet) (id : SymbolId) (d : Detector) :
    Bool × Detector :=
  match p.closure id with
  | .ok members => (members.any fun m => markers.contains (p.table.qualifiedName m), d)
  | .error e => (false, d.noteMalformed e.typeName)

/-- Whether a type is a marker. -/
def typeIsMarker (p : Program) (markers : MarkerSet) (id : SymbolId) (d : Detector) :
    Bool × Detector :=
  match d.typeVerdicts.lookup id with
  | some verdict => (verdict, d)
  | none =>
    let (verdict, d) := d.inspectType p markers id
    (verdict, { d with typeVerdicts := (id, verdict) :: d.typeVerdicts })

/-- Whether one of some attributes is a marker. -/
def anyMarker (p : Program) (markers : MarkerSet) (d : Detector) :
    List Attribute → Bool × Detector
  | [] => (false, d)
  | .unresolved name :: rest => anyMarker p markers (d.noteUnresolved name) rest
  | .resolved id :: rest =>
    match d.typeIsMarker p markers id with
    | (true, d) => (true, d)
    | (false, d) => anyMarker p markers d rest

/-- Whether a method is a test by itself. -/
def isMarker (p : Program) (markers : MarkerSet) (id : SymbolId) (d : Detector) :
    Bool × Detector :=
  match d.methodVerdicts.lookup id with
  | some verdict => (verdict, d)
  | none =>
    let (verdict, d) := d.anyMarker p markers (p.attributes id)
    (verdict, { d with methodVerdicts := (id, verdict) :: d.methodVerdicts })

end Detector

end TestReach
