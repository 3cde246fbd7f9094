import TestReach.Decimal.Layout
import TestReach.Marker
import TestReach.Outcome.Decode
import TestReach.Text.Quoted

/-!
# Configurations

A configuration names the markers of test methods and the options of a run. It is checked before it
is used; the first fault counts.
-/

namespace TestReach

/-- The settings of a run. -/
structure Config where
  version : String := ""
  name : String := ""
  description : Option String := none
  markers : List String := []
  propagation : Option Propagation := none
  /-- The least share of tested methods, in percent. -/
  minTestedPercent : Option Float := none
  /-- How long each project may take, in seconds. -/
  projectTimeout : Option Nat := none
  deriving Inhabited

/-- What is wrong with a configuration. -/
inductive ConfigFault where
  /-- All markers are blank, or there is none. -/
  | noMarkers
  /-- One marker among others is blank. -/
  | blankMarker
  /-- A marker has a blank or a comma in it. -/
  | severalNames (marker : String)
  /-- A marker starts or ends with a dot or has two dots in a row. -/
  | emptySegment (marker : String)
  /-- The least share is not a percentage. -/
  | percentOutOfRange (percent : Float)
  /-- Projects may take no time at all. -/
  | zeroTimeout
  deriving Repr

/-- The message for a fault. -/
def ConfigFault.message : ConfigFault → String
  | .noMarkers => "no marker types configured"
  | .blankMarker => "empty marker name"
  | .severalNames marker =>
    "invalid marker " ++ Text.quoted marker ++ ": must be a single qualified type name"
  | .emptySegment marker => "invalid marker " ++ Text.quoted marker ++ ": malformed namespace"
  | .percentOutOfRange percent =>
    "invalid min_tested_percent " ++ Decimal.plain percent ++ ", must be between 0 and 100"
  | .zeroTimeout => "project_timeout_secs must be positive"

namespace Config

/-- The markers as a set. -/
def markerSet (c : Config) : MarkerSet :=
  MarkerSet.ofNames c.markers

/-- The mode of the run; tests reach through any number of calls if none is given. -/
def mode (c : Config) : Propagation :=
  c.propagation.getD .transitive

/-! ## Checking -/

/-- Two dots in a row. -/
def hasEmptySegment : List Char → Bool
  | '.' :: '.' :: _ => true
  | _ :: rest => hasEmptySegment rest
  | [] => false

/-- What is wrong with one marker. -/
def markerFault? (marker : String) : Option ConfigFault :=
  let name := Text.trimChars marker.toList
  if name.isEmpty then some .blankMarker
  else if name.any fun c => Text.isBlank c || c == ',' then some (.severalNames marker)
  else if name.head? == some '.' || name.getLast? == some '.' || hasEmptySegment name then
    some (.emptySegment marker)
  else none

/-- Whether a number is a percentage. -/
def isPercentage (x : Float) : Bool :=
  0.0 ≤ x && x ≤ 100.0

/-- What is wrong with the options. -/
def optionFault? (c : Config) : Option ConfigFault :=
  match c.minTestedPercent.filter fun p => !isPercentage p with
  | some percent => some (.percentOutOfRange percent)
  | none => if c.projectTimeout = some 0 then some .zeroTimeout else none

/-- The first fault of a configuration: markers come before options. -/
def fault? (c : Config) : Option ConfigFault :=
  if c.markers.all Text.isBlankText then some .noMarkers
  else (c.markers.findSome? markerFault?).or c.optionFault?

/-! ## Reading -/

/-- The fields of a configuration, in order. -/
def fieldNames : List String :=
  ["version", "name", "description", "markers", "propagation", "min_tested_percent",
    "project_timeout_secs"]

/-- Read a configuration. -/
def decode? (fmt : Format) (doc : Doc) : Option Config := do
  let depth := fmt.depth - 1
  match ← doc.record? fmt fieldNames fmt.depth with
  | [version, name, description, markers, propagation, percent, timeout] =>
    let version ← defaulted? "" Doc.text? version
    let name ← defaulted? "" Doc.text? name
    let description ← optionalField? Doc.text? description
    let markers ← textsField? depth markers
    let propagation ← optionalField? (Propagation.decode? fmt depth) propagation
    let minTestedPercent ← optionalField? Doc.real? percent
    let projectTimeout ← optionalField? Doc.count? timeout
    return { version, name, description, markers, propagation, minTestedPercent, projectTimeout }
  | _ => none

end Config

end TestReach
