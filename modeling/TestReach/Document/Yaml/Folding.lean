import TestReach.Document.Yaml.Glyph

/-!
# Folding

How the lines of a scalar without block structure are joined. Blanks next to a line end vanish. A
single line end becomes a space; of several in a row the first vanishes and the rest stay. A
separator never vanishes, and an escaped line end always does.
-/

namespace TestReach.Yaml

/-- What a scalar is made of. -/
inductive Part where
  | char (c : Char)
  | blank (c : Char)
  | lineEnd (c : Char)
  /-- A line end with a backslash before it. -/
  | escapedEnd
  deriving DecidableEq, Repr

/-- The blanks and line ends between two words. -/
inductive Gap where
  /-- Blanks within a line, the last first. -/
  | blanks (cs : List Char)
  /-- The first line end, if it is not an escaped one, and those after it, the last first. -/
  | lineEnds (first : Option Char) (more : List Char)
  deriving DecidableEq, Repr

namespace Gap

/-- No gap at all. -/
def none : Gap := .blanks []

/-- What a gap leaves in the text. -/
def text : Gap → List Char
  | .blanks cs => cs.reverse
  | .lineEnds (some '\n') [] => [' ']
  | .lineEnds (some '\n') more => more.reverse
  | .lineEnds (some c) more => c :: more.reverse
  | .lineEnds Option.none more => more.reverse

/-- A gap with one more part. -/
def extend (gap : Gap) : Part → Gap
  | .char _ => gap
  | .blank c =>
    match gap with
    | .blanks cs => .blanks (c :: cs)
    | .lineEnds first more => .lineEnds first more
  | .lineEnd c =>
    match gap with
    | .blanks _ => .lineEnds (some c) []
    | .lineEnds first more => .lineEnds first (c :: more)
  | .escapedEnd => .lineEnds Option.none []

end Gap

/-- The text of parts after a gap. What comes before an escaped line end is kept. -/
def fold (gap : Gap) : List Part → List Char
  | [] => gap.text
  | .char c :: rest => gap.text ++ c :: fold .none rest
  | .escapedEnd :: rest => gap.text ++ fold (gap.extend .escapedEnd) rest
  | part :: rest => fold (gap.extend part) rest

/-- The text of the parts of a scalar. -/
def foldParts (parts : List Part) : String :=
  String.ofList (fold .none parts)

end TestReach.Yaml
