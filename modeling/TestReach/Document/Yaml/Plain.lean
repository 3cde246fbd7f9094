import TestReach.Document.Yaml.Folding

/-!
# Scalars without quotes

A plain scalar goes on, also over lines that are indented, until a colon or a comment ends it;
inside brackets a comma or a bracket does as well.
-/

namespace TestReach.Yaml

/-- What was read of a plain scalar. -/
structure PlainScalar where
  text : String
  /-- A line end follows the scalar. -/
  brokenOff : Bool
  rest : List Glyph

/-- Brackets and commas, which end a plain scalar inside brackets. -/
def isFlowMark (c : Char) : Bool :=
  c = ',' || c = '[' || c = ']' || c = '{' || c = '}'

/-- Whether a part belongs to a gap. -/
def Part.inGap : Part → Bool
  | .char _ => false
  | _ => true

def Part.endsLine : Part → Bool
  | .lineEnd _ => true
  | _ => false

/-- The scalar of parts, the last first; blanks at its end do not belong to it. -/
def PlainScalar.ofParts (parts : List Part) (rest : List Glyph) : PlainScalar where
  text := foldParts (parts.dropWhile Part.inGap).reverse
  brokenOff := (parts.takeWhile Part.inGap).any Part.endsLine
  rest := rest

/-- Whether a scalar ends here after a gap: at a comment, at the mark of a document, or, outside of
brackets, at a line that is not indented enough. -/
def endsAfterGap (flow : Bool) (indent : Nat) : List Glyph → Bool
  | [] => true
  | g :: rest => g.char = '#' || atDocumentMark (g :: rest) || (!flow && g.column < indent)

/-- Whether a scalar ends at a character inside a word. -/
def endsWord (flow : Bool) (c : Char) (rest : List Glyph) : Bool :=
  (c = ':' && atGap rest) || (flow && isFlowMark c)

/-- Whether a colon is misplaced: inside brackets, before a mark of theirs. -/
def misplacedColon (flow : Bool) (c : Char) : List Glyph → Bool
  | [] => false
  | next :: _ => flow && c = ':' && (isFlowMark next.char || next.char = '?')

/-- Read on after the parts read so far, the last first. A tab may not stand for indentation. -/
def plainFrom? (flow : Bool) (indent : Nat) (parts : List Part) :
    List Glyph → Option PlainScalar
  | [] => some (.ofParts parts [])
  | g :: rest =>
    if isBlank g.char then
      if g.char = '\t' && g.column < indent && (parts.takeWhile Part.inGap).any Part.endsLine then
        none
      else plainFrom? flow indent (.blank g.char :: parts) rest
    else if isBreak g.char then plainFrom? flow indent (.lineEnd g.char :: parts) rest
    else if parts.head?.any Part.inGap && endsAfterGap flow indent (g :: rest) then
      some (.ofParts parts (g :: rest))
    else if misplacedColon flow g.char rest then none
    else if endsWord flow g.char rest then some (.ofParts parts (g :: rest))
    else plainFrom? flow indent (.char g.char :: parts) rest

end TestReach.Yaml
