/-!
# Glyphs

A glyph is a character with its place in the text. Lines may end in several ways; all but the two
Unicode separators count as a line feed.
-/

namespace TestReach.Yaml

/-- A character with its line and column, both from zero. -/
structure Glyph where
  char : Char
  line : Nat
  column : Nat
  /-- How many bytes come before it in its line. -/
  offset : Nat
  deriving DecidableEq, Repr

/-- A space or a tab. -/
def isBlank (c : Char) : Bool :=
  c = ' ' || c = '\t'

/-- The end of a line, once line ends are made uniform. -/
def isBreak (c : Char) : Bool :=
  c = '\n' || c = '\u2028' || c = '\u2029'

/-- Whether a text may hold a character at all. -/
def isReadable (c : Char) : Bool :=
  let n := c.toNat
  n = 0x09 || n = 0x0A || n = 0x0D || (0x20 ≤ n && n ≤ 0x7E) || n = 0x85 ||
    (0xA0 ≤ n && n ≤ 0xFFFD) || 0x10000 ≤ n

/-- Write each line end other than the separators as one line feed. -/
def uniformBreaks : List Char → List Char
  | '\r' :: '\n' :: rest => '\n' :: uniformBreaks rest
  | c :: rest => (if c = '\r' ∨ c = '\u0085' then '\n' else c) :: uniformBreaks rest
  | [] => []

/-- The glyphs of characters that start at a place. -/
def placeFrom (line column offset : Nat) : List Char → List Glyph
  | [] => []
  | c :: rest =>
    ⟨c, line, column, offset⟩ ::
      if isBreak c then placeFrom (line + 1) 0 0 rest
      else placeFrom line (column + 1) (offset + c.utf8Size) rest

/-- The glyphs of a text, if all its characters are readable. -/
def glyphs? (text : String) : Option (List Glyph) :=
  if text.toList.all isReadable then some (placeFrom 0 0 0 (uniformBreaks text.toList)) else none

/-- Whether a blank, a line end or the end of the text comes next. -/
def atGap : List Glyph → Bool
  | [] => true
  | g :: _ => isBlank g.char || isBreak g.char

/-- Whether a line starts here with the mark of the start or the end of a document. -/
def atDocumentMark : List Glyph → Bool
  | a :: b :: c :: rest =>
    a.column = 0 && (a.char = '-' || a.char = '.') && b.char = a.char && c.char = a.char &&
      atGap rest
  | _ => false

end TestReach.Yaml
