import TestReach.Document.Yaml.Glyph

/-!
# Block scalars

The lines of a block scalar follow its mark and are indented. In a literal block line ends stay; in
a folded one a single line end between two lines that do not start with a blank becomes a space. The
line ends after the last line are dropped, kept, or reduced to one, as the mark says.
-/

namespace TestReach.Yaml

/-- What becomes of the line ends at the end of a block. -/
inductive Chomping where
  | strip
  | clip
  | keep
  deriving DecidableEq, Repr

/-- What follows the mark of a block: its chomping, and how deep it is indented if that is said. -/
structure BlockHeader where
  chomping : Chomping := .clip
  indentation : Option Nat := none
  deriving DecidableEq, Repr

def chompingOf? (c : Char) : Option Chomping :=
  if c = '+' then some .keep else if c = '-' then some .strip else none

/-- A digit that says how deep a block is indented. -/
def indentationOf? (c : Char) : Option Nat :=
  if c.isDigit && c ≠ '0' then some (c.toNat - '0'.toNat) else none

/-- The rest of the line of a mark: blanks and a comment. -/
def restOfLine? : List Glyph → Option (List Glyph)
  | [] => some []
  | g :: rest =>
    if isBreak g.char then some rest
    else if isBlank g.char then restOfLine? rest
    else if g.char = '#' then
      match rest.dropWhile fun g => !isBreak g.char with
      | [] => some []
      | _ :: rest => some rest
    else none

/-- Read the header of a block: a sign and a digit in any order, each at most once. -/
def blockHeader? (gs : List Glyph) : Option (BlockHeader × List Glyph) :=
  let (header, rest) : BlockHeader × List Glyph :=
    match gs with
    | a :: b :: rest =>
      match chompingOf? a.char, indentationOf? a.char, chompingOf? b.char,
          indentationOf? b.char with
      | some chomping, _, _, some i => (⟨chomping, some i⟩, rest)
      | _, some i, some chomping, _ => (⟨chomping, some i⟩, rest)
      | some chomping, _, _, _ => (⟨chomping, none⟩, b :: rest)
      | _, some i, _, _ => (⟨.clip, some i⟩, b :: rest)
      | _, _, _, _ => ({}, gs)
    | [a] =>
      match chompingOf? a.char, indentationOf? a.char with
      | some chomping, _ => (⟨chomping, none⟩, [])
      | _, some i => (⟨.clip, some i⟩, [])
      | _, _ => ({}, gs)
    | [] => ({}, [])
  (restOfLine? rest).map fun rest => (header, rest)

/-- Pass over indentation and empty lines. `most` is the furthest column reached, `ends` holds the
line ends, the last first. As long as the indentation is not known all spaces belong to it. A tab
may not stand for indentation. -/
def emptyLines? (indent : Option Nat) (most : Nat) (ends : List Char) :
    List Glyph → Option (Nat × List Char × List Glyph)
  | [] => some (most, ends, [])
  | g :: rest =>
    let inIndentation := indent.all (g.column < ·)
    if inIndentation && g.char = ' ' then emptyLines? indent most ends rest
    else if inIndentation && g.char = '\t' then none
    else if isBreak g.char then emptyLines? indent (max most g.column) (g.char :: ends) rest
    else some (max most g.column, ends, g :: rest)

/-- What stands between the text so far and the next line: the end of the line before, if there was
one, and the empty lines since. -/
def lineJoint (folded : Bool) (lastEnd : Option Char) (ends : List Char)
    (afterBlank beforeBlank : Bool) : List Char :=
  if folded && lastEnd = some '\n' && !afterBlank && !beforeBlank then
    if ends.isEmpty then [' '] else ends.reverse
  else lastEnd.toList ++ ends.reverse

/-- The end of a block, by its chomping. -/
def blockEnd (chomping : Chomping) (lastEnd : Option Char) (ends : List Char) : List Char :=
  match chomping with
  | .strip => []
  | .clip => lastEnd.toList
  | .keep => lastEnd.toList ++ ends.reverse

/-- Read the lines of a block that is indented to a column, at most `n` of them. -/
def blockLines? (folded : Bool) (chomping : Chomping) (indent : Nat) :
    Nat → (lastEnd : Option Char) → (ends : List Char) → (afterBlank : Bool) → List Glyph →
      Option (List Char × List Glyph)
  | n + 1, lastEnd, ends, afterBlank, g :: rest =>
    if g.column = indent then do
      let startsBlank := isBlank g.char
      let line := (g :: rest).takeWhile fun g => !isBreak g.char
      let (lineEnd, after) :=
        match (g :: rest).dropWhile fun g => !isBreak g.char with
        | [] => (none, [])
        | e :: after => (some e.char, after)
      let (_, nextEnds, after) ← emptyLines? (some indent) 0 [] after
      let (text, after) ← blockLines? folded chomping indent n lineEnd nextEnds startsBlank after
      return (lineJoint folded lastEnd ends afterBlank startsBlank ++ line.map (·.char) ++ text,
        after)
    else some (blockEnd chomping lastEnd ends, g :: rest)
  | _, lastEnd, ends, _, gs => some (blockEnd chomping lastEnd ends, gs)

/-- Read a block scalar after its mark, inside of blocks that are indented less than `least`. -/
def block? (folded : Bool) (least : Nat) (gs : List Glyph) : Option (String × List Glyph) := do
  let (header, gs) ← blockHeader? gs
  let said := header.indentation.map fun i => if least = 0 then i else least - 1 + i
  let (most, ends, gs) ← emptyLines? said 0 [] gs
  let indent := said.getD (max most (max least 1))
  let (text, gs) ← blockLines? folded header.chomping indent gs.length none ends false gs
  return (String.ofList text, gs)

end TestReach.Yaml
