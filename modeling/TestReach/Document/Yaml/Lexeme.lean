import TestReach.Document
import TestReach.Document.Yaml.Block
import TestReach.Document.Yaml.Plain
import TestReach.Document.Yaml.Quoted

/-!
# Lexemes

The lexemes of a text: scalars, brackets, marks, and the starts and ends of blocks, which follow
from indentation. What turns out to be the key of an entry is known only when its colon is met; so
the place where a key may have started is kept, and the mark of a key is put in there afterwards. A
key is at most 1024 bytes long and stands on one line.
-/

namespace TestReach.Yaml

/-- A lexeme. -/
inductive Lexeme where
  /-- The directive that says which version of the format a document is written in. -/
  | version (major minor : Nat)
  | documentStart
  | documentEnd
  | scalar (s : Scalar)
  | blockList
  | blockRecord
  | blockEnd
  | item
  | key
  | value
  | openList
  | closeList
  | openRecord
  | closeRecord
  | comma
  deriving DecidableEq, Repr

/-- Where a key may have started. -/
structure KeyStart where
  /-- How many lexemes come before it. -/
  place : Nat
  line : Nat
  column : Nat
  /-- How many bytes come before it in its line. -/
  offset : Nat
  /-- Nothing but a key can stand here. -/
  required : Bool
  deriving DecidableEq, Repr

/-- The state between two lexemes. -/
structure Scan where
  /-- The lexemes so far, the last first. -/
  lexemes : List Lexeme := []
  /-- The columns of the open blocks, the innermost first. -/
  columns : List Nat := []
  /-- Where a key may have started since the innermost open bracket. -/
  key : Option KeyStart := none
  /-- The same for each open bracket, outside of it, the innermost first. -/
  outerKeys : List (Option KeyStart) := []
  /-- A key may start here. -/
  keyAllowed : Bool := true
  deriving DecidableEq, Repr

namespace Scan

/-- Whether a bracket is open. -/
def inFlow (s : Scan) : Bool :=
  !s.outerKeys.isEmpty

/-- The least column that is indented further than the innermost block. -/
def least (s : Scan) : Nat :=
  match s.columns with
  | [] => 0
  | column :: _ => column + 1

def push (s : Scan) (l : Lexeme) : Scan :=
  { s with lexemes := l :: s.lexemes }

/-- Put a lexeme in after the first `place` ones. -/
def insertAt (s : Scan) (place : Nat) (l : Lexeme) : Scan :=
  let newer := s.lexemes.length - place
  { s with lexemes := s.lexemes.take newer ++ l :: s.lexemes.drop newer }

/-! ## Blocks -/

/-- Open a block at a column, unless one is open there or a bracket is; its start goes after the
first `place` lexemes. -/
def openBlock (s : Scan) (column place : Nat) (start : Lexeme) : Scan :=
  if s.inFlow || column < s.least then s
  else { s.insertAt place start with columns := column :: s.columns }

/-- Put in the ends of blocks that are indented further than a column. -/
def endBlocks (column : Nat) : List Nat → List Lexeme → List Nat × List Lexeme
  | [], lexemes => ([], lexemes)
  | c :: rest, lexemes =>
    if column < c then endBlocks column rest (.blockEnd :: lexemes) else (c :: rest, lexemes)

/-- Close the blocks that are indented further than a column. -/
def closeBlocks (s : Scan) (column : Nat) : Scan :=
  if s.inFlow then s
  else
    let (columns, lexemes) := endBlocks column s.columns s.lexemes
    { s with columns, lexemes }

/-- Close all blocks. -/
def closeAll (s : Scan) : Scan :=
  if s.inFlow then s
  else { s with columns := [], lexemes := s.columns.map (fun _ => .blockEnd) ++ s.lexemes }

/-! ## Keys -/

/-- Give up the key that may have started; none can be given up that is required. -/
def dropKey? (s : Scan) : Option Scan :=
  if s.key.any (·.required) then none else some { s with key := none }

/-- Keep in mind that a key may start at a glyph. -/
def markKey? (s : Scan) (g : Glyph) : Option Scan :=
  if !s.keyAllowed then some s
  else
    s.dropKey?.map fun s =>
      let required := !s.inFlow && s.columns.head? == some g.column
      { s with key := some ⟨s.lexemes.length, g.line, g.column, g.offset, required⟩ }

/-- Whether a key that may have started can still end at a glyph. -/
def KeyStart.isCurrent (k : KeyStart) (g : Glyph) : Bool :=
  k.line = g.line && g.offset ≤ k.offset + 1024

/-- A key that may have started, if it can still end at a glyph; a required one has to. -/
def currentKey? (g : Glyph) : Option KeyStart → Option (Option KeyStart)
  | none => some none
  | some k =>
    if KeyStart.isCurrent k g then some (some k) else if k.required then none else some none

/-- Give up the keys that cannot end at a glyph any more. -/
def dropOldKeys? (s : Scan) (g : Glyph) : Option Scan := do
  let key ← currentKey? g s.key
  let outerKeys ← s.outerKeys.mapM (currentKey? g)
  return { s with key, outerKeys }

/-! ## Single lexemes -/

/-- A scalar that starts at a glyph. -/
def scalar? (s : Scan) (g : Glyph) (content : Scalar) : Option Scan :=
  (s.markKey? g).map fun s => { s.push (.scalar content) with keyAllowed := false }

/-- An opening bracket at a glyph. -/
def openBracket? (s : Scan) (g : Glyph) (l : Lexeme) : Option Scan :=
  (s.markKey? g).map fun s =>
    { s.push l with key := none, outerKeys := s.key :: s.outerKeys, keyAllowed := true }

/-- A closing bracket. -/
def closeBracket? (s : Scan) (l : Lexeme) : Option Scan :=
  s.dropKey?.map fun s =>
    match s.outerKeys with
    | [] => { s.push l with keyAllowed := false }
    | key :: outerKeys => { s.push l with key, outerKeys, keyAllowed := false }

/-- A comma between brackets. -/
def comma? (s : Scan) : Option Scan :=
  s.dropKey?.map fun s => { s.push .comma with keyAllowed := true }

/-- The mark of an item of a block list. -/
def item? (s : Scan) (g : Glyph) : Option Scan :=
  if !s.inFlow && !s.keyAllowed then none
  else
    (s.openBlock g.column s.lexemes.length .blockList).dropKey?.map fun s =>
      { s.push .item with keyAllowed := true }

/-- The mark of a key that is set apart. -/
def apartKey? (s : Scan) (g : Glyph) : Option Scan :=
  if !s.inFlow && !s.keyAllowed then none
  else
    (s.openBlock g.column s.lexemes.length .blockRecord).dropKey?.map fun s =>
      { s.push .key with keyAllowed := !s.inFlow }

/-- The colon of an entry. -/
def value? (s : Scan) (g : Glyph) : Option Scan :=
  match s.key with
  | some k =>
    let s := s.insertAt k.place .key
    let s := s.openBlock k.column k.place .blockRecord
    some { s.push .value with key := none, keyAllowed := false }
  | none =>
    if s.inFlow then some { s.push .value with keyAllowed := false }
    else if !s.keyAllowed then none
    else
      let s := s.openBlock g.column s.lexemes.length .blockRecord
      some { s.push .value with keyAllowed := true }

/-- The mark of the start or the end of a document. -/
def documentMark? (s : Scan) (l : Lexeme) : Option Scan :=
  s.closeAll.dropKey?.map fun s => { s.push l with keyAllowed := false }

/-! ## Directives -/

/-- Read a number of a version: one to nine digits. -/
def versionNumber? (gs : List Glyph) : Option (Nat × List Glyph) :=
  let digits := gs.takeWhile (·.char.isDigit)
  if digits.isEmpty || 9 < digits.length then none
  else
    some (digits.foldl (fun n g => 10 * n + (g.char.toNat - '0'.toNat)) 0,
      gs.drop digits.length)

/-- Read a directive after its percent sign. There is only the one for the version. -/
def directive? (s : Scan) (rest : List Glyph) : Option (Scan × List Glyph) := do
  let s ← s.closeAll.dropKey?
  let (name, rest) := (rest.takeWhile fun g => !isBlank g.char && !isBreak g.char,
    rest.dropWhile fun g => !isBlank g.char && !isBreak g.char)
  if name.map (·.char) ≠ "YAML".toList then none
  else
    let (major, rest) ← versionNumber? (rest.dropWhile fun g => isBlank g.char)
    match rest with
    | [] => none
    | point :: rest =>
      if point.char ≠ '.' then none
      else
        let (minor, rest) ← versionNumber? rest
        let rest ← restOfLine? rest
        return ({ s.push (.version major minor) with keyAllowed := false }, rest)

/-! ## Scanning -/

/-- Pass over blanks, comments and line ends; a key may start on a new line. Where a key may start a
tab is no blank. A byte order mark at the start of a line is passed over too. -/
def passGaps (flow keyAllowed inComment : Bool) : List Glyph → Bool × List Glyph
  | [] => (keyAllowed, [])
  | g :: rest =>
    if isBreak g.char then passGaps flow (keyAllowed || !flow) false rest
    else if inComment then passGaps flow keyAllowed true rest
    else if g.char = '#' then passGaps flow keyAllowed true rest
    else if g.char = ' ' || (g.char = '\t' && (flow || !keyAllowed)) ||
        (g.char = '\ufeff' && g.column = 0) then
      passGaps flow keyAllowed false rest
    else (keyAllowed, g :: rest)

/-- Characters that no plain scalar starts with, a dash, a question mark and a colon apart. -/
def isIndicator (c : Char) : Bool :=
  isFlowMark c || c = '#' || c = '&' || c = '*' || c = '!' || c = '|' || c = '>' || c = '\'' ||
    c = '"' || c = '%' || c = '@' || c = '\x60'

/-- Whether a plain scalar starts with a character. -/
def startsPlain (flow : Bool) (c : Char) (rest : List Glyph) : Bool :=
  if c = '-' then
    match rest with
    | [] => true
    | next :: _ => !isBlank next.char
  else if c = '?' ∨ c = ':' then !flow && !atGap rest
  else !isIndicator c

/-- Read a plain scalar. -/
def plain? (s : Scan) (g : Glyph) (rest : List Glyph) : Option (Scan × List Glyph) := do
  let flow := s.inFlow
  let read ← plainFrom? flow s.least [] (g :: rest)
  let s ← s.scalar? g (.plain read.text)
  return ({ s with keyAllowed := s.keyAllowed || read.brokenOff }, read.rest)

/-- Read a block scalar. -/
def blockScalar? (s : Scan) (folded : Bool) (rest : List Glyph) : Option (Scan × List Glyph) := do
  let s ← s.dropKey?
  let (text, rest) ← block? folded s.least rest
  return ({ s.push (.scalar (.quoted text)) with keyAllowed := true }, rest)

/-- Read a scalar in quotes. -/
def quoted? (s : Scan) (g : Glyph) (rest : List Glyph) : Option (Scan × List Glyph) := do
  let (text, rest) ←
    if g.char = '"' then doubleFrom? [] .closed rest else singleFrom? [] rest
  let s ← s.scalar? g (.quoted text)
  return (s, rest)

/-- Read the lexeme that starts at a glyph. -/
def lexeme? (s : Scan) (g : Glyph) (rest : List Glyph) : Option (Scan × List Glyph) :=
  let c := g.char
  let alone (s : Option Scan) : Option (Scan × List Glyph) := s.map fun s => (s, rest)
  if c = '%' && g.column = 0 then s.directive? rest
  else if atDocumentMark (g :: rest) then
    (s.documentMark? (if c = '-' then .documentStart else .documentEnd)).map fun s =>
      (s, rest.drop 2)
  else if c = '[' then alone (s.openBracket? g .openList)
  else if c = '{' then alone (s.openBracket? g .openRecord)
  else if c = ']' then alone (s.closeBracket? .closeList)
  else if c = '}' then alone (s.closeBracket? .closeRecord)
  else if c = ',' then alone s.comma?
  else if c = '-' && atGap rest then alone (s.item? g)
  else if c = '?' && (s.inFlow || atGap rest) then alone (s.apartKey? g)
  else if c = ':' && (s.inFlow || atGap rest) then alone (s.value? g)
  else if (c = '|' || c = '>') && !s.inFlow then s.blockScalar? (c = '>') rest
  else if c = '\'' || c = '"' then s.quoted? g rest
  else if !isBlank c && startsPlain s.inFlow c rest then s.plain? g rest
  else none

/-- Read all lexemes; every step but the last takes a glyph, and `n` bounds their number. -/
def run? : Nat → Scan → List Glyph → Option Scan
  | 0, _, _ => none
  | n + 1, s, gs =>
    match passGaps s.inFlow s.keyAllowed false gs with
    | (_, []) => s.closeAll.dropKey?
    | (keyAllowed, g :: rest) => do
      let s ← { s with keyAllowed }.dropOldKeys? g
      let (s, rest) ← (s.closeBlocks g.column).lexeme? g rest
      run? n s rest

end Scan

/-- The lexemes of glyphs. -/
def lexemes? (gs : List Glyph) : Option (List Lexeme) :=
  (Scan.run? (gs.length + 1) {} gs).map (·.lexemes.reverse)

end TestReach.Yaml
