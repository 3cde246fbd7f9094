import TestReach.Document.Yaml.Folding
import TestReach.Text.Quoted

/-!
# Scalars in quotes

In single quotes only the quote itself is special: it is written twice. In double quotes a backslash
starts an escape. Lines are folded in both.
-/

namespace TestReach.Yaml

/-- What a character after a backslash stands for. -/
inductive Escape where
  | char (c : Char)
  /-- That many hexadecimal digits follow. -/
  | hex (digits : Nat)
  deriving DecidableEq, Repr

/-- The escape of a character after a backslash. -/
def escape? (c : Char) : Option Escape :=
  match c with
  | '0' => some (.char '\x00')
  | 'a' => some (.char '\x07')
  | 'b' => some (.char '\x08')
  | 't' => some (.char '\t')
  | '\t' => some (.char '\t')
  | 'n' => some (.char '\n')
  | 'v' => some (.char '\x0b')
  | 'f' => some (.char '\x0c')
  | 'r' => some (.char '\r')
  | 'e' => some (.char '\x1b')
  | ' ' => some (.char ' ')
  | '"' => some (.char '"')
  | '/' => some (.char '/')
  | '\\' => some (.char '\\')
  | 'N' => some (.char '\u0085')
  | '_' => some (.char '\u00a0')
  | 'L' => some (.char '\u2028')
  | 'P' => some (.char '\u2029')
  | 'x' => some (.hex 2)
  | 'u' => some (.hex 4)
  | 'U' => some (.hex 8)
  | _ => none

/-- The character of a number; surrogates and what is too large are none. -/
def charOf? (n : Nat) : Option Char :=
  if (0xD800 ≤ n && n ≤ 0xDFFF) || 0x10FFFF < n then none else some (Char.ofNat n)

/-- The part of a glyph that is not special. -/
def partOf (c : Char) : Part :=
  if isBlank c then .blank c else if isBreak c then .lineEnd c else .char c

/-- Read a scalar in single quotes, after the opening one; `parts` holds what is read, the last
first. -/
def singleFrom? (parts : List Part) : List Glyph → Option (String × List Glyph)
  | [] => none
  | g :: rest =>
    if atDocumentMark (g :: rest) then none
    else if g.char = '\'' then
      match rest with
      | next :: rest =>
        if next.char = '\'' then singleFrom? (.char '\'' :: parts) rest
        else some (foldParts parts.reverse, next :: rest)
      | [] => some (foldParts parts.reverse, [])
    else singleFrom? (partOf g.char :: parts) rest

/-- How far an escape in double quotes is read. -/
inductive EscapeState where
  /-- No escape is open. -/
  | closed
  /-- A backslash was read. -/
  | opened
  /-- Digits are read: how many are left, and the value of those read. -/
  | digits (left value : Nat)
  deriving DecidableEq, Repr

/-- Read a scalar in double quotes, after the opening one; `parts` holds what is read, the last
first. -/
def doubleFrom? (parts : List Part) (state : EscapeState) :
    List Glyph → Option (String × List Glyph)
  | [] => none
  | g :: rest =>
    match state with
    | .closed =>
      if atDocumentMark (g :: rest) then none
      else if g.char = '"' then some (foldParts parts.reverse, rest)
      else if g.char = '\\' then doubleFrom? parts .opened rest
      else doubleFrom? (partOf g.char :: parts) .closed rest
    | .opened =>
      if isBreak g.char then doubleFrom? (.escapedEnd :: parts) .closed rest
      else
        match escape? g.char with
        | none => none
        | some (.char c) => doubleFrom? (.char c :: parts) .closed rest
        | some (.hex digits) => doubleFrom? parts (.digits digits 0) rest
    | .digits left value =>
      match Text.hexValue? g.char with
      | none => none
      | some d =>
        let value := 16 * value + d
        if left ≤ 1 then
          match charOf? value with
          | none => none
          | some c => doubleFrom? (.char c :: parts) .closed rest
        else doubleFrom? parts (.digits (left - 1) value) rest

end TestReach.Yaml
