import TestReach.Document
import TestReach.Text.Quoted

/-!
# Reading JSON

The documents of JSON texts. Reading is strict: there is one value with nothing but spaces around
it, no character below U+0020 stands in a string, and numbers have no spare zeros.
-/

namespace TestReach.Json

/-- A space, a tab or a line end. -/
def isSpace (c : Char) : Bool :=
  c = ' ' || c = '\n' || c = '\t' || c = '\r'

def skipSpace (cs : List Char) : List Char :=
  cs.dropWhile isSpace

/-! ## Strings -/

/-- The value of four hexadecimal digits. -/
def hex4? (a b c d : Char) : Option Nat :=
  match Text.hexValue? a, Text.hexValue? b, Text.hexValue? c, Text.hexValue? d with
  | some a, some b, some c, some d => some (((a * 16 + b) * 16 + c) * 16 + d)
  | _, _, _, _ => none

/-- The character that a letter after a backslash stands for. -/
def simpleEscape? (c : Char) : Option Char :=
  match c with
  | '"' => some '"'
  | '\\' => some '\\'
  | '/' => some '/'
  | 'b' => some '\x08'
  | 'f' => some '\x0c'
  | 'n' => some '\n'
  | 'r' => some '\r'
  | 't' => some '\t'
  | _ => none

def isHighSurrogate (n : Nat) : Bool :=
  0xD800 ≤ n && n < 0xDC00

def isLowSurrogate (n : Nat) : Bool :=
  0xDC00 ≤ n && n < 0xE000

/-- The character of a surrogate pair. -/
def pairChar (high low : Nat) : Char :=
  Char.ofNat (0x10000 + (high - 0xD800) * 0x400 + (low - 0xDC00))

/-- Read a string after its opening quote. `text` holds the characters so far, the last first, as
long as they are a text; the high half of a surrogate pair waits in `high` for the low one. -/
def stringRest (text : Option (List Char)) (high : Option Nat) :
    List Char → Option (Option String × List Char)
  | [] => none
  | '"' :: rest =>
    let text := if high.isSome then none else text
    some (text.map fun cs => String.ofList cs.reverse, rest)
  | '\\' :: 'u' :: a :: b :: c :: d :: rest =>
    match hex4? a b c d with
    | none => none
    | some n =>
      match high with
      | some h =>
        if isLowSurrogate n then stringRest (text.map (pairChar h n :: ·)) none rest
        else if isHighSurrogate n then stringRest none (some n) rest
        else stringRest none none rest
      | none =>
        if isLowSurrogate n then stringRest none none rest
        else if isHighSurrogate n then stringRest text (some n) rest
        else stringRest (text.map (Char.ofNat n :: ·)) none rest
  | '\\' :: c :: rest =>
    match simpleEscape? c with
    | none => none
    | some e => stringRest (if high.isSome then none else text.map (e :: ·)) none rest
  | c :: rest =>
    if c.toNat < 0x20 || c = '\\' then none
    else stringRest (if high.isSome then none else text.map (c :: ·)) none rest

/-! ## Numbers -/

/-- The digits before the point: a zero alone, or no zero at the start. -/
def wholeDigits? (cs : List Char) : Option (List Char × List Char) :=
  match cs with
  | '0' :: rest => some (['0'], rest)
  | c :: _ => if c.isDigit then some (Decimal.Numeral.spanDigits cs) else none
  | [] => none

/-- The digits after a point, if there is one; a point needs a digit after it. -/
def fractionDigits? (cs : List Char) : Option (Option (List Char) × List Char) :=
  match cs with
  | '.' :: rest =>
    match Decimal.Numeral.spanDigits rest with
    | ([], _) => none
    | (digits, rest) => some (some digits, rest)
  | _ => some (none, cs)

/-- An exponent, if there is one; its mark needs a digit after it. -/
def exponentPart? (cs : List Char) : Option (Option Int × List Char) :=
  match cs with
  | c :: rest =>
    if c = 'e' ∨ c = 'E' then
      let (negative, rest) :=
        match rest with
        | '-' :: rest => (true, rest)
        | '+' :: rest => (false, rest)
        | _ => (false, rest)
      match Decimal.Numeral.spanDigits rest with
      | ([], _) => none
      | (digits, rest) =>
        let value : Int := Decimal.natOfDigits digits
        some (some (if negative then -value else value), rest)
    else some (none, cs)
  | [] => some (none, [])

/-- Read a number. -/
def number? (cs : List Char) : Option (Decimal.Numeral × List Char) :=
  let (negative, cs) :=
    match cs with
    | '-' :: rest => (true, rest)
    | _ => (false, cs)
  match wholeDigits? cs with
  | none => none
  | some (whole, cs) =>
    match fractionDigits? cs with
    | none => none
    | some (fraction, cs) =>
      match exponentPart? cs with
      | none => none
      | some (exponent, cs) =>
        let numeral : Decimal.Numeral :=
          { negative, whole, fraction := fraction.getD [], exponent := exponent.getD 0
            isWhole := fraction.isNone && exponent.isNone }
        some (numeral, cs)

/-! ## Values -/

/-- Read the rest of a text after a word. -/
def word? (word : String) (s : Scalar) (cs : List Char) : Option (Doc × List Char) :=
  if word.toList.isPrefixOf cs then some (.scalar s, cs.drop word.length) else none

/-- Read a string that starts here. -/
def string? : List Char → Option (Doc × List Char)
  | '"' :: rest => (stringRest (some []) none rest).map fun (text, rest) =>
      (.scalar (.string text), rest)
  | _ => none

mutual

/-- Read a value; `n` bounds the number of nested steps. -/
def value? : Nat → List Char → Option (Doc × List Char)
  | 0, _ => none
  | n + 1, cs =>
    match cs with
    | '[' :: rest =>
      match skipSpace rest with
      | ']' :: rest => some (.list [], rest)
      | rest => items? n [] rest
    | '{' :: rest =>
      match skipSpace rest with
      | '}' :: rest => some (.record [], rest)
      | rest => members? n [] rest
    | '"' :: _ => string? cs
    | 't' :: _ => word? "true" (.bool true) cs
    | 'f' :: _ => word? "false" (.bool false) cs
    | 'n' :: _ => word? "null" .null cs
    | _ => (number? cs).map fun (numeral, rest) => (.scalar (.number numeral), rest)

/-- Read the items of a list after those of `done`, the last first. -/
def items? : Nat → List Doc → List Char → Option (Doc × List Char)
  | 0, _, _ => none
  | n + 1, done, cs =>
    match value? n cs with
    | none => none
    | some (item, rest) =>
      match skipSpace rest with
      | ',' :: rest => items? n (item :: done) (skipSpace rest)
      | ']' :: rest => some (.list (item :: done).reverse, rest)
      | _ => none

/-- Read the entries of a record after those of `done`, the last first. -/
def members? : Nat → List (Doc × Doc) → List Char → Option (Doc × List Char)
  | 0, _, _ => none
  | n + 1, done, cs =>
    match string? cs with
    | none => none
    | some (key, rest) =>
      match skipSpace rest with
      | ':' :: rest =>
        match value? n (skipSpace rest) with
        | none => none
        | some (item, rest) =>
          match skipSpace rest with
          | ',' :: rest => members? n ((key, item) :: done) (skipSpace rest)
          | '}' :: rest => some (.record ((key, item) :: done).reverse, rest)
          | _ => none
      | _ => none

end

/-- The document of a JSON text. -/
def read? (text : String) : Option Doc :=
  match value? (2 * text.length + 2) (skipSpace text.toList) with
  | some (doc, rest) => if (skipSpace rest).isEmpty then some doc else none
  | none => none

end TestReach.Json
