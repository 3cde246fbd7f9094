import TestReach.Decimal.Numeral
import TestReach.Text.Quoted

/-!
# Documents

A document is what a YAML or JSON text holds before it is read as something: scalars, lists and
records. Scalars keep how they were written, since the two notations read them differently.

Documents are read as texts, numbers, choices, lists and records with named fields. A record may
have entries that no field is named after, but a field may be given once only.

JSON and YAML differ: in a JSON text a list may stand for a record, giving its fields in order; in a
YAML text every scalar is a text, and nothing at all is an empty list or record. Lists and records
nest to a limited depth; what no field reads is not counted.
-/

namespace TestReach

/-- A scalar as it was written. -/
inductive Scalar where
  /-- JSON's `null`. -/
  | null
  /-- JSON's `true` and `false`. -/
  | bool (value : Bool)
  /-- A JSON number. -/
  | number (numeral : Decimal.Numeral)
  /-- A JSON string; there is no text if an escape in it is half of a surrogate pair. -/
  | string (text : Option String)
  /-- A YAML scalar without quotes. -/
  | plain (text : String)
  /-- A YAML scalar in quotes, or one that is a block of lines. -/
  | quoted (text : String)
  deriving DecidableEq, Repr

/-- A document. The keys of a record are documents too, and may be repeated. -/
inductive Doc where
  | scalar (s : Scalar)
  | list (items : List Doc)
  | record (entries : List (Doc × Doc))
  deriving Repr, Inhabited

/-! ## Reading -/

/-- The rules of a notation. -/
structure Format where
  /-- A list may stand for a record, and a record for a choice. -/
  positional : Bool
  /-- How many lists and records may be open at once. -/
  depth : Nat

/-- The rules for JSON. -/
def Format.json : Format := ⟨true, 127⟩

/-- The rules for YAML. -/
def Format.yaml : Format := ⟨false, 128⟩

namespace Scalar

/-- The text of a scalar. In YAML any scalar is a text. -/
def text? : Scalar → Option String
  | .string text => text
  | .plain text => some text
  | .quoted text => some text
  | _ => none

/-- Whether a scalar stands for a missing value. -/
def isNull : Scalar → Bool
  | .null => true
  | .plain text => text = "" || text = "null" || text = "Null" || text = "NULL" || text = "~"
  | _ => false

/-- Whether nothing at all is written. -/
def isNothing : Scalar → Bool
  | .plain text => text = ""
  | _ => false

/-- The value of a digit of a base below 17. -/
def digitIn? (base : Nat) (c : Char) : Option Nat :=
  (Text.hexValue? c).filter (· < base)

/-- The number that digits of a base stand for, after those that stand for `n`. -/
def numberFrom? (base n : Nat) : List Char → Option Nat
  | [] => some n
  | c :: cs =>
    match digitIn? base c with
    | none => none
    | some d => numberFrom? base (base * n + d) cs

/-- Digits of a base, at least one, as a number of 64 bits. -/
def digitsIn? (base : Nat) (cs : List Char) : Option Nat :=
  if cs.isEmpty then none else (numberFrom? base 0 cs).filter (· ≤ Decimal.maxWord)

/-- An unsigned number of a YAML text: decimal without a leading zero, or with the mark of its base
before it; a plus sign may come first. -/
def plainCount? (text : String) : Option Nat :=
  let cs :=
    match text.toList with
    | '+' :: rest => rest
    | cs => cs
  match cs with
  | '0' :: 'x' :: rest => digitsIn? 16 rest
  | '0' :: 'o' :: rest => digitsIn? 8 rest
  | '0' :: 'b' :: rest => digitsIn? 2 rest
  | ['0'] => some 0
  | '0' :: _ => none
  | _ => digitsIn? 10 cs

/-- A number of a YAML text: a decimal numeral in range, or one of the words for infinity and for no
number. -/
def plainReal? (text : String) : Option Float :=
  let unsigned := if text.startsWith "+" then (text.drop 1).toString else text
  if text.startsWith "+" && (unsigned.startsWith "+" || unsigned.startsWith "-") then none
  else if unsigned = ".inf" ∨ unsigned = ".Inf" ∨ unsigned = ".INF" then
    some Decimal.infinity
  else if text = "-.inf" ∨ text = "-.Inf" ∨ text = "-.INF" then
    some (-Decimal.infinity)
  else if text = ".nan" ∨ text = ".NaN" ∨ text = ".NAN" then
    some Decimal.notANumber
  else
    match Decimal.parseFloat? unsigned with
    | some x => if x.isFinite then some x else none
    | none => none

/-- The unsigned number of a scalar. -/
def count? : Scalar → Option Nat
  | .number n => n.unsigned?
  | .plain text => plainCount? text
  | _ => none

/-- The number of a scalar. -/
def real? : Scalar → Option Float
  | .number n => n.scaled?
  | .plain text => plainReal? text
  | _ => none

end Scalar

namespace Doc

/-- A document read as a text. -/
def text? : Doc → Option String
  | .scalar s => s.text?
  | _ => none

/-- A document read as an unsigned number. -/
def count? : Doc → Option Nat
  | .scalar s => s.count?
  | _ => none

/-- A document read as a number. -/
def real? : Doc → Option Float
  | .scalar s => s.real?
  | _ => none

/-- A document read as something that may be missing. -/
def optional? {α : Type} (read : Doc → Option α) (doc : Doc) : Option (Option α) :=
  match doc with
  | .scalar s => if s.isNull then some none else (read doc).map some
  | _ => (read doc).map some

/-- A document read as a list, at most `depth` levels deep. -/
def list? {α : Type} (read : Doc → Option α) (depth : Nat) : Doc → Option (List α)
  | .list items => if depth = 0 then none else items.mapM read
  | .scalar s => if s.isNothing then some [] else none
  | .record _ => none

/-- A document read as one of some named choices. -/
def choice? {α : Type} (fmt : Format) (choices : List (String × α)) (depth : Nat) : Doc → Option α
  | .scalar s => s.text?.bind (List.lookup · choices)
  | .record [(.scalar key, .scalar .null)] =>
    if fmt.positional && depth ≠ 0 then key.text?.bind (List.lookup · choices) else none
  | _ => none

/-- The value of a field among the entries of a record, if it is there and not repeated. -/
def field? (name : String) (entries : List (Doc × Doc)) : Option (Option Doc) :=
  match entries.filter fun entry => entry.1.text? == some name with
  | [] => some none
  | [entry] => some (some entry.2)
  | _ => none

/-- A document read as a record: the values of the named fields, as far as they are there. -/
def record? (fmt : Format) (names : List String) (depth : Nat) : Doc → Option (List (Option Doc))
  | .record entries =>
    if depth = 0 || entries.any (fun entry => entry.1.text?.isNone) then none
    else names.mapM fun name => field? name entries
  | .list items =>
    if !fmt.positional || depth = 0 || names.length < items.length then none
    else some (items.map some ++ List.replicate (names.length - items.length) none)
  | .scalar s => if s.isNothing then some (names.map fun _ => none) else none

end Doc

/-! ## Fields -/

/-- A field that has to be there. -/
def required? {α : Type} (read : Doc → Option α) (field : Option Doc) : Option α :=
  field.bind read

/-- A field that may be left out. -/
def defaulted? {α : Type} (default : α) (read : Doc → Option α) : Option Doc → Option α
  | none => some default
  | some doc => read doc

/-- A field that may be left out or be null. -/
def optionalField? {α : Type} (read : Doc → Option α) : Option Doc → Option (Option α) :=
  defaulted? none (Doc.optional? read)

/-- A list of texts, which may be left out. -/
def textsField? (depth : Nat) : Option Doc → Option (List String) :=
  defaulted? [] (Doc.list? Doc.text? depth)

end TestReach
