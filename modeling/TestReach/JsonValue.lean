import TestReach.Decimal.Layout

/-!
# Writing JSON

Values to be written as JSON, on one line or with two spaces for each level. Only what has to be
escaped in a string is.
-/

namespace TestReach

/-- A value to be written as JSON. -/
inductive JsonValue where
  | null
  | bool (value : Bool)
  | count (n : Nat)
  | real (x : Float)
  | string (text : String)
  | array (items : List JsonValue)
  | object (fields : List (String × JsonValue))
  deriving Inhabited

namespace JsonValue

/-- A character inside a string. -/
def escapeChar (c : Char) : List Char :=
  match c with
  | '"' => ['\\', '"']
  | '\\' => ['\\', '\\']
  | '\x08' => ['\\', 'b']
  | '\x0c' => ['\\', 'f']
  | '\n' => ['\\', 'n']
  | '\r' => ['\\', 'r']
  | '\t' => ['\\', 't']
  | c =>
    if c.toNat < 0x20 then
      ['\\', 'u', '0', '0', Nat.digitChar (c.toNat / 16), Nat.digitChar (c.toNat % 16)]
    else [c]

/-- A string with its quotes. -/
def quote (text : String) : String :=
  "\"" ++ String.ofList (text.toList.flatMap escapeChar) ++ "\""

/-- A value without parts. -/
def atom : JsonValue → String
  | .null => "null"
  | .bool true => "true"
  | .bool false => "false"
  | .count n => toString n
  | .real x => Decimal.json x
  | .string text => quote text
  | .array _ => "[]"
  | .object _ => "\x7b\x7d"

/-! ## On one line -/

mutual

/-- A value on one line. -/
def compact : JsonValue → String
  | .array items => "[" ++ compactItems "" items ++ "]"
  | .object fields => "\x7b" ++ compactFields "" fields ++ "\x7d"
  | v => v.atom

/-- Items with commas between them; `before` stands before the first. -/
def compactItems (before : String) : List JsonValue → String
  | [] => ""
  | v :: rest => before ++ compact v ++ compactItems "," rest

/-- Fields with commas between them; `before` stands before the first. -/
def compactFields (before : String) : List (String × JsonValue) → String
  | [] => ""
  | (key, v) :: rest => before ++ quote key ++ ":" ++ compact v ++ compactFields "," rest

end

/-! ## Over lines -/

/-- The start of a line at some level. -/
def newLine (level : Nat) : String :=
  String.ofList ('\n' :: List.replicate (2 * level) ' ')

mutual

/-- A value over lines, from the level at which it starts. -/
def pretty (level : Nat) : JsonValue → String
  | .array (v :: rest) => "[" ++ prettyItems (level + 1) "" (v :: rest) ++ newLine level ++ "]"
  | .object (field :: rest) =>
    "\x7b" ++ prettyFields (level + 1) "" (field :: rest) ++ newLine level ++ "\x7d"
  | v => v.atom

/-- Items, each on a line of its own. -/
def prettyItems (level : Nat) (before : String) : List JsonValue → String
  | [] => ""
  | v :: rest => before ++ newLine level ++ pretty level v ++ prettyItems level "," rest

/-- Fields, each on a line of its own. -/
def prettyFields (level : Nat) (before : String) : List (String × JsonValue) → String
  | [] => ""
  | (key, v) :: rest =>
    before ++ newLine level ++ quote key ++ ": " ++ pretty level v ++ prettyFields level "," rest

end

/-- A list of strings. -/
def strings (texts : List String) : JsonValue :=
  .array (texts.map .string)

end JsonValue

end TestReach
