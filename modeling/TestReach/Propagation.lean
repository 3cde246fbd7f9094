/-!
# Propagation

How far the status of being tested travels from a test to the methods it calls.
-/

namespace TestReach

/-- How far tests reach. -/
inductive Propagation where
  /-- Through any number of calls. -/
  | transitive
  /-- Through one call only. -/
  | oneHop
  deriving DecidableEq, Repr, Inhabited

namespace Propagation

/-- The name of a mode. -/
def name : Propagation → String
  | .transitive => "transitive"
  | .oneHop => "one_hop"

/-- A letter in lower case, and an underscore for a dash. Only the Latin letters are changed: no
other letter has a lower case that occurs in the name of a mode. -/
def fold (c : Char) : Char :=
  if c = '-' then '_' else c.toLower

/-- Read the name of a mode; case does not matter, a dash may stand for the underscore, and the
underscore of `one_hop` may be missing. -/
def parse? (text : String) : Option Propagation :=
  let folded := String.ofList (text.toList.map fold)
  if folded = "transitive" then some .transitive
  else if folded = "one_hop" ∨ folded = "onehop" then some .oneHop
  else none

/-- The message for a text that names no mode. -/
def unknownMessage (text : String) : String :=
  "unknown propagation mode: " ++ text ++ " (expected 'transitive' or 'one_hop')"

end Propagation

end TestReach
