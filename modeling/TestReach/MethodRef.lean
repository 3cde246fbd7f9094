import TestReach.Text.Blank
import TestReach.Text.Pieces

/-!
# References to methods

A method is referred to by `type::name`, or by `type::name(parameters)` to tell overloads apart.
The last `::` divides type from method, the first `(` after it starts the parameters, and commas
divide parameters where no bracket is open. Blanks at the ends of the parts and anywhere between
the parentheses do not count.
-/

namespace TestReach

/-- A reference to a method; without a parameter list it means any overload of the name. -/
structure MethodRef where
  typeName : String
  name : String
  parameters : Option (List String)
  deriving DecidableEq, Repr

namespace MethodRef

/-- The parts before and after the last `::`. -/
def cutAtLast : List Char → Option (List Char × List Char)
  | [] => none
  | ':' :: ':' :: rest =>
    match cutAtLast (':' :: rest) with
    | some (before, after) => some (':' :: before, after)
    | none => some ([], rest)
  | c :: rest => (cutAtLast rest).map fun (before, after) => (c :: before, after)

/-- The depth of open brackets after one more character. A bracket that closes nothing is let
pass. -/
def depthAfter (depth : Nat) (c : Char) : Nat :=
  if c = '<' ∨ c = '[' ∨ c = '(' then depth + 1
  else if c = '>' ∨ c = ']' ∨ c = ')' then depth - 1
  else depth

/-- The parameters written between two parentheses; `current` holds, last character first, what is
read of the parameter at hand. A blank last parameter is none. -/
def splitParameters (depth : Nat) (current : List Char) : List Char → List (List Char)
  | [] => if current.all Text.isBlank then [] else [current.reverse]
  | c :: cs =>
    if c = ',' ∧ depth = 0 then current.reverse :: splitParameters 0 [] cs
    else splitParameters (depthAfter depth c) (c :: current) cs

/-- What follows the `::`: a name, and a parameter list if there is one. A list that is opened has
to be closed by the last character. -/
def nameAndParameters (cs : List Char) : Option (List Char × Option (List (List Char))) :=
  match cs.span (· ≠ '(') with
  | (name, []) => some (name, none)
  | (name, _ :: inner) =>
    if inner.getLast? = some ')' then some (name, some (splitParameters 0 [] inner.dropLast))
    else none

/-- Read a reference. -/
def parse? (raw : String) : Option MethodRef :=
  match cutAtLast (Text.trimChars raw.toList) with
  | none => none
  | some (before, after) =>
    match nameAndParameters after with
    | none => none
    | some (name, parameters) =>
      let typeName := Text.trimChars before
      let name := Text.trimChars name
      if name.isEmpty || typeName.isEmpty then none
      else
        some
          { typeName := String.ofList typeName
            name := String.ofList name
            parameters := parameters.map (·.map fun p => Text.squeeze (String.ofList p)) }

end MethodRef

/-- A method's name with its parameters, as reports show it. -/
def signature (name : String) (parameters : List String) : String :=
  name ++ "(" ++ Text.joinWith ", " parameters ++ ")"

end TestReach
