import TestReach.Text.Pieces

/-!
# Paths

The parts of a path. Repeated slashes, slashes at the end and single dots after the start do not
count.
-/

namespace TestReach.Path

/-- How many bytes a name may have. -/
def longestName : Nat := 255

/-- How many bytes a path may have. -/
def longestPath : Nat := 4095

/-- What stands between the slashes of a path. -/
def segments (path : String) : List String :=
  Text.pieces '/' path

/-- Segments, the last first, without those at the end that do not count. -/
def trimBack : List String → List String
  | [] => []
  | [s] => if s = "" then [] else [s]
  | s :: rest => if s = "" ∨ s = "." then trimBack rest else s :: rest

/-- The directory of a path; a path that has no parts lies in none. -/
def parent? (path : String) : Option String :=
  match trimBack (segments path).reverse with
  | [] => none
  | _ :: rest =>
    let parent := Text.joinWith "/" (trimBack rest).reverse
    some (if parent.isEmpty && path.startsWith "/" then "/" else parent)

/-- What follows the last dot of a file name, if that dot is not its first character. -/
def extension? (path : String) : Option String :=
  match trimBack (segments path).reverse with
  | [] => none
  | name :: _ =>
    match (name.toList.reverse.span (· ≠ '.')) with
    | (_, []) => none
    | (_, [_]) => none
    | (after, _ :: _) => if name = ".." then none else some (String.ofList after.reverse)

end TestReach.Path
