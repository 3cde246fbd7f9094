/-!
# Pieces of a text

Cutting a text at a character, and putting pieces together again with a separator between them.
-/

namespace TestReach.Text

/-- The pieces between the occurrences of `sep`; there is always at least one piece. -/
def piecesOf (sep : Char) : List Char → List (List Char)
  | [] => [[]]
  | c :: cs =>
    if c = sep then [] :: piecesOf sep cs
    else
      match piecesOf sep cs with
      | [] => [[c]]
      | p :: ps => (c :: p) :: ps

theorem piecesOf_eq_splitOn (sep : Char) (cs : List Char) : piecesOf sep cs = cs.splitOn sep := by
  induction cs with
  | nil => rfl
  | cons c cs ih =>
    rw [piecesOf, List.splitOn_cons_eq_if_modifyHead, ih]
    by_cases hc : c = sep
    · simp [hc]
    · obtain ⟨p, ps, hps⟩ := List.exists_cons_of_ne_nil (List.splitOn_ne_nil sep cs)
      simp [hc, hps]

/-- The pieces of a text between the occurrences of `sep`. -/
def pieces (sep : Char) (s : String) : List String :=
  (piecesOf sep s.toList).map String.ofList

/-- The texts of a list with `sep` between each and the next. -/
def joinWith (sep : String) : List String → String
  | [] => ""
  | [s] => s
  | s :: t :: rest => s ++ sep ++ joinWith sep (t :: rest)

/-- Lines, each with its end. -/
def unlines (lines : List String) : String :=
  lines.foldr (fun line rest => line ++ "\n" ++ rest) ""

/-- Every part that equals `old` is exchanged for `new`, from the left and without overlap. -/
def exchange (old new : List Char) : Nat → List Char → List Char
  | 0, cs => cs
  | _ + 1, [] => []
  | fuel + 1, c :: cs =>
    if old.isPrefixOf (c :: cs) then new ++ exchange old new fuel ((c :: cs).drop old.length)
    else c :: exchange old new fuel cs

/-- A text in which `new` stands for each occurrence of the non-empty text `old`. -/
def replace (s old new : String) : String :=
  if old.isEmpty then s
  else String.ofList (exchange old.toList new.toList s.length s.toList)

end TestReach.Text
