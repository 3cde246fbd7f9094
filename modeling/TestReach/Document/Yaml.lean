import TestReach.Document.Yaml.Lexeme

/-!
# Reading YAML

The documents of YAML texts. A text holds one document, and may say before its start that it is
written in version 1.1 or 1.2; anchors and tags are not read. A value that is left out is an empty
plain scalar, and so is a text that holds nothing.
-/

namespace TestReach.Yaml

/-- A value that is left out. -/
def nothing : Doc :=
  .scalar (.plain "")

/-- Whether a value is left out before a lexeme, in a block. -/
def leftOut : List Lexeme → Bool
  | .key :: _ | .value :: _ | .blockEnd :: _ | [] => true
  | _ => false

mutual

/-- Read a value, which in a block may be a block of its own, and after a key a list that is not
indented; `n` bounds the number of nested steps. -/
def node? (block afterKey : Bool) : Nat → List Lexeme → Option (Doc × List Lexeme)
  | 0, _ => none
  | n + 1, ls =>
    match ls with
    | .scalar s :: rest => some (.scalar s, rest)
    | .openList :: rest => flowItems? n true [] rest
    | .openRecord :: rest => flowEntries? n true [] rest
    | .item :: _ => if afterKey then looseItems? n [] ls else none
    | .blockList :: rest => if block then blockItems? n [] rest else none
    | .blockRecord :: rest => if block then blockEntries? n [] rest else none
    | _ => none

/-- Read the items of a block list after those of `done`, the last first. -/
def blockItems? : Nat → List Doc → List Lexeme → Option (Doc × List Lexeme)
  | 0, _, _ => none
  | n + 1, done, ls =>
    match ls with
    | .blockEnd :: rest => some (.list done.reverse, rest)
    | .item :: .item :: rest => blockItems? n (nothing :: done) (.item :: rest)
    | .item :: .blockEnd :: rest => blockItems? n (nothing :: done) (.blockEnd :: rest)
    | .item :: rest =>
      match node? true false n rest with
      | none => none
      | some (doc, rest) => blockItems? n (doc :: done) rest
    | _ => none

/-- Read the items of a list that is not indented. -/
def looseItems? : Nat → List Doc → List Lexeme → Option (Doc × List Lexeme)
  | 0, _, _ => none
  | n + 1, done, ls =>
    match ls with
    | .item :: .item :: rest => looseItems? n (nothing :: done) (.item :: rest)
    | .item :: rest =>
      if leftOut rest then looseItems? n (nothing :: done) rest
      else
        match node? true false n rest with
        | none => none
        | some (doc, rest) => looseItems? n (doc :: done) rest
    | _ => some (.list done.reverse, ls)

/-- Read the entries of a block record after those of `done`, the last first. -/
def blockEntries? : Nat → List (Doc × Doc) → List Lexeme → Option (Doc × List Lexeme)
  | 0, _, _ => none
  | n + 1, done, ls =>
    match ls with
    | .blockEnd :: rest => some (.record done.reverse, rest)
    | .key :: rest =>
      match if leftOut rest then some (nothing, rest) else node? true true n rest with
      | none => none
      | some (key, .value :: rest) =>
        match if leftOut rest then some (nothing, rest) else node? true true n rest with
        | none => none
        | some (value, rest) => blockEntries? n ((key, value) :: done) rest
      | some (key, rest) => blockEntries? n ((key, nothing) :: done) rest
    | _ => none

/-- Read the items of a list in brackets; before all but the first comes a comma. An item may be a
record of one entry. -/
def flowItems? : Nat → Bool → List Doc → List Lexeme → Option (Doc × List Lexeme)
  | 0, _, _, _ => none
  | n + 1, first, done, ls =>
    let afterComma : Option (List Lexeme) :=
      match first, ls with
      | true, _ => some ls
      | false, .comma :: rest => some rest
      | false, .closeList :: _ => some ls
      | false, _ => none
    match afterComma with
    | none => none
    | some (.closeList :: rest) => some (.list done.reverse, rest)
    | some (.key :: rest) =>
      match singleEntry? n rest with
      | none => none
      | some (entry, rest) => flowItems? n false (entry :: done) rest
    | some rest =>
      match node? false false n rest with
      | none => none
      | some (doc, rest) => flowItems? n false (doc :: done) rest

/-- Read the single entry of a record without braces. -/
def singleEntry? : Nat → List Lexeme → Option (Doc × List Lexeme)
  | 0, _ => none
  | n + 1, ls =>
    let key :=
      match ls with
      | .value :: rest | .comma :: rest | .closeList :: rest => some (nothing, rest)
      | _ => node? false false n ls
    match key with
    | none => none
    | some (key, .value :: rest) =>
      match rest with
      | .comma :: _ | .closeList :: _ => some (.record [(key, nothing)], rest)
      | _ =>
        match node? false false n rest with
        | none => none
        | some (value, rest) => some (.record [(key, value)], rest)
    | some (key, rest) => some (.record [(key, nothing)], rest)

/-- Read the entries of a record in braces; before all but the first comes a comma. A value without
a colon is a key. -/
def flowEntries? : Nat → Bool → List (Doc × Doc) → List Lexeme → Option (Doc × List Lexeme)
  | 0, _, _, _ => none
  | n + 1, first, done, ls =>
    let afterComma : Option (List Lexeme) :=
      match first, ls with
      | true, _ => some ls
      | false, .comma :: rest => some rest
      | false, .closeRecord :: _ => some ls
      | false, _ => none
    match afterComma with
    | none => none
    | some (.closeRecord :: rest) => some (.record done.reverse, rest)
    | some (.key :: rest) =>
      let key :=
        match rest with
        | .value :: _ | .comma :: _ | .closeRecord :: _ => some (nothing, rest)
        | _ => node? false false n rest
      match key with
      | none => none
      | some (key, .value :: rest) =>
        match rest with
        | .comma :: _ | .closeRecord :: _ => flowEntries? n false ((key, nothing) :: done) rest
        | _ =>
          match node? false false n rest with
          | none => none
          | some (value, rest) => flowEntries? n false ((key, value) :: done) rest
      | some (key, rest) => flowEntries? n false ((key, nothing) :: done) rest
    | some rest =>
      match node? false false n rest with
      | none => none
      | some (key, rest) => flowEntries? n false ((key, nothing) :: done) rest

end

/-- Read the value of a document that starts here, if it has one. -/
def content? (n : Nat) (ls : List Lexeme) : Option (Doc × List Lexeme) :=
  match ls with
  | [] | .version .. :: _ | .documentStart :: _ | .documentEnd :: _ => some (nothing, ls)
  | _ => node? true false n ls

/-- The document of the lexemes of a text. -/
def ofLexemes? (ls : List Lexeme) : Option Doc :=
  let n := 2 * ls.length + 2
  let content :=
    match ls with
    | [] => some (nothing, [])
    | .documentStart :: rest => content? n rest
    | .version major minor :: .documentStart :: rest =>
      if major = 1 ∧ (minor = 1 ∨ minor = 2) then content? n rest else none
    | _ => node? true false n ls
  match content with
  | none => none
  | some (doc, rest) => if rest.all (· = .documentEnd) then some doc else none

/-- The document of a YAML text. -/
def read? (text : String) : Option Doc := do
  let gs ← glyphs? text
  let ls ← lexemes? gs
  ofLexemes? ls

end TestReach.Yaml
