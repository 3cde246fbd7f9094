import TestReach.Command.Analyze
import TestReach.Command.Template

/-!
# Commands

The command for a new configuration, which writes one of the templates to a file that is not there
yet or lists the templates, and the whole program, for any host: from what it is asked for to what
it leaves behind.
-/

namespace TestReach.Command

/-! ## A new configuration -/

/-- A text with blanks after it, up to a width. -/
def padded (width : Nat) (text : String) : String :=
  text ++ String.ofList (List.replicate (width - text.length) ' ')

/-- The line of a template in the list. -/
def templateLine (t : Template) : String :=
  let label := if t.name = "minimal" then "minimal (default)" else t.name
  "  " ++ padded 20 label ++ " " ++ t.description

/-- The list of the templates. -/
def templateList : Output :=
  .success <|
    ["Marker templates:", ""] ++ Template.all.map templateLine ++
      ["", "Pick one with: testtrace init --template <name>"]

/-- What is said about a new file. -/
def written (path : String) (t : Template) : Output :=
  .success
    ["Wrote " ++ path ++ " (" ++ t.name ++ " markers)", "",
      "Check that the marker types match the attributes your tests use, then run:",
      "  testtrace analyze <solution.yaml> --config " ++ path]

/-- The directory that has to be there for a file, if it is not the working directory. -/
def neededDirectory? (path : String) : Option String :=
  (Path.parent? path).filter fun dir => !dir.isEmpty && dir ≠ "."

variable {m : Type → Type} [Monad m]

/-- Write a template to a file. -/
def writeTemplate (h : Host m) (path : String) (t : Template) : m Output := do
  let made ←
    match neededDirectory? path with
    | none => pure none
    | some dir => do
      match ← h.makePath dir with
      | .ok () => pure none
      | .error e => pure (some ("Error: cannot create " ++ dir ++ ": " ++ e.message))
  match made with
  | some message => return .failure [message]
  | none =>
    match ← h.writeText path t.text with
    | .error e => return .failure ["Error: cannot write " ++ path ++ ": " ++ e.message]
    | .ok () => return written path t

/-- Make a new configuration. -/
def init (h : Host m) (options : InitOptions) : m Output := do
  if options.list then return templateList
  else
    match Template.find? options.template with
    | none =>
      return .failure
        ["Error: no template named " ++ Text.quoted options.template ++ " (choose one of: " ++
          Text.joinWith ", " (Template.all.map (·.name)) ++ ")"]
    | some t =>
      if ← h.isThere options.output then
        return .failure
          ["Error: " ++ options.output ++ " already exists, refusing to overwrite it"]
      else writeTemplate h options.output t

/-! ## The program -/

/-- Carry out what was asked for. -/
def run (h : Host m) (color : Bool) : Invocation → m (Except ClockOverflow Output)
  | .analyze options => analyze h color options
  | .init options => do return .ok (← init h options)

end TestReach.Command
