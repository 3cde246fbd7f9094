import TestReach.Document.Json
import TestReach.Document.Yaml
import TestReach.FileError
import TestReach.Path
import TestReach.Program
import TestReach.Solution.Decode

/-!
# Programs from files

A program is loaded from the text of a model file, which is YAML or JSON by the ending of its name.
-/

namespace TestReach

/-- Why a model file does not give a program. -/
inductive SourceError where
  | unreadable (path : String) (error : FileError)
  | invalidYaml
  | invalidJson
  | unsupportedFormat (path : String)
  | rejected (error : LoadError)
  deriving DecidableEq, Repr

/-- The message for an error. -/
def SourceError.message : SourceError → String
  | .unreadable path error => "reading " ++ path ++ ": " ++ error.message
  | .invalidYaml => "invalid YAML: the text does not describe a solution"
  | .invalidJson => "invalid JSON: the text does not describe a solution"
  | .unsupportedFormat path =>
    "unsupported model format " ++ Text.quoted path ++ " (expected .yaml, .yml or .json)"
  | .rejected error => error.message

namespace Program

/-- Load a solution, if there is one. -/
def ofSolution? (missing : SourceError) : Option Solution → Except SourceError Program
  | none => .error missing
  | some s =>
    match load s with
    | .ok p => .ok p
    | .error e => .error (.rejected e)

/-- The program of a JSON text. -/
def ofJson (text : String) : Except SourceError Program :=
  ofSolution? .invalidJson ((Json.read? text).bind (Solution.decode? .json))

/-- The program of a YAML text. -/
def ofYaml (text : String) : Except SourceError Program :=
  ofSolution? .invalidYaml ((Yaml.read? text).bind (Solution.decode? .yaml))

/-- The program of a file, from what reading the file gave. -/
def ofFile (path : String) : Except FileError String → Except SourceError Program
  | .error e => .error (.unreadable path e)
  | .ok text =>
    match Path.extension? path with
    | some "yaml" => ofYaml text
    | some "yml" => ofYaml text
    | some "json" => ofJson text
    | _ => .error (.unsupportedFormat path)

end Program

end TestReach
