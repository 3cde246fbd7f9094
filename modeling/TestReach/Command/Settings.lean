import TestReach.Command.Invocation
import TestReach.Config
import TestReach.Document.Yaml
import TestReach.Host

/-!
# Settings

The configuration of an analysis: that of a file, with what the arguments say instead. The file is
the one that the arguments name; if they name none and give no markers, one of the usual files is
looked for. How the text of a file is read as a configuration is left open; the program reads it as
YAML (`configOf`).
-/

namespace TestReach.Command

/-- The files in which a configuration is looked for. -/
def usualFiles : List String :=
  ["testtrace.yaml", ".testtrace.yaml"]

/-- Why a file does not give a configuration. -/
inductive ConfigFileError where
  | unreadable (error : FileError)
  | invalidYaml
  deriving DecidableEq, Repr

/-- The message for an error. -/
def ConfigFileError.message : ConfigFileError → String
  | .unreadable error => error.message
  | .invalidYaml => "the text is not a configuration"

/-- Why there are no settings. -/
inductive SettingsError where
  | unusableFile (path : String) (error : ConfigFileError)
  | noFile
  | unknownPropagation (text : String)
  | invalid (fault : ConfigFault)

/-- The message for an error. -/
def SettingsError.message : SettingsError → String
  | .unusableFile path error => "parsing config " ++ path ++ ": " ++ error.message
  | .noFile =>
    "no config file found (looked for " ++ Text.joinWith ", " usualFiles ++
      ") and no --marker given"
  | .unknownPropagation text => Propagation.unknownMessage text
  | .invalid fault => "invalid config: " ++ fault.message

/-- The configuration of a file, from what opening the file gave. -/
abbrev ConfigReader := Except FileError String → Except ConfigFileError Config

/-- The reader for configurations in YAML. -/
def configOf : ConfigReader
  | .error e => .error (.unreadable e)
  | .ok text =>
    match (Yaml.read? text).bind (Config.decode? .yaml) with
    | some c => .ok c
    | none => .error .invalidYaml

/-- What the arguments say about the mode. -/
def modeOf (options : AnalyzeOptions) : Except SettingsError (Option Propagation) :=
  match options.propagation with
  | none => .ok none
  | some text =>
    match Propagation.parse? text with
    | some mode => .ok (some mode)
    | none => .error (.unknownPropagation text)

/-- A configuration with what the arguments say instead; the result has to be valid. -/
def override (options : AnalyzeOptions) (config : Config) : Except SettingsError Config :=
  match modeOf options with
  | .error e => .error e
  | .ok mode =>
    let config :=
      { config with
        markers := if options.markers.isEmpty then config.markers else options.markers
        propagation := mode.or config.propagation
        minTestedPercent := options.threshold.or config.minTestedPercent
        projectTimeout := options.projectTimeout.or config.projectTimeout }
    match config.fault? with
    | some fault => .error (.invalid fault)
    | none => .ok config

variable {m : Type → Type} [Monad m]

/-- The first of some paths at which there is anything. -/
def firstThere (h : Host m) : List String → m (Option String)
  | [] => return none
  | path :: rest => do if ← h.isThere path then return some path else firstThere h rest

/-- The file that the configuration is read from. -/
def configPath (h : Host m) (options : AnalyzeOptions) : m (Option String) :=
  match options.config with
  | some path => return some path
  | none => if options.markers.isEmpty then firstThere h usualFiles else return none

/-- The configuration before the arguments are looked at. -/
def baseConfig (read : ConfigReader) (h : Host m) (options : AnalyzeOptions) :
    m (Except SettingsError Config) := do
  match ← configPath h options with
  | some path =>
    match read (← h.readText path) with
    | .error e => return .error (.unusableFile path e)
    | .ok config => return .ok config
  | none => if options.markers.isEmpty then return .error .noFile else return .ok {}

/-- The settings of an analysis. -/
def settings (read : ConfigReader) (h : Host m) (options : AnalyzeOptions) :
    m (Except SettingsError Config) := do
  match ← baseConfig read h options with
  | .error e => return .error e
  | .ok config => return override options config

end TestReach.Command
