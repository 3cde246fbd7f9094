import TestReach.Command.Arguments
import TestReach.Text.Pieces

/-!
# Invocations

What the arguments of the program ask for, the analysis of a model or a new configuration, and what
carrying it out leaves behind: an exit code, and the texts on the two outputs.
-/

namespace TestReach.Command

/-- What an analysis is told. -/
structure AnalyzeOptions where
  model : String
  config : Option String := none
  markers : List String := []
  propagation : Option String := none
  format : String := "pretty"
  threshold : Option Float := none
  projectTimeout : Option Nat := none
  showTested : Bool := false

/-- What is told about a new configuration. -/
structure InitOptions where
  output : String := "testtrace.yaml"
  template : String := "minimal"
  list : Bool := false
  deriving DecidableEq, Repr

/-- What the program is asked for. -/
inductive Invocation where
  | analyze (options : AnalyzeOptions)
  | init (options : InitOptions)

/-- The switch for help, which every command has. -/
def helpSwitch : Switch :=
  ⟨"help", some 'h', .help⟩

/-- What the command for an analysis takes. -/
def analyzeShape : Shape where
  switches :=
    [⟨"config", some 'c', .path⟩, ⟨"marker", some 'm', .texts⟩, ⟨"propagation", some 'p', .text⟩,
      ⟨"format", some 'f', .text⟩, ⟨"threshold", some 't', .real⟩,
      ⟨"project-timeout", none, .count⟩, ⟨"show-tested", none, .flag⟩, helpSwitch]
  places := 1

/-- What the command for a new configuration takes. -/
def initShape : Shape where
  switches :=
    [⟨"output", some 'o', .path⟩, ⟨"template", some 't', .text⟩, ⟨"list", some 'l', .flag⟩,
      helpSwitch]
  places := 0

/-- What the program takes before a command. -/
def programShape : Shape where
  switches := [helpSwitch, ⟨"version", some 'V', .version⟩]
  places := 0

/-- The analysis that arguments ask for. -/
def readAnalyze (args : List String) : Except Usage AnalyzeOptions :=
  match analyzeShape.read args with
  | .error e => .error e
  | .ok g =>
    match g.standing with
    | [] => .error .missingArgument
    | model :: _ =>
      .ok
        { model
          config := g.get? "config"
          markers := g.all "marker"
          propagation := g.get? "propagation"
          format := (g.get? "format").getD "pretty"
          threshold := (g.get? "threshold").bind Decimal.parseFloat?
          projectTimeout := (g.get? "project-timeout").bind Decimal.parseWord?
          showTested := g.has "show-tested" }

/-- The new configuration that arguments ask for. -/
def readInit (args : List String) : Except Usage InitOptions :=
  match initShape.read args with
  | .error e => .error e
  | .ok g =>
    .ok
      { output := (g.get? "output").getD "testtrace.yaml"
        template := (g.get? "template").getD "minimal"
        list := g.has "list" }

/-- The names of the commands, that for help included. -/
def commandNames : List String :=
  ["analyze", "check", "init", "help"]

/-- What asking for help on some command comes to. -/
def helpOn : List String → Usage
  | [] => .help
  | [name] => if commandNames.contains name then .help else .unknownSubcommand
  | _ => .unknownSubcommand

/-- What arguments without a command come to. After `--` nothing is a command any more. -/
def withoutCommand : List String → Usage
  | [] => .missingSubcommand
  | arg :: _ => if commandNames.contains arg then .unknownArgument else .unknownSubcommand

/-- What the arguments of the program ask for. -/
def read : List String → Except Usage Invocation
  | [] => .error .missingSubcommand
  | arg :: args =>
    match Shape.argumentOf arg with
    | .rest => .error (withoutCommand args)
    | .standing =>
      if arg = "analyze" ∨ arg = "check" then (readAnalyze args).map .analyze
      else if arg = "init" then (readInit args).map .init
      else if arg = "help" then .error (helpOn args)
      else .error .unknownSubcommand
    | .long name value =>
      match programShape.long {} name value with
      | .error e => .error e
      | .ok _ => .error .missingSubcommand
    | .short cs =>
      match programShape.cluster {} cs with
      | .error e => .error e
      | .ok _ => .error .missingSubcommand

/-! ## What is left behind -/

/-- What a command leaves behind. -/
structure Output where
  exitCode : Nat
  out : String := ""
  err : String := ""
  deriving DecidableEq, Repr

/-- The result of a command that cannot do its work, with the lines that say why. -/
def Output.failure (lines : List String) : Output where
  exitCode := 2
  err := Text.unlines lines

/-- The result of a command that has done its work, with the lines it says. -/
def Output.success (lines : List String) : Output where
  exitCode := 0
  out := Text.unlines lines

end TestReach.Command
