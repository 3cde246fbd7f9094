import TestReach.Decimal.Numeral

/-!
# Arguments

How the arguments of a command are taken apart: options with a long and perhaps a short name, flags,
and arguments that stand for themselves. A value follows its option, after a blank or an equals
sign, or directly after the short name; flags may share a dash. Everything after `--` stands for
itself, and so does a dash alone.
-/

namespace TestReach.Command

/-- Why arguments do not say what to do, or what they ask for instead. -/
inductive Usage where
  | help
  | version
  | missingSubcommand
  | unknownSubcommand
  | unknownArgument
  | missingArgument
  /-- A value is missing, or empty where it may not be. -/
  | invalidValue
  /-- A value is not the number it should be. -/
  | notANumber
  | repeated
  /-- A flag has a value. -/
  | unexpectedValue
  deriving DecidableEq, Repr

/-- The exit code after arguments that are not carried out. -/
def Usage.exitCode : Usage → Nat
  | .help => 0
  | .version => 0
  | _ => 2

/-- What a switch takes. -/
inductive Kind where
  | help
  | version
  | flag
  | text
  /-- Texts; the switch may be repeated. -/
  | texts
  | path
  | real
  | count
  deriving DecidableEq, Repr

namespace Kind

def takesValue : Kind → Bool
  | .help => false
  | .version => false
  | .flag => false
  | _ => true

/-- What is wrong with a value. -/
def fault? (k : Kind) (value : String) : Option Usage :=
  match k with
  | .path => if value.isEmpty then some .invalidValue else none
  | .real => if (Decimal.parseFloat? value).isNone then some .notANumber else none
  | .count => if (Decimal.parseWord? value).isNone then some .notANumber else none
  | _ => none

end Kind

/-- An option of a command. -/
structure Switch where
  long : String
  short : Option Char
  kind : Kind
  deriving DecidableEq, Repr

/-- What a command takes: switches, and so many arguments that stand for themselves, all paths. -/
structure Shape where
  switches : List Switch
  places : Nat
  deriving DecidableEq, Repr

/-- The arguments of a command, taken apart. -/
structure Given where
  /-- The long names of switches with their values, in order; flags have an empty value. -/
  values : List (String × String) := []
  /-- The arguments that stand for themselves, in order. -/
  standing : List String := []
  deriving DecidableEq, Repr

namespace Given

/-- The values of a switch. -/
def all (g : Given) (long : String) : List String :=
  (g.values.filter (·.1 = long)).map (·.2)

/-- The value of a switch that is given once at most. -/
def get? (g : Given) (long : String) : Option String :=
  g.values.lookup long

/-- Whether a flag is given. -/
def has (g : Given) (long : String) : Bool :=
  (g.get? long).isSome

/-- Add a switch with a value that is allowed, unless it is repeated. -/
def add (g : Given) (s : Switch) (value : String) : Except Usage Given :=
  if s.kind = .help then .error .help
  else if s.kind = .version then .error .version
  else if s.kind ≠ .texts ∧ g.has s.long then .error .repeated
  else
    match s.kind.fault? value with
    | some usage => .error usage
    | none => .ok { g with values := g.values ++ [(s.long, value)] }

/-- Add an argument that stands for itself. -/
def stand (g : Given) (shape : Shape) (arg : String) : Except Usage Given :=
  if shape.places ≤ g.standing.length then .error .unknownArgument
  else
    match Kind.path.fault? arg with
    | some usage => .error usage
    | none => .ok { g with standing := g.standing ++ [arg] }

/-- Add arguments that stand for themselves. -/
def standAll (g : Given) (shape : Shape) (args : List String) : Except Usage Given :=
  args.foldlM (fun g arg => g.stand shape arg) g

end Given

namespace Shape

def findLong? (shape : Shape) (name : String) : Option Switch :=
  shape.switches.find? (·.long = name)

def findShort? (shape : Shape) (c : Char) : Option Switch :=
  shape.switches.find? (·.short = some c)

/-- What an argument is. -/
inductive Argument where
  /-- A long name, and what follows an equals sign. -/
  | long (name : String) (value : Option String)
  /-- What follows a single dash. -/
  | short (cs : List Char)
  /-- The mark after which everything stands for itself. -/
  | rest
  | standing
  deriving DecidableEq, Repr

/-- Cut a text at the first equals sign. -/
def cutAtEquals (cs : List Char) : String × Option String :=
  match cs.span (· ≠ '=') with
  | (name, []) => (String.ofList name, none)
  | (name, _ :: value) => (String.ofList name, some (String.ofList value))

/-- Take an argument for what its dashes say. -/
def argumentOf (arg : String) : Argument :=
  match arg.toList with
  | ['-', '-'] => .rest
  | '-' :: '-' :: cs =>
    let (name, value) := cutAtEquals cs
    .long name value
  | ['-'] => .standing
  | '-' :: cs => .short cs
  | _ => .standing

/-- What is wrong if an argument comes where a value should: a switch of the command leaves the
value missing, any other is unknown. -/
def insteadOfValue? (shape : Shape) (arg : String) : Option Usage :=
  match argumentOf arg with
  | .standing => none
  | .rest => some .invalidValue
  | .long name _ => some (if (shape.findLong? name).isSome then .invalidValue else .unknownArgument)
  | .short cs =>
    some (if (cs.head?.bind shape.findShort?).isSome then .invalidValue else .unknownArgument)

/-- The value after the name of a short switch; an equals sign before it does not count. -/
def attached (cs : List Char) : String :=
  match cs with
  | '=' :: rest => String.ofList rest
  | _ => String.ofList cs

/-- Read what follows a single dash. The last switch may still need its value. -/
def cluster (shape : Shape) (g : Given) : List Char → Except Usage (Given × Option Switch)
  | [] => .ok (g, none)
  | c :: cs =>
    match shape.findShort? c with
    | none => .error .unknownArgument
    | some s =>
      if s.kind.takesValue then
        if cs.isEmpty then .ok (g, some s)
        else (g.add s (attached cs)).map fun g => (g, none)
      else
        match g.add s "" with
        | .error e => .error e
        | .ok g => cluster shape g cs

/-- Read a long switch. It may still need its value. -/
def long (shape : Shape) (g : Given) (name : String) (value : Option String) :
    Except Usage (Given × Option Switch) :=
  match shape.findLong? name, value with
  | none, _ => .error .unknownArgument
  | some s, some value =>
    if s.kind.takesValue then (g.add s value).map fun g => (g, none)
    else .error .unexpectedValue
  | some s, none =>
    if s.kind.takesValue then .ok (g, some s) else (g.add s "").map fun g => (g, none)

/-- Take arguments apart. `waiting` is the switch whose value comes next. -/
def scan (shape : Shape) (g : Given) (waiting : Option Switch) :
    List String → Except Usage Given
  | [] => if waiting.isSome then .error .invalidValue else .ok g
  | arg :: args =>
    match waiting with
    | some s =>
      match shape.insteadOfValue? arg with
      | some usage => .error usage
      | none =>
        match g.add s arg with
        | .error e => .error e
        | .ok g => scan shape g none args
    | none =>
      match argumentOf arg with
      | .rest => g.standAll shape args
      | .standing =>
        match g.stand shape arg with
        | .error e => .error e
        | .ok g => scan shape g none args
      | .long name value =>
        match shape.long g name value with
        | .error e => .error e
        | .ok (g, waiting) => scan shape g waiting args
      | .short cs =>
        match shape.cluster g cs with
        | .error e => .error e
        | .ok (g, waiting) => scan shape g waiting args

/-- Take the arguments of a command apart. -/
def read (shape : Shape) (args : List String) : Except Usage Given :=
  shape.scan {} none args

end Shape

end TestReach.Command
