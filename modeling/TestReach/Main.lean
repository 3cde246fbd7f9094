import TestReach.Command

/-!
# The program

The commands on a real machine: its files, its clock, and its two outputs.
-/

namespace TestReach

/-- The error of a file operation. -/
def FileError.ofIO : IO.Error → FileError
  | .noFileOrDirectory .. => .notFound
  | .alreadyExists .. => .alreadyExists
  | .inappropriateType _ code _ =>
    if code = 20 then .notDirectory
    else if code = 21 then .isDirectory
    else .other s!"os error {code}"
  | .invalidArgument _ code details =>
    if code = 36 then .nameTooLong else .other (details ++ s!" (os error {code})")
  | e => .other (toString e)

/-- Try a file operation. -/
def attempt {α : Type} (action : IO α) : IO (Except FileError α) := do
  try
    return .ok (← action)
  catch e => return .error (.ofIO e)

/-- Whether a path can be opened. -/
def canOpen (path : String) : IO Bool := do
  match ← attempt (IO.FS.Handle.mk path .read) with
  | .ok _ => return true
  | .error _ => return false

/-- The text of a file. -/
def readTextFile (path : String) : IO (Except FileError String) := do
  match ← attempt (IO.FS.readBinFile path) with
  | .error e => return .error e
  | .ok bytes =>
    match String.fromUTF8? bytes with
    | some text => return .ok text
    | none => return .error .invalidText

/-- The machine that the program runs on. Nothing is ever cancelled. -/
def machine : Host IO where
  isThere := canOpen
  isDirectory path := canOpen (path ++ "/.")
  readText := readTextFile
  writeText path text := attempt (IO.FS.writeFile path text)
  makeDirectory path := attempt (IO.FS.createDir path)
  watch := { now := IO.monoNanosNow, cancelled := fun _ => return false }
  newToken := do return { family := 0, started := ← IO.monoNanosNow, deadline := none }

/-- How to call the program. -/
def usageText : String :=
  "Usage: testtrace <COMMAND>\n\nCommands:\n" ++
    "  analyze  Classify every method in a solution model as tested or untested " ++
    "[aliases: check]\n" ++
    "  init     Create a new testtrace config from a template\n" ++
    "  help     Print this message or the help of the given subcommand(s)\n"

end TestReach

open TestReach in
/-- Read the arguments and carry them out. -/
def main (args : List String) : IO UInt32 := do
  let out ← IO.getStdout
  let err ← IO.getStderr
  match Command.read args with
  | .error .version =>
    out.putStr ("testtrace " ++ programVersion ++ "\n")
    return 0
  | .error .help =>
    out.putStr usageText
    return 0
  | .error usage =>
    err.putStr usageText
    return usage.exitCode.toUInt32
  | .ok invocation =>
    let color := (← IO.getEnv "NO_COLOR").isNone && (← out.isTty)
    match ← Command.run machine color invocation with
    | .error overflow =>
      err.putStr (overflow.message ++ "\n")
      return 101
    | .ok output =>
      out.putStr output.out
      err.putStr output.err
      return output.exitCode.toUInt32
