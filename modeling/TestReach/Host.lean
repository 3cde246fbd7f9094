import TestReach.FileError
import TestReach.Path
import TestReach.Token

/-!
# Hosts

What the commands need from the machine they run on: files, a clock and tokens.
-/

namespace TestReach

/-- The services of a machine. -/
structure Host (m : Type → Type) where
  /-- Whether there is a file or a directory at a path. -/
  isThere : String → m Bool
  isDirectory : String → m Bool
  readText : String → m (Except FileError String)
  writeText : String → String → m (Except FileError Unit)
  /-- Make a directory in one that is there. -/
  makeDirectory : String → m (Except FileError Unit)
  watch : Watch m
  newToken : m Token

namespace Host

variable {m : Type → Type} [Monad m]

/-- Make one directory; one that is there already will do. -/
def ensureDirectory (h : Host m) (path : String) : m (Except FileError Unit) := do
  match ← h.makeDirectory path with
  | .ok () => return .ok ()
  | .error e => if ← h.isDirectory path then return .ok () else return .error e

/-- Make a directory and those it lies in, as far as they are missing; at most `n` of them. -/
def makeDirectories (h : Host m) : Nat → String → m (Except FileError Unit)
  | 0, path => h.ensureDirectory path
  | n + 1, path => do
    match ← h.ensureDirectory path with
    | .error .notFound =>
      match Path.parent? path with
      | none => return .error .notFound
      | some parent =>
        if parent.isEmpty then h.ensureDirectory path
        else
          match ← makeDirectories h n parent with
          | .error e => return .error e
          | .ok () => h.ensureDirectory path
    | result => return result

/-- Make a directory and those it lies in. A path has no more parts than characters. -/
def makePath (h : Host m) (path : String) : m (Except FileError Unit) :=
  h.makeDirectories path.length path

end Host

end TestReach
