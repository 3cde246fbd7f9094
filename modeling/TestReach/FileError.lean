/-!
# Errors of files

Why a file cannot be read or written, with the words of the operating system.
-/

namespace TestReach

/-- What went wrong with a file. -/
inductive FileError where
  | notFound
  | alreadyExists
  | notDirectory
  | isDirectory
  /-- A name on the path, or the path, has too many bytes. -/
  | nameTooLong
  /-- No path can hold the character NUL. -/
  | nulInName
  /-- The file is no text. -/
  | invalidText
  /-- Anything else, in words. -/
  | other (message : String)
  deriving DecidableEq, Repr

/-- The message for an error. -/
def FileError.message : FileError → String
  | .notFound => "No such file or directory (os error 2)"
  | .alreadyExists => "File exists (os error 17)"
  | .notDirectory => "Not a directory (os error 20)"
  | .isDirectory => "Is a directory (os error 21)"
  | .nameTooLong => "File name too long (os error 36)"
  | .nulInName => "file name contained an unexpected NUL byte"
  | .invalidText => "stream did not contain valid UTF-8"
  | .other message => message

end TestReach
