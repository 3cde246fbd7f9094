import TestReach.Host

/-!
# Workspaces

A tree of files and directories as a value, together with a clock. The working directory lies in the
root directory under the empty name. No path can spell that name, so a path leads into the working
directory only by starting there.
-/

namespace TestReach

/-- What there is at a place: a file, or a directory with what it holds by name. -/
inductive Content where
  | file (bytes : ByteArray)
  | directory (entries : List (String × Content))

namespace Content

/-- What a directory holds under a name. -/
def entry? (c : Content) (name : String) : Option Content :=
  match c with
  | .file _ => none
  | .directory entries => entries.lookup name

/-- A directory with something under a name, instead of what it holds there. -/
def withEntry (c : Content) (name : String) (new : Content) : Content :=
  match c with
  | .file bytes => .file bytes
  | .directory entries => .directory ((name, new) :: entries.filter (·.1 ≠ name))

mutual

/-- The files of what a path leads to, by their paths. -/
def filesAt (path : String) : Content → List (String × ByteArray)
  | .file bytes => [(path, bytes)]
  | .directory entries => filesOf path entries

/-- The files of the entries of a directory that a path leads to. -/
def filesOf (path : String) : List (String × Content) → List (String × ByteArray)
  | [] => []
  | (name, c) :: rest =>
    filesAt (if path.isEmpty then name else path ++ "/" ++ name) c ++ filesOf path rest

end

end Content

/-- A place in a tree. -/
structure Position where
  here : Content
  /-- The directories around it, the innermost first, each with the name that leads inwards. -/
  outer : List (String × Content)

namespace Position

/-- The whole tree. -/
def root (p : Position) : Content :=
  p.outer.foldl (fun c d => d.2.withEntry d.1 c) p.here

/-- The directory around a place; the root directory lies in itself. -/
def up (p : Position) : Position :=
  match p.outer with
  | [] => p
  | (_, dir) :: outer => ⟨dir, outer⟩

/-- What there is under a name, which may not be too long. -/
def child (p : Position) (name : String) : Except FileError (Option Content) :=
  if Path.longestName < name.utf8ByteSize then .error .nameTooLong else .ok (p.here.entry? name)

/-- Follow one segment of a path, from a directory. -/
def step (p : Position) (s : String) : Except FileError Position :=
  match p.here with
  | .file _ => .error .notDirectory
  | .directory _ =>
    if s = "" ∨ s = "." then .ok p
    else if s = ".." then .ok p.up
    else
      match p.child s with
      | .error e => .error e
      | .ok none => .error .notFound
      | .ok (some c) => .ok ⟨c, (s, p.here) :: p.outer⟩

/-- Follow segments of a path. -/
def walk (p : Position) : List String → Except FileError Position
  | [] => .ok p
  | s :: rest =>
    match p.step s with
    | .error e => .error e
    | .ok p => p.walk rest

end Position

/-- Files and a clock. -/
structure Workspace where
  root : Content := .directory [("", .directory [])]
  session : Session := {}

namespace Workspace

/-- The working directory. -/
def directory (w : Workspace) : Content :=
  (w.root.entry? "").getD (.directory [])

/-- The files in and below the working directory, by their paths. -/
def files (w : Workspace) : List (String × ByteArray) :=
  w.directory.filesAt ""

/-- Where a path starts: in the root directory if a slash comes first, else in the working
directory. -/
def start (w : Workspace) (path : String) : Except FileError Position :=
  if path.toList.contains '\x00' then .error .nulInName
  else if Path.longestPath < path.utf8ByteSize then .error .nameTooLong
  else if path.isEmpty then .error .notFound
  else if path.startsWith "/" then .ok ⟨w.root, []⟩
  else .ok ⟨w.directory, [("", w.root)]⟩

/-- What there is at a path. -/
def find (w : Workspace) (path : String) : Except FileError Content := do
  let start ← w.start path
  let p ← start.walk (Path.segments path)
  return p.here

/-- The text of a file. -/
def readText (w : Workspace) (path : String) : Except FileError String :=
  match w.find path with
  | .error e => .error e
  | .ok (.directory _) => .error .isDirectory
  | .ok (.file bytes) =>
    match String.fromUTF8? bytes with
    | some text => .ok text
    | none => .error .invalidText

/-- Where something new at a path would be: the directory, the name in it, and whether slashes
follow the name. The directory has to be there; slashes alone name it themselves. -/
def newPlace (w : Workspace) (path : String) : Except FileError (Position × String × Bool) := do
  let start ← w.start path
  let segments := Path.segments path
  match segments.reverse.dropWhile (· = "") with
  | [] => .ok (start, ".", true)
  | name :: outer =>
    let p ← start.walk outer.reverse
    match p.here with
    | .file _ => .error .notDirectory
    | .directory _ => .ok (p, name, segments.getLast? == some "")

/-- Whether a name only leads to a directory that is there. -/
def isDots (name : String) : Bool :=
  name = "." || name = ".."

/-- The workspace with something new in a directory. -/
def putIn (w : Workspace) (p : Position) (name : String) (c : Content) : Workspace :=
  { w with root := Position.root { p with here := p.here.withEntry name c } }

/-- The workspace with bytes in a file. -/
def writeBytes (w : Workspace) (path : String) (bytes : ByteArray) :
    Except FileError Workspace := do
  let (p, name, slashes) ← w.newPlace path
  if slashes || isDots name then .error .isDirectory
  else
    match ← p.child name with
    | some (.directory _) => .error .isDirectory
    | _ => .ok (w.putIn p name (.file bytes))

/-- The workspace with one more directory. -/
def makeDirectory (w : Workspace) (path : String) : Except FileError Workspace := do
  let (p, name, _) ← w.newPlace path
  if isDots name then .error .alreadyExists
  else
    match ← p.child name with
    | some _ => .error .alreadyExists
    | none => .ok (w.putIn p name (.directory []))

/-- Replace the workspace by a changed one, if the change succeeds. -/
def update (change : Workspace → Except FileError Workspace) :
    StateM Workspace (Except FileError Unit) :=
  fun w =>
    match change w with
    | .error e => (.error e, w)
    | .ok w => (.ok (), w)

/-- A machine that is nothing but a workspace. -/
def host : Host (StateM Workspace) where
  isThere path := do return (← get).find path matches .ok _
  isDirectory path := do return (← get).find path matches .ok (.directory _)
  readText path := do return (← get).readText path
  writeText path text := update (·.writeBytes path text.toUTF8)
  makeDirectory path := update (·.makeDirectory path)
  watch :=
    { now := do return (← get).session.clock
      cancelled := fun family => do return (← get).session.cancelled.contains family }
  newToken := modifyGet fun w =>
    let (token, session) := w.session.newToken
    (token, { w with session })

/-- The workspace with a directory at a path, as far as it can be made. -/
def addDirectory (w : Workspace) (path : String) : Workspace :=
  ((host.makePath path).run w).2

/-- The workspace with a file at a path and the directories it lies in, as far as they can be
made. -/
def addFile (w : Workspace) (path : String) (bytes : ByteArray) : Workspace :=
  let w := ((Path.parent? path).map w.addDirectory).getD w
  ((update (·.writeBytes path bytes)).run w).2

end Workspace

end TestReach
