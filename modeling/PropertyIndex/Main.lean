import PropertyIndex.Command.Run

/-!
# The program

The file system as storage, and the command line.  What a command prints goes to the standard
output; notes and the reason of a failure go to the standard error.

* `Fault.ofError`: the fault that an error of the system amounts to.
* `readSystemText`, `createSystemDirectory`, `systemEntries`: operations of the file system, which
  are gathered in an instance with that of writing.
* `Note.isShown`, `Note.line`: which notes are printed, and how.
* `main`: the program.
-/

namespace PropertyIndex

/-- The fault that an error of the system amounts to. -/
def Fault.ofError : IO.Error → Fault
  | .noFileOrDirectory _ _ _ => .notFound
  | .alreadyExists _ _ _ => .alreadyExists
  | .inappropriateType _ 20 _ => .notDirectory
  | .inappropriateType _ 21 _ => .isDirectory
  | .invalidArgument _ 36 _ => .nameTooLong
  | .invalidArgument _ 40 _ => .tooManyLinks
  | error => .other (toString error)

/-- An operation of the system of which an error becomes a fault. -/
def guarded (operation : IO α) : IO (Except Fault α) := do
  match ← operation.toBaseIO with
  | .ok value => return .ok value
  | .error error => return .error (.ofError error)

/-- The text of a file of the system. -/
def readSystemText (path : String) : IO (Except Fault String) := do
  match ← guarded (IO.FS.readBinFile path) with
  | .ok bytes =>
    match String.fromUTF8? bytes with
    | some text => return .ok text
    | none => return .error .notText
  | .error fault => return .error fault

/-- Makes a directory of the system, where `parents` more may be missing above it. -/
def createSystemDirectory (parents : Nat) (path : String) : IO Unit := do
  try
    IO.FS.createDir path
  catch error =>
    match error, parents, Path.parent? path with
    | .noFileOrDirectory _ _ _, parents + 1, some parent =>
      if !parent.isEmpty then
        createSystemDirectory parents parent
      createSystemDirectory 0 path
    | error, _, _ =>
      if !(← (System.mkFilePath [path]).isDir) then
        throw error

/-- The entries of a directory of the system.  A symbolic link is no regular file. -/
def systemEntries (path : String) : IO (List Entry) := do
  let entries ← (System.mkFilePath [path]).readDir
  entries.toList.mapM fun entry => do
    let metadata ← entry.path.symlinkMetadata
    return ⟨entry.fileName, metadata.type == .file⟩

instance : Storage IO where
  readText := readSystemText
  writeText path text := guarded (IO.FS.writeFile path text)
  createDirectories path := guarded do
    if !path.isEmpty then
      createSystemDirectory path.length path
  list path := guarded (systemEntries path)

/-- Whether a note is printed.  Those for the search for faults are only printed where all notes
are asked for. -/
def Note.isShown (verbose : Bool) (note : Note) : Bool :=
  verbose || note.level != .debug

/-- The line by which a note is printed. -/
def Note.line (note : Note) : String :=
  "[" ++ note.level.label ++ "] " ++ note.text

end PropertyIndex

open PropertyIndex in
/-- Carries out the command that the arguments spell. -/
def main (arguments : List String) : IO UInt32 := do
  let verbose := (Request.ofArguments? arguments).any Request.verbose
  let (reply, notes) ← (execute arguments).run []
  for note in notes.filter (Note.isShown verbose) do
    IO.eprintln note.line
  if let some reason := reply.error then
    IO.eprintln reason
  IO.print reply.output
  return reply.status.toUInt32
