/-!
# Storage

Indexing reads sources and writes artifacts through a small set of operations, each of which
succeeds or names the fault that stopped it.

* `Fault`, `Fault.message`: why an operation fails.
* `Entry`: what a directory lists.
* `Storage`: the operations.
-/

namespace PropertyIndex

/-- Why an operation on storage fails. -/
inductive Fault where
  | notFound
  | notDirectory
  | isDirectory
  | alreadyExists
  | tooManyLinks
  | nameTooLong
  | nullInPath
  | notText
  /-- A fault of which only the wording is known. -/
  | other (message : String)
  deriving DecidableEq, Repr

/-- The wording of a fault. -/
def Fault.message : Fault → String
  | notFound => "No such file or directory (os error 2)"
  | notDirectory => "Not a directory (os error 20)"
  | isDirectory => "Is a directory (os error 21)"
  | alreadyExists => "File exists (os error 17)"
  | tooManyLinks => "Too many levels of symbolic links (os error 40)"
  | nameTooLong => "File name too long (os error 36)"
  | nullInPath => "file name contained an unexpected NUL byte"
  | notText => "stream did not contain valid UTF-8"
  | other message => message

/-- What a directory lists: a name, and whether it is that of a regular file. -/
structure Entry where
  name : String
  isFile : Bool
  deriving DecidableEq, Repr

/-- The operations on storage. -/
class Storage (m : Type → Type) where
  /-- The text of a file. -/
  readText : (path : String) → m (Except Fault String)
  /-- Puts a text into a file, which is made if it is missing. -/
  writeText : (path text : String) → m (Except Fault Unit)
  /-- Makes a directory with those it lies in, unless it is there. -/
  createDirectories : (path : String) → m (Except Fault Unit)
  /-- What a directory lists, in no particular order. -/
  list : (path : String) → m (Except Fault (List Entry))

end PropertyIndex
