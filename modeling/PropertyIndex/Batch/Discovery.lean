import PropertyIndex.Batch.Pair
import PropertyIndex.Text.NameSet

/-!
# Finding pairs in a directory

The files directly inside a directory are grouped by their names without the ending.  A contract
and a spec of one name are a pair; one without the other is unpaired.

* `Unpaired`: a name with only one of its two files.
* `Findings`, `Findings.ofEntries`: the pairs and the unpaired names among the entries of a
  directory.
* `discover`: those of a directory.
-/

namespace PropertyIndex

open Text

/-- The ending of contract files. -/
def contractExtension : String := "sol"

/-- The ending of spec files. -/
def specExtension : String := "spec"

/-- A name with only one of its two files. -/
structure Unpaired where
  name : String
  /-- The ending of the missing file, with its dot. -/
  missing : String
  deriving DecidableEq, Repr

/-- What is found in a directory. -/
structure Findings where
  pairs : List FilePair
  unpaired : List Unpaired
  deriving DecidableEq, Repr

/-- The names of the regular files among entries. -/
def fileNames (entries : List Entry) : List String :=
  (entries.filter Entry.isFile).map Entry.name

/-- The file names without their endings, each once and in order.  A name without an ending does
not count. -/
def stemsOf (names : List String) : NameSet :=
  NameSet.ofList ((names.filter fun name => (Path.splitName name).2.isSome).map fun name =>
    (Path.splitName name).1)

/-- The path of the file with a name and an ending in a directory, if it is there. -/
def filePath? (directory : String) (names : List String) (stem extension : String) :
    Option String :=
  (names.find? fun name => Path.splitName name == (stem, some extension)).map
    (Path.join directory)

/-- The pair of a name, if both its files are there. -/
def pairOf? (directory : String) (names : List String) (stem : String) : Option FilePair := do
  let contract ← filePath? directory names stem contractExtension
  let spec ← filePath? directory names stem specExtension
  return ⟨stem, contract, spec⟩

/-- The unpaired name, if one of its files is there without the other. -/
def unpairedOf? (directory : String) (names : List String) (stem : String) : Option Unpaired :=
  match filePath? directory names stem contractExtension,
      filePath? directory names stem specExtension with
  | some _, none => some ⟨stem, "." ++ specExtension⟩
  | none, some _ => some ⟨stem, "." ++ contractExtension⟩
  | _, _ => none

/-- The pairs and the unpaired names among the entries of a directory, in the order of their
names. -/
def Findings.ofEntries (directory : String) (entries : List Entry) : Findings :=
  let names := fileNames entries
  let stems := (stemsOf names).toList
  { pairs := stems.filterMap (pairOf? directory names)
    unpaired := stems.filterMap (unpairedOf? directory names) }

/-- The note on an unpaired name. -/
def Unpaired.note (unpaired : Unpaired) : Note :=
  ⟨.warning, unpaired.name ++ ": missing " ++ unpaired.missing ++ " file, skipped"⟩

variable {m : Type → Type} [Monad m] [Storage m]

/-- The pairs and the unpaired names in a directory.  Where there is no directory, nothing is
found. -/
def discover (directory : String) : Noting m Findings := do
  let entries ← StateT.lift (Storage.list directory)
  let findings := match entries with
    | .ok entries => Findings.ofEntries directory entries
    | .error _ => ⟨[], []⟩
  Noting.tell (findings.unpaired.map Unpaired.note)
  return findings

end PropertyIndex
