import PropertyIndex.Analysis
import PropertyIndex.Batch.Run
import PropertyIndex.Record.Json
import PropertyIndex.Storage.Path

/-!
# Pairs of files

A pair is a contract file with the spec that verifies it.  Processing a pair reads both, indexes
them and writes the records as an artifact.

* `FilePair`: the two paths and the name that they share.
* `FilePair.index`, `FilePair.process`: indexing a pair, without and with writing the artifact.
* `writeArtifact`: writing records to a path.
* `Summary`: what is told of a processed pair.
-/

namespace PropertyIndex

/-- A contract file and the spec that verifies it. -/
structure FilePair where
  /-- The name that the artifact is called after. -/
  name : String
  contract : String
  spec : String
  deriving DecidableEq, Repr

/-- What is told of a processed pair. -/
structure Summary where
  name : String
  /-- The path of the artifact. -/
  output : String
  /-- How many records there are, that of the contract included. -/
  records : Nat
  /-- How many records are about a property. -/
  properties : Nat
  /-- How many records are handed on for retrieval. -/
  embeddable : Nat
  deriving DecidableEq, Repr

/-- The summary of a pair with its artifact. -/
def Summary.of (name output : String) (records : List Record) : Summary :=
  { name
    output
    records := records.length
    properties := (records.filter Record.isProperty).length
    embeddable := (records.filter Record.isEmbeddable).length }

variable {m : Type → Type} [Monad m] [Storage m]

/-- The text of a source. -/
def readInput (path : String) : Run m String :=
  Run.attempt (.missingInput path) (Storage.readText path)

/-- Writes records to a path, and makes the directory that it lies in. -/
def writeArtifact (records : List Record) (path : String) : Run m Unit := do
  match Path.parent? path with
  | none => pure ()
  | some parent =>
    if parent != "" then
      Run.attempt (.outputWrite parent) (Storage.createDirectories parent)
  Run.attempt (.outputWrite path) (Storage.writeText path (artifact records))

namespace FilePair

/-- The pair of two paths, named after the contract. -/
def ofPaths (contract spec : String) : FilePair :=
  { name := (Path.stem? contract).getD "", contract, spec }

/-- The path of the artifact inside a directory. -/
def outputPath (pair : FilePair) (directory : String) : String :=
  Path.join directory (pair.name ++ "_index.json")

/-- The file name of the contract. -/
def contractName (pair : FilePair) : String :=
  (Path.fileName? pair.contract).getD (pair.name ++ ".sol")

/-- The records of a pair. -/
def index (pair : FilePair) : Run m (List Record) := do
  let contract ← readInput pair.contract
  let spec ← readInput pair.spec
  let inputs : Inputs :=
    { contractName := pair.contractName, contract, specFile := pair.spec, spec }
  Run.tell inputs.notes
  return inputs.records

/-- Indexes a pair and writes its artifact into a directory. -/
def process (pair : FilePair) (directory : String) : Run m Summary := do
  let records ← pair.index
  let output := pair.outputPath directory
  writeArtifact records output
  let summary := Summary.of pair.name output records
  Run.tell [⟨.info, pair.name ++ ": " ++ toString summary.records ++ " record(s) written to " ++
    output⟩]
  return summary

end FilePair

end PropertyIndex
