/-!
# Settings

* `Settings`: where sources come from, where artifacts go, and how many workers there are.
* `Settings.initial`: the settings where nothing is said.
* `Settings.withOverrides`: settings of which some are given on the command line.
-/

namespace PropertyIndex

/-- What a run needs to know. -/
structure Settings where
  /-- The directory of the artifacts. -/
  outputDirectory : String
  /-- The directory of the contracts and specs. -/
  inputDirectory : String
  /-- How many workers are asked for. -/
  jobs : Nat
  deriving DecidableEq, Repr

namespace Settings

/-- The settings where nothing is said. -/
def initial : Settings :=
  { outputDirectory := "DataIndex/raw_index"
    inputDirectory := "ContractsAndProperties"
    jobs := 1 }

/-- Settings of which some are given anew. -/
def withOverrides (settings : Settings) (inputDirectory outputDirectory : Option String)
    (jobs : Option Nat) : Settings :=
  { outputDirectory := outputDirectory.getD settings.outputDirectory
    inputDirectory := inputDirectory.getD settings.inputDirectory
    jobs := jobs.getD settings.jobs }

/-- How many workers there are: one at least. -/
def workers (settings : Settings) : Nat :=
  max settings.jobs 1

end Settings

end PropertyIndex
