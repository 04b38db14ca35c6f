import PropertyIndex.Note
import PropertyIndex.Storage.Basic

/-!
# Runs

A run works on storage, collects notes and may end in a failure.  The notes of a run that fails
are kept.

* `Failure`, `Failure.message`: why a run ends early.
* `Run`: the type of runs.
* `Run.attempt`, `Run.tell`: an operation on storage, and notes, as runs.
-/

namespace PropertyIndex

/-- Why a run ends early. -/
inductive Failure where
  /-- A source cannot be read. -/
  | missingInput (path : String) (fault : Fault)
  /-- An artifact cannot be written. -/
  | outputWrite (path : String) (fault : Fault)
  /-- A file with settings cannot be read. -/
  | settingsRead (path : String) (fault : Fault)
  /-- A file with settings has no settings in it. -/
  | settingsParse (path : String)
  deriving DecidableEq, Repr

/-- The wording of a failure. -/
def Failure.message : Failure → String
  | missingInput path fault => "cannot read input " ++ path ++ ": " ++ fault.message
  | outputWrite path fault => "cannot write output " ++ path ++ ": " ++ fault.message
  | settingsRead path fault => "cannot read config file " ++ path ++ ": " ++ fault.message
  | settingsParse path => "cannot parse config file " ++ path ++ ": not a mapping of settings"

/-- Work on storage that collects notes and never fails. -/
abbrev Noting (m : Type → Type) := StateT (List Note) m

/-- Work on storage that collects notes and may fail. -/
abbrev Run (m : Type → Type) := ExceptT Failure (Noting m)

variable {m : Type → Type} [Monad m]

/-- Adds notes. -/
def Noting.tell (notes : List Note) : Noting m Unit :=
  modify fun earlier => earlier ++ notes

namespace Run

/-- Adds notes. -/
def tell (notes : List Note) : Run m Unit :=
  ExceptT.lift (Noting.tell notes)

/-- An operation on storage, of which a fault becomes a failure. -/
def attempt (failure : Fault → Failure) (operation : m (Except Fault α)) : Run m α :=
  ExceptT.mk do
    let result ← StateT.lift operation
    return result.mapError failure

end Run

end PropertyIndex
