import PropertyIndex.Batch.Discovery

/-!
# Batches of pairs

A batch processes pairs one by one.  A pair that fails is reported and does not stop the others,
and the report is in the order of the names, whatever the order of processing was.

* `Rejected`, `Report`: a failed pair, and the result of a batch.
* `Outcome`, `Report.ofOutcomes`: the result of single pairs, and the report on them.
* `processAll`, `runPairs`, `runBatch`: batches of given pairs and of a directory.
-/

namespace PropertyIndex

/-- A pair that failed. -/
structure Rejected where
  name : String
  /-- The wording of the failure. -/
  error : String
  deriving DecidableEq, Repr

/-- The result of a batch. -/
structure Report where
  indexed : List Summary
  failed : List Rejected
  unpaired : List Unpaired
  deriving DecidableEq, Repr

/-- What became of a pair. -/
structure Outcome where
  name : String
  result : Except Failure Summary

namespace Outcome

/-- The summary of a pair that was processed. -/
def summary? (outcome : Outcome) : Option Summary :=
  match outcome.result with
  | .ok summary => some summary
  | .error _ => none

/-- The entry of a pair that failed. -/
def rejected? (outcome : Outcome) : Option Rejected :=
  match outcome.result with
  | .ok _ => none
  | .error failure => some ⟨outcome.name, failure.message⟩

end Outcome

namespace Report

/-- How many records were written. -/
def totalRecords (report : Report) : Nat :=
  report.indexed.foldr (fun summary total => summary.records + total) 0

/-- Whether no pair failed and no file was left alone. -/
def isClean (report : Report) : Bool :=
  report.failed.isEmpty && report.unpaired.isEmpty

/-- The report on outcomes that came in some order. -/
def ofOutcomes (outcomes : List Outcome) : Report :=
  { indexed := (outcomes.filterMap Outcome.summary?).mergeSort fun a b => a.name ≤ b.name
    failed := (outcomes.filterMap Outcome.rejected?).mergeSort fun a b => a.name ≤ b.name
    unpaired := [] }

end Report

/-- The note on a failed pair. -/
def Rejected.note (rejected : Rejected) : Note :=
  ⟨.warning, rejected.name ++ ": skipped: " ++ rejected.error⟩

variable {m : Type → Type} [Monad m] [Storage m]

/-- Processes a pair, whatever becomes of it. -/
def outcomeOf (directory : String) (pair : FilePair) : Noting m Outcome := do
  let result ← (pair.process directory).run
  return ⟨pair.name, result⟩

/-- Processes pairs one after the other. -/
def processAll (directory : String) : List FilePair → Noting m (List Outcome)
  | [] => return []
  | pair :: pairs => do
    let outcome ← outcomeOf directory pair
    return outcome :: (← processAll directory pairs)

/-- Processes pairs and reports on them. -/
def runPairs (pairs : List FilePair) (directory : String) : Noting m Report := do
  let outcomes ← processAll directory pairs
  Noting.tell ((outcomes.filterMap Outcome.rejected?).map Rejected.note)
  return Report.ofOutcomes outcomes

/-- Processes the pairs of a directory that are to be kept, with the given number of workers. -/
def runBatch (inputDirectory outputDirectory : String) (workers : Nat)
    (keep : FilePair → Bool) : Run m Report := do
  let _ ← Run.attempt (.missingInput inputDirectory) (Storage.list inputDirectory)
  let findings ← ExceptT.lift (discover inputDirectory)
  let pairs := findings.pairs.filter keep
  Run.tell [⟨.info, "found " ++ toString pairs.length ++ " pair(s) in " ++ inputDirectory ++
    " using " ++ toString workers ++ " worker(s)"⟩]
  let report ← ExceptT.lift (runPairs pairs outputDirectory)
  return { report with unpaired := findings.unpaired }

end PropertyIndex
