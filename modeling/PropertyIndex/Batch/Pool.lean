import PropertyIndex.Batch.Report
import PropertyIndex.Settings.Basic

/-!
# A pool of workers

A batch may be shared out among workers.  Each worker takes the next pair from a common queue,
processes it on the common storage and sends what became of it, until the queue is empty.  The
order in which workers act is open: a schedule says whose turn it is, step by step.

* `Worker`, `Pool`: what each worker is doing, and all that the workers share.
* `workerCount`, `Pool.start`: a pool before its first step.
* `Pool.step`, `Pool.run`: a step of one worker, and a run by a schedule.
* `Pool.isDone`, `Pool.report`: whether all workers have stopped, and the report on what was sent.
-/

namespace PropertyIndex

/-- What a worker is doing. -/
inductive Worker where
  /-- It is about to look into the queue. -/
  | idle
  /-- It has taken a pair and is about to process it. -/
  | busy (pair : FilePair)
  /-- It has processed a pair and is about to send the outcome. -/
  | finished (outcome : Outcome)
  /-- It has found the queue empty. -/
  | stopped

namespace Worker

/-- Whether a worker has found the queue empty. -/
def isStopped : Worker → Bool
  | stopped => true
  | _ => false

end Worker

/-- The state of a pool of workers on storage of type `σ`. -/
structure Pool (σ : Type) where
  /-- The pairs that no worker has taken yet. -/
  queue : List FilePair
  workers : List Worker
  storage : σ
  notes : List Note
  /-- The pairs in the order in which they were processed. -/
  processed : List FilePair
  /-- The outcomes in the order in which they were sent. -/
  sent : List Outcome

/-- How many workers a batch has: as many as the settings give, but no more than there are pairs
unless there are none. -/
def workerCount (settings : Settings) (pairs : List FilePair) : Nat :=
  min settings.workers (max pairs.length 1)

/-- What comes of processing a pair on some storage, with the notes and the storage after it. -/
def FilePair.processOn [Storage (StateM σ)] (directory : String) (pair : FilePair)
    (notes : List Note) (storage : σ) : (Outcome × List Note) × σ :=
  ((outcomeOf directory pair : Noting (StateM σ) Outcome).run notes).run storage

namespace Pool

/-- A pool before its first step. -/
def start (settings : Settings) (pairs : List FilePair) (storage : σ) : Pool σ :=
  { queue := pairs
    workers := List.replicate (workerCount settings pairs) .idle
    storage
    notes := []
    processed := []
    sent := [] }

/-- A step of the worker with an index, unless it has stopped. -/
def step [Storage (StateM σ)] (directory : String) (pool : Pool σ) (index : Nat) :
    Option (Pool σ) :=
  match pool.workers[index]? with
  | some .idle =>
    match pool.queue with
    | [] => some { pool with workers := pool.workers.set index .stopped }
    | pair :: queue =>
      some { pool with queue, workers := pool.workers.set index (.busy pair) }
  | some (.busy pair) =>
    let ((outcome, notes), storage) := pair.processOn directory pool.notes pool.storage
    some { pool with
      workers := pool.workers.set index (.finished outcome)
      storage
      notes
      processed := pool.processed ++ [pair] }
  | some (.finished outcome) =>
    some { pool with
      workers := pool.workers.set index .idle
      sent := pool.sent ++ [outcome] }
  | some .stopped => none
  | none => none

/-- The steps of the workers whose indices a schedule lists, one after the other. -/
def run [Storage (StateM σ)] (directory : String) (pool : Pool σ) (schedule : List Nat) :
    Option (Pool σ) :=
  schedule.foldlM (step directory) pool

/-- Whether all workers have stopped. -/
def isDone (pool : Pool σ) : Bool :=
  pool.workers.all Worker.isStopped

/-- The report on the outcomes that were sent. -/
def report (pool : Pool σ) : Report :=
  Report.ofOutcomes pool.sent

end Pool

end PropertyIndex
