import Mathlib.Algebra.Ring.Nat
import Mathlib.Data.List.Induction
import Mathlib.Data.List.Perm.Subperm
import PropertyIndex.Batch.Pool
import PropertyIndex.Proofs.Noting
import PropertyIndex.Proofs.ReportOrder
import PropertyIndex.Storage.Tree

/-!
# Pools of workers

Whatever the order in which workers take their turns, no pair is lost or processed twice, and the
report is that of one worker who takes the pairs in order.  This asks that pairs have different
names, and that what becomes of a pair does not depend on the others that were processed before it.

* `FilePair.outcomeOn`, `storageAfter`, `IsIndependent`: what becomes of pairs on some storage.
* `outcomesAlong`, `processAll_run`: what becomes of pairs that are processed one after the other.
* `Pool.step_cases`: what a step does.
* `Pool.Tracks`: the invariant of steps, which relates the queue, the workers and the outcomes that
  were sent.
* `Pool.weight`: how many steps there are to go.
* `Pool.Accounts`, `pool_accounts`: what is true of a pool that is done.
-/

namespace PropertyIndex

variable {σ : Type} [Storage (StateM σ)] {directory : String} {storage : σ}
  {pairs : List FilePair}

/-! ## What becomes of pairs -/

/-- What becomes of a pair on some storage. -/
def FilePair.outcomeOn (directory : String) (storage : σ) (pair : FilePair) : Outcome :=
  (pair.processOn directory [] storage).1.1

/-- The notes on the processing of a pair on some storage. -/
def FilePair.notesOn (directory : String) (storage : σ) (pair : FilePair) : List Note :=
  (pair.processOn directory [] storage).1.2

/-- The storage after a pair was processed on it. -/
def FilePair.storageOn (directory : String) (storage : σ) (pair : FilePair) : σ :=
  (pair.processOn directory [] storage).2

/-- The storage after pairs were processed one after the other. -/
def storageAfter (directory : String) (storage : σ) (pairs : List FilePair) : σ :=
  pairs.foldl (FilePair.storageOn directory) storage

/-- What becomes of a pair is the same whichever others of a batch were processed before it. -/
def IsIndependent (directory : String) (storage : σ) (pairs : List FilePair) : Prop :=
  ∀ earlier pair, (earlier ++ [pair]).Subperm pairs →
    pair.outcomeOn directory (storageAfter directory storage earlier) =
      pair.outcomeOn directory storage

theorem processOn_eq (directory : String) (pair : FilePair) (notes : List Note) (storage : σ) :
    pair.processOn directory notes storage =
      ((pair.outcomeOn directory storage, notes ++ pair.notesOn directory storage),
        pair.storageOn directory storage) :=
  congrArg (StateT.run · storage) (isAppending_outcomeOf directory pair notes)

theorem isNamed_outcomeOn (directory : String) (storage : σ) (pair : FilePair) :
    (pair.outcomeOn directory storage).IsNamed :=
  fun summary h => gives_process pair directory [] storage summary h

theorem storageAfter_concat (directory : String) (storage : σ) (earlier : List FilePair)
    (pair : FilePair) : storageAfter directory storage (earlier ++ [pair]) =
      pair.storageOn directory (storageAfter directory storage earlier) :=
  List.foldl_append

/-! ## Pairs in order -/

/-- What becomes of pairs that are processed one after the other. -/
def outcomesAlong (directory : String) (storage : σ) : List FilePair → List Outcome
  | [] => []
  | pair :: pairs =>
    pair.outcomeOn directory storage ::
      outcomesAlong directory (pair.storageOn directory storage) pairs

theorem outcomesAlong_concat (directory : String) (storage : σ) (earlier : List FilePair)
    (pair : FilePair) : outcomesAlong directory storage (earlier ++ [pair]) =
      outcomesAlong directory storage earlier ++
        [pair.outcomeOn directory (storageAfter directory storage earlier)] := by
  induction earlier generalizing storage with
  | nil => rfl
  | cons first earlier ih =>
    rw [List.cons_append, outcomesAlong, ih]
    rfl

/-- What becomes of independent pairs is what becomes of each of them at first. -/
theorem outcomesAlong_eq_map (h : IsIndependent directory storage pairs)
    {processed : List FilePair} (hsub : processed.Subperm pairs) :
    outcomesAlong directory storage processed =
      processed.map (FilePair.outcomeOn directory storage) := by
  induction processed using List.reverseRecOn with
  | nil => rfl
  | append_singleton earlier pair ih =>
    rw [outcomesAlong_concat, h earlier pair hsub,
      ih ((List.sublist_append_left _ _).subperm.trans hsub), List.map_append, List.map_singleton]

/-- Processing pairs in order. -/
theorem processAll_run (directory : String) (storage : σ) (notes : List Note)
    (pairs : List FilePair) :
    (((processAll directory pairs : Noting (StateM σ) (List Outcome)).run notes).run storage).1.1 =
        outcomesAlong directory storage pairs ∧
      (((processAll directory pairs : Noting (StateM σ) (List Outcome)).run notes).run storage).2 =
        storageAfter directory storage pairs := by
  induction pairs generalizing notes storage with
  | nil => exact ⟨rfl, rfl⟩
  | cons pair pairs ih =>
    have hfirst := processOn_eq directory pair notes storage
    obtain ⟨houtcomes, hstorage⟩ := ih (pair.storageOn directory storage)
      (notes ++ pair.notesOn directory storage)
    constructor
    · show (pair.processOn directory notes storage).1.1 ::
        (((processAll directory pairs : Noting (StateM σ) (List Outcome)).run
          (pair.processOn directory notes storage).1.2).run
            (pair.processOn directory notes storage).2).1.1 = _
      rw [hfirst, houtcomes, outcomesAlong]
    · show (((processAll directory pairs : Noting (StateM σ) (List Outcome)).run
          (pair.processOn directory notes storage).1.2).run
            (pair.processOn directory notes storage).2).2 = _
      rw [hfirst, hstorage]
      rfl

/-- The report of a single worker who takes pairs in order. -/
def reportInOrder (directory : String) (storage : σ) (pairs : List FilePair) : Report :=
  (((runPairs pairs directory : Noting (StateM σ) Report).run []).run storage).1.1

theorem reportInOrder_eq_ofOutcomes (directory : String) (storage : σ) (pairs : List FilePair) :
    reportInOrder directory storage pairs =
      Report.ofOutcomes (outcomesAlong directory storage pairs) :=
  congrArg Report.ofOutcomes (processAll_run directory storage [] pairs).1

theorem reportInOrder_eq (h : IsIndependent directory storage pairs) :
    reportInOrder directory storage pairs =
      Report.ofOutcomes (pairs.map (FilePair.outcomeOn directory storage)) := by
  rw [reportInOrder_eq_ofOutcomes, outcomesAlong_eq_map h (List.Subperm.refl pairs)]

/-! ## Steps -/

namespace Worker

/-- The pair that a worker has taken and not processed. -/
def pair? : Worker → Option FilePair
  | busy pair => some pair
  | _ => none

/-- The outcome that a worker has not sent. -/
def outcome? : Worker → Option Outcome
  | finished outcome => some outcome
  | _ => none

/-- How many steps a worker has to go until it looks into the queue and finds it empty. -/
def weight : Worker → Nat
  | idle => 1
  | busy _ => 3
  | finished _ => 2
  | stopped => 0

theorem sum_weight (left right : List Worker) (worker : Worker) :
    ((left ++ worker :: right).map weight).sum =
      worker.weight + ((left ++ right).map weight).sum := by
  rw [(List.perm_middle.map weight).sum_nat, List.map_cons, List.sum_cons]

end Worker

namespace Pool

variable {pool next : Pool σ} {index : Nat}

/-- What a step does: a worker stops, takes a pair, processes it or sends its outcome. -/
theorem step_cases (h : pool.step directory index = some next) :
    ∃ left right,
      (pool.workers = left ++ .idle :: right ∧ pool.queue = [] ∧
        next = { pool with workers := left ++ .stopped :: right }) ∨
      (∃ pair queue, pool.workers = left ++ .idle :: right ∧ pool.queue = pair :: queue ∧
        next = { pool with queue, workers := left ++ .busy pair :: right }) ∨
      (∃ pair, pool.workers = left ++ .busy pair :: right ∧
        next = { pool with
          workers := left ++ .finished (pair.outcomeOn directory pool.storage) :: right
          storage := pair.storageOn directory pool.storage
          notes := pool.notes ++ pair.notesOn directory pool.storage
          processed := pool.processed ++ [pair] }) ∨
      ∃ outcome, pool.workers = left ++ .finished outcome :: right ∧
        next = { pool with workers := left ++ .idle :: right, sent := pool.sent ++ [outcome] } := by
  rw [step] at h
  rcases hworker : pool.workers[index]? with _ | worker
  · rw [hworker] at h
    exact absurd h.symm (Option.some_ne_none _)
  · obtain ⟨hlt, hget⟩ := List.getElem?_eq_some_iff.1 hworker
    have hworkers : pool.workers =
        pool.workers.take index ++ worker :: pool.workers.drop (index + 1) := by
      rw [← hget, List.getElem_cons_drop, List.take_append_drop]
    refine ⟨pool.workers.take index, pool.workers.drop (index + 1), ?_⟩
    rw [hworker] at h
    cases worker with
    | idle =>
      rcases hqueue : pool.queue with _ | ⟨pair, queue⟩
      · simp only [hqueue] at h
        rw [List.set_eq_take_append_cons_drop, if_pos hlt] at h
        exact Or.inl ⟨hworkers, rfl, (Option.some_inj.1 h).symm⟩
      · simp only [hqueue] at h
        rw [List.set_eq_take_append_cons_drop, if_pos hlt] at h
        exact Or.inr (Or.inl ⟨pair, queue, hworkers, rfl, (Option.some_inj.1 h).symm⟩)
    | busy pair =>
      simp only [processOn_eq] at h
      rw [List.set_eq_take_append_cons_drop, if_pos hlt] at h
      exact Or.inr (Or.inr (Or.inl ⟨pair, hworkers, (Option.some_inj.1 h).symm⟩))
    | finished outcome =>
      simp only at h
      rw [List.set_eq_take_append_cons_drop, if_pos hlt] at h
      exact Or.inr (Or.inr (Or.inr ⟨outcome, hworkers, (Option.some_inj.1 h).symm⟩))
    | stopped => exact absurd h.symm (Option.some_ne_none _)

/-! ## The invariant -/

/-- Nothing is lost and nothing happens twice: each pair is in the queue, taken by one worker or
processed, and each outcome of a processed pair is sent or held by one worker.  The outcomes are
those of the pairs in the order in which they were processed. -/
structure Tracks (directory : String) (storage : σ) (pairs : List FilePair) (pool : Pool σ) :
    Prop where
  pairs_perm : (pool.processed ++ (pool.workers.filterMap Worker.pair? ++ pool.queue)).Perm pairs
  sent_perm : (pool.sent ++ pool.workers.filterMap Worker.outcome?).Perm
    (outcomesAlong directory storage pool.processed)
  storage_eq : pool.storage = storageAfter directory storage pool.processed
  /-- A worker stops only when the queue is empty. -/
  queue_eq : pool.workers.any Worker.isStopped = true → pool.queue = []
  workers_ne_nil : pool.workers ≠ []

variable {left right : List Worker}

theorem Tracks.stop (h : pool.Tracks directory storage pairs)
    (hworkers : pool.workers = left ++ .idle :: right) (hqueue : pool.queue = []) :
    Tracks directory storage pairs { pool with workers := left ++ .stopped :: right } := by
  have hpairs := h.pairs_perm
  have hsent := h.sent_perm
  rw [hworkers, List.filterMap_append, List.filterMap_cons] at hpairs hsent
  refine ⟨?_, ?_, h.storage_eq, fun _ => hqueue, List.append_ne_nil_of_right_ne_nil _ nofun⟩
  · rw [List.filterMap_append, List.filterMap_cons]
    exact hpairs
  · rw [List.filterMap_append, List.filterMap_cons]
    exact hsent

theorem Tracks.take (h : pool.Tracks directory storage pairs) {pair : FilePair}
    {queue : List FilePair} (hworkers : pool.workers = left ++ .idle :: right)
    (hqueue : pool.queue = pair :: queue) :
    Tracks directory storage pairs
      { pool with queue, workers := left ++ .busy pair :: right } := by
  have hpairs := h.pairs_perm
  have hsent := h.sent_perm
  rw [hworkers, List.filterMap_append, List.filterMap_cons] at hpairs hsent
  rw [hqueue] at hpairs
  refine ⟨?_, ?_, h.storage_eq, ?_, List.append_ne_nil_of_right_ne_nil _ nofun⟩
  · rw [List.filterMap_append, List.filterMap_cons]
    exact (((List.perm_middle.append_right queue).trans List.perm_middle.symm).append_left _).trans
      hpairs
  · rw [List.filterMap_append, List.filterMap_cons]
    exact hsent
  · intro hstopped
    have hempty := h.queue_eq
    rw [hworkers, List.any_append, List.any_cons, hqueue] at hempty
    rw [List.any_append, List.any_cons] at hstopped
    exact absurd (hempty hstopped) (List.cons_ne_nil _ _)

theorem Tracks.process (h : pool.Tracks directory storage pairs) {pair : FilePair}
    (hworkers : pool.workers = left ++ .busy pair :: right) :
    Tracks directory storage pairs
      { pool with
        workers := left ++ .finished (pair.outcomeOn directory pool.storage) :: right
        storage := pair.storageOn directory pool.storage
        notes := pool.notes ++ pair.notesOn directory pool.storage
        processed := pool.processed ++ [pair] } := by
  have hpairs := h.pairs_perm
  have hsent := h.sent_perm
  rw [hworkers, List.filterMap_append, List.filterMap_cons] at hpairs hsent
  refine ⟨?_, ?_, ?_, ?_, List.append_ne_nil_of_right_ne_nil _ nofun⟩
  · rw [List.filterMap_append, List.filterMap_cons, List.append_assoc, List.singleton_append]
    exact ((List.perm_middle.symm.append_right pool.queue).append_left pool.processed).trans hpairs
  · rw [List.filterMap_append, List.filterMap_cons, outcomesAlong_concat, ← h.storage_eq]
    exact ((List.perm_middle.append_left _).trans (List.perm_middle.trans (hsent.cons _))).trans
      (List.perm_append_singleton _ _).symm
  · rw [storageAfter_concat, ← h.storage_eq]
  · intro hstopped
    refine h.queue_eq ?_
    rw [hworkers, List.any_append, List.any_cons]
    rwa [List.any_append, List.any_cons] at hstopped

theorem Tracks.send (h : pool.Tracks directory storage pairs) {outcome : Outcome}
    (hworkers : pool.workers = left ++ .finished outcome :: right) :
    Tracks directory storage pairs
      { pool with workers := left ++ .idle :: right, sent := pool.sent ++ [outcome] } := by
  have hpairs := h.pairs_perm
  have hsent := h.sent_perm
  rw [hworkers, List.filterMap_append, List.filterMap_cons] at hpairs hsent
  refine ⟨?_, ?_, h.storage_eq, ?_, List.append_ne_nil_of_right_ne_nil _ nofun⟩
  · rw [List.filterMap_append, List.filterMap_cons]
    exact hpairs
  · rw [List.filterMap_append, List.filterMap_cons, List.append_assoc, List.singleton_append]
    exact (List.perm_middle.symm.append_left _).trans hsent
  · intro hstopped
    refine h.queue_eq ?_
    rw [hworkers, List.any_append, List.any_cons]
    rwa [List.any_append, List.any_cons] at hstopped

/-- Every step keeps the invariant. -/
theorem Tracks.step (h : pool.Tracks directory storage pairs)
    (hstep : pool.step directory index = some next) : next.Tracks directory storage pairs := by
  obtain ⟨left, right, ⟨hworkers, hqueue, rfl⟩ | ⟨pair, queue, hworkers, hqueue, rfl⟩ |
    ⟨pair, hworkers, rfl⟩ | ⟨outcome, hworkers, rfl⟩⟩ := step_cases hstep
  · exact h.stop hworkers hqueue
  · exact h.take hworkers hqueue
  · exact h.process hworkers
  · exact h.send hworkers

/-- So does a run by any schedule. -/
theorem Tracks.run (h : pool.Tracks directory storage pairs) {schedule : List Nat}
    (hrun : pool.run directory schedule = some next) : next.Tracks directory storage pairs := by
  induction schedule generalizing pool with
  | nil =>
    obtain rfl := Option.some_inj.1 hrun
    exact h
  | cons index schedule ih =>
    obtain ⟨between, hstep, hrest⟩ := Option.bind_eq_some_iff.1 hrun
    exact ih (h.step hstep) hrest

theorem tracks_start (settings : Settings) (pairs : List FilePair) (storage : σ) :
    (start settings pairs storage).Tracks directory storage pairs := by
  have hworkers : (start settings pairs storage).workers =
      List.replicate (workerCount settings pairs) .idle := rfl
  have hcount : 0 < workerCount settings pairs :=
    Nat.lt_min.2 ⟨Nat.lt_of_lt_of_le Nat.one_pos (Nat.le_max_right _ _),
      Nat.lt_of_lt_of_le Nat.one_pos (Nat.le_max_right _ _)⟩
  refine ⟨?_, ?_, rfl, ?_, ?_⟩
  · rw [hworkers, List.filterMap_replicate_of_none rfl]
    exact List.Perm.refl _
  · rw [hworkers, List.filterMap_replicate_of_none rfl]
    exact List.Perm.refl _
  · rw [hworkers, List.any_replicate, if_neg (Nat.ne_of_gt hcount)]
    exact fun h => absurd h Bool.false_ne_true
  · rw [hworkers, Ne, List.replicate_eq_nil_iff]
    exact Nat.ne_of_gt hcount

/-! ## Progress -/

/-- How many steps a pool has to go until all workers have stopped. -/
def weight (pool : Pool σ) : Nat :=
  3 * pool.queue.length + (pool.workers.map Worker.weight).sum

theorem weight_step (hstep : pool.step directory index = some next) :
    next.weight + 1 = pool.weight := by
  obtain ⟨left, right, ⟨hworkers, hqueue, rfl⟩ | ⟨pair, queue, hworkers, hqueue, rfl⟩ |
    ⟨pair, hworkers, rfl⟩ | ⟨outcome, hworkers, rfl⟩⟩ := step_cases hstep
  · simp only [weight, hworkers, Worker.sum_weight, Worker.weight]
    omega
  · simp only [weight, hworkers, hqueue, Worker.sum_weight, Worker.weight, List.length_cons]
    omega
  · simp only [weight, hworkers, Worker.sum_weight, Worker.weight]
    omega
  · simp only [weight, hworkers, Worker.sum_weight, Worker.weight]
    omega

theorem weight_run {schedule : List Nat} (hrun : pool.run directory schedule = some next) :
    next.weight + schedule.length = pool.weight := by
  induction schedule generalizing pool with
  | nil =>
    obtain rfl := Option.some_inj.1 hrun
    rfl
  | cons index schedule ih =>
    obtain ⟨between, hstep, hrest⟩ := Option.bind_eq_some_iff.1 hrun
    rw [← weight_step hstep, ← ih hrest, List.length_cons, Nat.add_assoc]

omit [Storage (StateM σ)] in
theorem weight_start (settings : Settings) (pairs : List FilePair) (storage : σ) :
    (start settings pairs storage).weight = 3 * pairs.length + workerCount settings pairs := by
  rw [weight, start, List.map_replicate, List.sum_replicate_nat, Worker.weight, Nat.mul_one]

/-- As long as a worker has not stopped there is a step. -/
theorem exists_step (h : pool.isDone = false) :
    ∃ index next, pool.step directory index = some next := by
  obtain ⟨worker, hmem, hrunning⟩ := List.all_eq_false.1 h
  obtain ⟨index, hindex⟩ := List.mem_iff_getElem?.1 hmem
  refine ⟨index, ?_⟩
  rw [step, hindex]
  cases worker with
  | idle => cases pool.queue <;> exact ⟨_, rfl⟩
  | busy pair => exact ⟨_, rfl⟩
  | finished outcome => exact ⟨_, rfl⟩
  | stopped => exact absurd rfl hrunning

/-- There is a schedule by which all workers stop. -/
theorem exists_run (directory : String) (pool : Pool σ) :
    ∃ schedule last, pool.run directory schedule = some last ∧ last.isDone = true := by
  induction hweight : pool.weight generalizing pool with
  | zero =>
    rcases hdone : pool.isDone with _ | _
    · obtain ⟨index, next, hstep⟩ := @exists_step _ _ directory _ hdone
      have hless := weight_step hstep
      omega
    · exact ⟨[], pool, rfl, hdone⟩
  | succ weight ih =>
    rcases hdone : pool.isDone with _ | _
    · obtain ⟨index, next, hstep⟩ := @exists_step _ _ directory _ hdone
      have hless := weight_step hstep
      obtain ⟨schedule, last, hrun, hlast⟩ := ih next (by omega)
      exact ⟨index :: schedule, last, Option.bind_eq_some_iff.2 ⟨next, hstep, hrun⟩, hlast⟩
    · exact ⟨[], pool, rfl, hdone⟩

/-! ## Pools that are done -/

/-- What is true of a pool that is done.  What becomes of a pair is told for the storage at the
start. -/
structure Accounts (directory : String) (storage : σ) (pairs : List FilePair) (pool : Pool σ) :
    Prop where
  /-- Each pair was processed, once. -/
  processed_perm : pool.processed.Perm pairs
  sent_perm : pool.sent.Perm (pairs.map (FilePair.outcomeOn directory storage))
  /-- Each name is in one of the two lists, once. -/
  names_perm : (pool.report.indexed.map Summary.name ++
    pool.report.failed.map Rejected.name).Perm (pairs.map FilePair.name)
  mem_indexed : ∀ pair ∈ pairs, ∀ summary,
    (pair.outcomeOn directory storage).result = .ok summary →
      summary.name = pair.name ∧ summary ∈ pool.report.indexed
  mem_failed : ∀ pair ∈ pairs, ∀ failure,
    (pair.outcomeOn directory storage).result = .error failure →
      ⟨pair.name, failure.message⟩ ∈ pool.report.failed
  pairwise_indexed : pool.report.indexed.Pairwise fun a b => a.name < b.name
  pairwise_failed : pool.report.failed.Pairwise fun a b => a.name < b.name
  report_eq : pool.report = reportInOrder directory storage pairs

omit [Storage (StateM σ)] in
/-- Nothing is left with workers that have stopped. -/
theorem filterMap_workers_of_isDone {β : Type} {f : Worker → Option β} (hf : f .stopped = none)
    (h : pool.isDone = true) : pool.workers.filterMap f = [] := by
  refine List.filterMap_eq_nil_iff.2 fun worker hmem => ?_
  have hstopped := List.all_eq_true.1 h worker hmem
  cases worker with
  | stopped => exact hf
  | idle => exact absurd hstopped Bool.false_ne_true
  | busy pair => exact absurd hstopped Bool.false_ne_true
  | finished outcome => exact absurd hstopped Bool.false_ne_true

theorem Tracks.queue_eq_nil (h : pool.Tracks directory storage pairs)
    (hdone : pool.isDone = true) : pool.queue = [] := by
  obtain ⟨worker, workers, hworkers⟩ := List.exists_cons_of_ne_nil h.workers_ne_nil
  have hmem : worker ∈ pool.workers := hworkers ▸ List.mem_cons_self
  exact h.queue_eq (List.any_eq_true.2 ⟨worker, hmem, List.all_eq_true.1 hdone worker hmem⟩)

theorem Tracks.processed_perm (h : pool.Tracks directory storage pairs)
    (hdone : pool.isDone = true) : pool.processed.Perm pairs := by
  have hpairs := h.pairs_perm
  rwa [filterMap_workers_of_isDone rfl hdone, h.queue_eq_nil hdone, List.append_nil,
    List.append_nil] at hpairs

theorem Tracks.sent_perm_of_isDone (h : pool.Tracks directory storage pairs)
    (hdone : pool.isDone = true) :
    pool.sent.Perm (outcomesAlong directory storage pool.processed) := by
  have hsent := h.sent_perm
  rwa [filterMap_workers_of_isDone rfl hdone, List.append_nil] at hsent

theorem Tracks.accounts (h : pool.Tracks directory storage pairs)
    (hindependent : IsIndependent directory storage pairs)
    (hnames : (pairs.map FilePair.name).Nodup) (hdone : pool.isDone = true) :
    pool.Accounts directory storage pairs := by
  have hprocessed := h.processed_perm hdone
  have hsent : pool.sent.Perm (pairs.map (FilePair.outcomeOn directory storage)) := by
    have halong := h.sent_perm_of_isDone hdone
    rw [outcomesAlong_eq_map hindependent hprocessed.subperm] at halong
    exact halong.trans (hprocessed.map _)
  have hnamed : ∀ outcome ∈ pool.sent, outcome.IsNamed := by
    intro outcome hmem
    obtain ⟨pair, -, rfl⟩ := List.mem_map.1 (hsent.mem_iff.1 hmem)
    exact isNamed_outcomeOn directory storage pair
  have hsentNames : (pool.sent.map Outcome.name).Perm (pairs.map FilePair.name) := by
    have hmap := hsent.map Outcome.name
    rwa [List.map_map] at hmap
  have hnodup := hsentNames.nodup_iff.2 hnames
  have hmem {pair : FilePair} (hpair : pair ∈ pairs) :
      pair.outcomeOn directory storage ∈ pool.sent :=
    hsent.mem_iff.2 (List.mem_map_of_mem hpair)
  exact
    { processed_perm := hprocessed
      sent_perm := hsent
      names_perm := (Report.names_ofOutcomes hnamed).trans hsentNames
      mem_indexed := fun pair hpair summary hresult =>
        ⟨isNamed_outcomeOn directory storage pair summary hresult,
          Report.mem_indexed (hmem hpair) hresult⟩
      mem_failed := fun pair hpair failure hresult => Report.mem_failed (hmem hpair) hresult
      pairwise_indexed := Report.pairwise_indexed hnamed hnodup
      pairwise_failed := Report.pairwise_failed hnamed hnodup
      report_eq := by
        rw [report, reportInOrder_eq hindependent]
        exact Report.ofOutcomes_eq_of_perm hnamed hnodup hsent }

end Pool

/-- Whatever the schedule and the number of workers, a pool goes on until all workers have stopped,
and then each pair was processed once and the report is that of a single worker who takes the pairs
in order. -/
theorem pool_accounts (settings : Settings) (pairs : List FilePair) (storage : σ)
    (hnames : (pairs.map FilePair.name).Nodup)
    (hindependent : IsIndependent settings.outputDirectory storage pairs)
    (schedule : List Nat) (pool : Pool σ)
    (hrun : (Pool.start settings pairs storage).run settings.outputDirectory schedule = some pool) :
    (pool.isDone = true → pool.Accounts settings.outputDirectory storage pairs) ∧
      (pool.isDone = false →
        ∃ index next, pool.step settings.outputDirectory index = some next) ∧
      schedule.length ≤ 3 * pairs.length + workerCount settings pairs := by
  have htracks := (Pool.tracks_start settings pairs storage).run hrun
  refine ⟨htracks.accounts hindependent hnames, Pool.exists_step, ?_⟩
  rw [← Pool.weight_start settings pairs storage, ← Pool.weight_run hrun]
  exact Nat.le_add_left _ _

/-- Two pairs, of which the second one has no files. -/
def twoPairs : List FilePair :=
  [⟨"b", "b.sol", "b.spec"⟩, ⟨"a", "a.sol", "a.spec"⟩]

/-- The files of the first pair. -/
def twoFiles : Tree :=
  (Tree.empty.put ["b.sol", "work"] (.file (.text ""))).put ["b.spec", "work"] (.file (.text ""))

def twoJobs : Settings :=
  { Settings.initial with outputDirectory := "out", jobs := 2 }

theorem isIndependent_twoPairs : IsIndependent "out" twoFiles twoPairs := by
  intro earlier pair h
  have hlength : (earlier ++ [pair]).length ≤ 2 := h.length_le
  have hmem {other : FilePair} (hother : other ∈ earlier ++ [pair]) :
      other = ⟨"b", "b.sol", "b.spec"⟩ ∨ other = ⟨"a", "a.sol", "a.spec"⟩ := by
    rw [← List.mem_pair]
    exact h.subset hother
  rcases earlier with _ | ⟨other, _ | ⟨third, rest⟩⟩
  · rfl
  · rcases hmem List.mem_cons_self with rfl | rfl <;>
      rcases hmem (List.mem_append_right _ (List.mem_singleton_self _)) with rfl | rfl <;> rfl
  · rw [List.length_append, List.length_cons, List.length_cons, List.length_singleton] at hlength
    omega

/-- The second worker overtakes the first one and sends its failure before. -/
theorem pool_accounts_twoPairs :
    (twoPairs.map FilePair.name).Nodup ∧ IsIndependent "out" twoFiles twoPairs ∧
      ∃ pool,
        (Pool.start twoJobs twoPairs twoFiles).run "out" [0, 1, 1, 0, 1, 0, 1, 0] = some pool ∧
        pool.isDone = true ∧
        pool.sent.map (fun outcome => (outcome.name, outcome.result.isOk)) =
          [("a", false), ("b", true)] ∧
        pool.Accounts "out" twoFiles twoPairs := by
  have hnames : (twoPairs.map FilePair.name).Nodup := by decide
  have hrun : ((Pool.start twoJobs twoPairs twoFiles).run "out" [0, 1, 1, 0, 1, 0, 1, 0]).map
      (fun pool => (pool.isDone,
        pool.sent.map fun outcome => (outcome.name, outcome.result.isOk))) =
        some (true, [("a", false), ("b", true)]) := by decide +kernel
  obtain ⟨pool, hpool, hshown⟩ := Option.map_eq_some_iff.1 hrun
  obtain ⟨hdone, hsent⟩ := Prod.mk.inj hshown
  exact ⟨hnames, isIndependent_twoPairs, pool, hpool, hdone, hsent,
    (pool_accounts twoJobs twoPairs twoFiles hnames isIndependent_twoPairs _ pool hpool).1 hdone⟩

end PropertyIndex
