import Mathlib.Data.List.Forall2
import PropertyIndex.Proofs.SettledPair

/-!
# Batches that are run again

A batch can be run again in place.  The artifacts and directories of the first run neither become
sources nor make a pair fail that did not fail before, so the second run reports the same and leaves
everything as it is, also when artifacts are put among the sources.  There is one exception: when
the directory of artifacts cannot be made, and its path goes up from a directory that was not there
at first, the second run may be told otherwise why.

* `Report.IsRepeatedBy`: reports that agree up to that exception.
* `outcomesAlong_of_settled`: pairs that are settled already.
* `runBatch_on`: a batch in order, and `Settings.BatchEnds`, a batch by workers.
* `batch_rerun`: running a batch again, with `not_forall_rerun_eq` for the exception.
-/

namespace PropertyIndex

open PropertyIndex.Tree (Repeats)

/-! ## Reports -/

/-- What is told of a pair that failed once more: the same, or that a step is no directory where
something exists that is none. -/
def Rejected.IsRepeatedBy (directory : String) (first again : Rejected) : Prop :=
  again = first ∨ ".." ∈ Tree.steps directory ∧
    ∃ path, first.error = (Failure.outputWrite path .alreadyExists).message ∧
      again = ⟨first.name, (Failure.outputWrite path .notDirectory).message⟩

/-- The report of a second run. -/
structure Report.IsRepeatedBy (directory : String) (first again : Report) : Prop where
  indexed_eq : again.indexed = first.indexed
  unpaired_eq : again.unpaired = first.unpaired
  failed : List.Forall₂ (Rejected.IsRepeatedBy directory) first.failed again.failed

/-- Where the path of the directory does not go up, the reports are the same. -/
theorem Report.IsRepeatedBy.eq {directory : String} {first again : Report}
    (h : first.IsRepeatedBy directory again) (hup : ".." ∉ Tree.steps directory) :
    again = first := by
  obtain ⟨hindexed, hunpaired, hfailed⟩ := h
  have heq : first.failed = again.failed := by
    refine List.forall₂_eq_eq_eq ▸ hfailed.imp fun rejected rejected' hrepeated => ?_
    rcases hrepeated with heq | ⟨hmem, -⟩
    · exact heq.symm
    · exact absurd hmem hup
  cases first
  cases again
  simp_all

section Sorting

variable {α β : Type} {key : β → String} {name : α → String} {R : α → α → Prop} {l l' : List α}

/-- Sorting before or after a function that keeps names. -/
theorem map_mergeSort_names {f : β → α} {list : List β} (h : ∀ b ∈ list, key b = name (f b)) :
    (list.mergeSort fun a b => key a ≤ key b).map f =
      (list.map f).mergeSort fun a b => name a ≤ name b :=
  List.map_mergeSort fun a ha b hb => by rw [h a ha, h b hb]

/-- Sorting by names keeps what corresponds together. -/
theorem forall₂_mergeSort (h : List.Forall₂ R l l') (hname : ∀ a b, R a b → name a = name b) :
    List.Forall₂ R (l.mergeSort fun a b => name a ≤ name b)
      (l'.mergeSort fun a b => name a ≤ name b) := by
  obtain ⟨hlength, hzip⟩ := List.forall₂_iff_zip.1 h
  have hleft : ∀ pair ∈ l.zip l', name pair.1 = name pair.1 := fun _ _ => rfl
  have hright : ∀ pair ∈ l.zip l', name pair.1 = name pair.2 := fun _ hpair =>
    hname _ _ (hzip hpair)
  have hfirst := map_mergeSort_names hleft
  have hsecond := map_mergeSort_names hright
  rw [List.map_fst_zip (Nat.le_of_eq hlength)] at hfirst
  rw [List.map_snd_zip (Nat.le_of_eq hlength.symm)] at hsecond
  rw [← hfirst, ← hsecond, List.forall₂_map_left_iff, List.forall₂_map_right_iff,
    List.forall₂_same]
  exact fun pair hpair => hzip (List.mem_mergeSort.1 hpair)

end Sorting

/-- What becomes of a pair the second time. -/
def Outcome.IsRepeatedBy (directory : String) (first again : Outcome) : Prop :=
  again.name = first.name ∧ Repeats directory first.result again.result

section Outcomes

variable {directory : String} {first again : Outcome} {outcomes others : List Outcome}

theorem Outcome.IsRepeatedBy.summary?_eq (h : first.IsRepeatedBy directory again) :
    again.summary? = first.summary? := by
  rw [summary?, summary?]
  rcases h.2 with heq | ⟨-, path, hfirst, hagain⟩
  · rw [heq]
  · rw [hfirst, hagain]

theorem Outcome.IsRepeatedBy.rejected? (h : first.IsRepeatedBy directory again) :
    Option.Rel (Rejected.IsRepeatedBy directory) first.rejected? again.rejected? := by
  rw [Outcome.rejected?, Outcome.rejected?, h.1]
  rcases h.2 with heq | ⟨hup, path, hfirst, hagain⟩
  · rw [heq]
    rcases first.result with failure | summary
    · exact .some (Or.inl rfl)
    · exact .none
  · rw [hfirst, hagain]
    exact .some (Or.inr ⟨hup, path, rfl, rfl⟩)

/-- The reports on what becomes of pairs the first and the second time. -/
theorem Report.isRepeatedBy_ofOutcomes
    (h : List.Forall₂ (Outcome.IsRepeatedBy directory) outcomes others) :
    (ofOutcomes outcomes).IsRepeatedBy directory (ofOutcomes others) where
  indexed_eq := by
    have hsummaries : outcomes.filterMap Outcome.summary? = others.filterMap Outcome.summary? := by
      induction h with
      | nil => rfl
      | cons hrepeated _ ih =>
        rw [List.filterMap_cons, List.filterMap_cons, hrepeated.summary?_eq, ih]
    rw [ofOutcomes, ofOutcomes, hsummaries]
  unpaired_eq := rfl
  failed := by
    refine forall₂_mergeSort (List.rel_filterMap (fun _ _ hrepeated => hrepeated.rejected?) h) ?_
    rintro rejected rejected' (rfl | ⟨-, path, -, rfl⟩)
    · rfl
    · rfl

end Outcomes

/-! ## Settled pairs -/

/-- A settled pair changes nothing, and what becomes of it repeats what became of it before. -/
theorem FilePair.IsSettled.isRepeatedBy {tree : Tree} {directory : String} {pair : FilePair}
    {result : Except Failure Summary} {outcome : Outcome}
    (h : pair.IsSettled tree directory result) (hname : outcome.name = pair.name)
    (hrepeats : Repeats directory outcome.result result) :
    pair.storageOn directory tree = tree ∧
      outcome.IsRepeatedBy directory (pair.outcomeOn directory tree) := by
  rw [storageOn_eq, outcomeOn_eq, h.process_eq]
  exact ⟨rfl, hname.symm, hrepeats⟩

section Settled

variable {σ : Type} [Storage (StateM σ)] {directory : String} {storage : σ} {pairs : List FilePair}

/-- Pairs whose processing changes nothing give what they give by themselves. -/
theorem outcomesAlong_of_settled (h : ∀ pair ∈ pairs, pair.storageOn directory storage = storage) :
    storageAfter directory storage pairs = storage ∧
      outcomesAlong directory storage pairs = pairs.map (FilePair.outcomeOn directory storage) := by
  induction pairs with
  | nil => exact ⟨rfl, rfl⟩
  | cons pair pairs ih =>
    obtain ⟨hpair, hpairs⟩ := List.forall_mem_cons.1 h
    obtain ⟨hstorage, houtcomes⟩ := ih hpairs
    constructor
    · rw [storageAfter, List.foldl_cons, hpair]
      exact hstorage
    · rw [outcomesAlong, hpair, houtcomes, List.map_cons]

end Settled

/-! ## Batches -/

section Runs

variable {σ : Type} [Storage (StateM σ)] {directory : String} {storage : σ} {pairs : List FilePair}

theorem isNamed_of_mem_outcomesAlong {outcome : Outcome}
    (h : outcome ∈ outcomesAlong directory storage pairs) : outcome.IsNamed := by
  induction pairs generalizing storage with
  | nil => exact absurd h List.not_mem_nil
  | cons pair pairs ih =>
    rcases List.mem_cons.1 h with rfl | hmem
    · exact isNamed_outcomeOn directory storage pair
    · exact ih hmem

theorem names_outcomesAlong (directory : String) (storage : σ) (pairs : List FilePair) :
    (outcomesAlong directory storage pairs).map Outcome.name = pairs.map FilePair.name := by
  induction pairs generalizing storage with
  | nil => rfl
  | cons pair pairs ih =>
    rw [outcomesAlong, List.map_cons, List.map_cons, ih]
    rfl

end Runs

theorem Run.on_lift {σ α : Type} (x : Noting (StateM σ) α) (storage : σ) :
    Run.on (ExceptT.lift x) storage =
      (.ok ((x.run []).run storage).1.1, ((x.run []).run storage).2) := rfl

/-- A batch that processes its pairs in order. -/
theorem runBatch_on (inputDirectory outputDirectory : String) (workers : Nat)
    (keep : FilePair → Bool) (tree : Tree) :
    (runBatch inputDirectory outputDirectory workers keep : Run (StateM Tree) Report).on tree =
      match tree.list inputDirectory with
      | .error fault => (.error (.missingInput inputDirectory fault), tree)
      | .ok entries =>
        let findings := Findings.ofEntries inputDirectory entries
        let pairs := findings.pairs.filter keep
        (.ok { Report.ofOutcomes (outcomesAlong outputDirectory tree pairs) with
          unpaired := findings.unpaired }, storageAfter outputDirectory tree pairs) := by
  have hlist : (Run.attempt (.missingInput inputDirectory) (Storage.list inputDirectory) :
      Run (StateM Tree) (List Entry)).on tree =
        ((tree.list inputDirectory).mapError (.missingInput inputDirectory), tree) := rfl
  rcases hentries : tree.list inputDirectory with fault | entries
  · rw [hentries] at hlist
    exact Run.on_bind_of_error hlist
  · rw [hentries] at hlist
    have hdiscover : Run.on (ExceptT.lift (discover inputDirectory)) tree =
        (.ok (Findings.ofEntries inputDirectory entries), tree) := by
      rw [Run.on_lift, discover_run hentries]
    have hrest (pairs : List FilePair) (unpaired : List Unpaired) : Run.IsAppending (do
        let report ← ExceptT.lift (runPairs pairs outputDirectory)
        return { report with unpaired } : Run (StateM Tree) Report) :=
      Run.isAppending_bind (Run.isAppending_lift (isAppending_runPairs _ _)) fun _ =>
        Run.isAppending_pure _
    have hpairs (pairs : List FilePair) :
        Run.on (ExceptT.lift (runPairs pairs outputDirectory)) tree =
          (.ok (Report.ofOutcomes (outcomesAlong outputDirectory tree pairs)),
            storageAfter outputDirectory tree pairs) := by
      obtain ⟨houtcomes, hstorage⟩ := processAll_run outputDirectory tree [] pairs
      rw [← houtcomes, ← hstorage]
      rfl
    have htell (notes : List Note) :
        (Run.tell notes : Run (StateM Tree) Unit).on tree = (.ok (), tree) := rfl
    refine (Run.on_bind_of_ok ?_ hlist).trans ?_
    · exact Run.isAppending_bind (Run.isAppending_lift (isAppending_discover _)) fun _ =>
        Run.isAppending_bind (Run.isAppending_tell _) fun _ => hrest _ _
    refine (Run.on_bind_of_ok ?_ hdiscover).trans ?_
    · exact Run.isAppending_bind (Run.isAppending_tell _) fun _ => hrest _ _
    refine (Run.on_bind_of_ok ?_ (htell _)).trans ?_
    · exact hrest _ _
    refine (Run.on_bind_of_ok ?_ (hpairs _)).trans rfl
    exact Run.isAppending_pure _

namespace Settings

/-- A batch that processes its pairs one after the other ends with a report and a tree. -/
def EndsInOrder (settings : Settings) (keep : FilePair → Bool) (tree : Tree) (report : Report)
    (after : Tree) : Prop :=
  (runBatch settings.inputDirectory settings.outputDirectory settings.workers keep :
    Run (StateM Tree) Report).on tree = (.ok report, after)

/-- A batch that is shared out among workers ends with a report and a tree, when they take turns by
some schedule. -/
def EndsByWorkers (settings : Settings) (keep : FilePair → Bool) (tree : Tree) (report : Report)
    (after : Tree) : Prop :=
  ∃ entries schedule pool, tree.list settings.inputDirectory = .ok entries ∧
    (Pool.start settings
      ((Findings.ofEntries settings.inputDirectory entries).pairs.filter keep) tree).run
        settings.outputDirectory schedule = some pool ∧
    pool.isDone = true ∧ after = pool.storage ∧
    report = { pool.report with
      unpaired := (Findings.ofEntries settings.inputDirectory entries).unpaired }

/-- A batch ends with a report and a tree. -/
def BatchEnds (settings : Settings) (keep : FilePair → Bool) (tree : Tree) (report : Report)
    (after : Tree) : Prop :=
  settings.EndsInOrder keep tree report after ∨ settings.EndsByWorkers keep tree report after

/-- A batch that processes its pairs in a given order ends with a report and a tree. -/
structure EndsAlong (settings : Settings) (keep : FilePair → Bool) (tree : Tree)
    (entries : List Entry) (order : List FilePair) (report : Report) (after : Tree) : Prop where
  list_eq : tree.list settings.inputDirectory = .ok entries
  order_perm : order.Perm
    ((Findings.ofEntries settings.inputDirectory entries).pairs.filter keep)
  after_eq : after = storageAfter settings.outputDirectory tree order
  report_eq : report = { Report.ofOutcomes (outcomesAlong settings.outputDirectory tree order) with
    unpaired := (Findings.ofEntries settings.inputDirectory entries).unpaired }

variable {settings : Settings} {keep : FilePair → Bool} {tree after last : Tree}
  {report again : Report} {entries : List Entry} {order : List FilePair}

theorem nodup_names_pairs (directory : String) (keep : FilePair → Bool) (entries : List Entry) :
    (((Findings.ofEntries directory entries).pairs.filter keep).map FilePair.name).Nodup := by
  have hpairs := (Findings.pairwise_pairs directory entries).filter keep
  exact List.pairwise_map.2 (hpairs.imp ne_of_lt)

/-- A batch in order takes the pairs as they are found. -/
theorem endsInOrder_iff (hlist : tree.list settings.inputDirectory = .ok entries) :
    settings.EndsInOrder keep tree report after ↔ settings.EndsAlong keep tree entries
      ((Findings.ofEntries settings.inputDirectory entries).pairs.filter keep) report after := by
  rw [EndsInOrder, runBatch_on, hlist]
  constructor
  · intro h
    obtain ⟨hreport, hafter⟩ := Prod.mk.inj h
    exact ⟨hlist, List.Perm.refl _, hafter.symm, (Except.ok.inj hreport).symm⟩
  · rintro ⟨-, -, rfl, rfl⟩
    rfl

/-- However a batch comes to its end, it processes its pairs in some order. -/
theorem BatchEnds.exists_order (h : settings.BatchEnds keep tree report after) :
    ∃ entries order, settings.EndsAlong keep tree entries order report after := by
  rcases h with h | ⟨entries, schedule, pool, hlist, hrun, hdone, rfl, rfl⟩
  · rcases hlist : tree.list settings.inputDirectory with fault | entries
    · rw [EndsInOrder, runBatch_on, hlist] at h
      exact absurd (congrArg Prod.fst h) nofun
    · exact ⟨entries, _, (endsInOrder_iff hlist).1 h⟩
  · have htracks := (Pool.tracks_start settings _ tree).run hrun
    have hprocessed := htracks.processed_perm hdone
    have hsent := htracks.sent_perm_of_isDone hdone
    have hnames : (pool.sent.map Outcome.name).Nodup := by
      rw [(hsent.map _).nodup_iff, names_outcomesAlong, (hprocessed.map _).nodup_iff]
      exact nodup_names_pairs _ _ _
    have hnamed : ∀ outcome ∈ pool.sent, outcome.IsNamed := fun outcome hmem =>
      isNamed_of_mem_outcomesAlong (hsent.mem_iff.1 hmem)
    refine ⟨entries, pool.processed, hlist, hprocessed, htracks.storage_eq, ?_⟩
    rw [Pool.report, Report.ofOutcomes_eq_of_perm hnamed hnames hsent]

/-- After a batch on a plain tree, its pairs are settled and the same ones are found. -/
theorem EndsAlong.settles (hplain : tree.IsPlain)
    (h : settings.EndsAlong keep tree entries order report after) :
    (∃ entries', after.list settings.inputDirectory = .ok entries' ∧
      Findings.ofEntries settings.inputDirectory entries' =
        Findings.ofEntries settings.inputDirectory entries) ∧
    (∀ pair ∈ order, pair.storageOn settings.outputDirectory after = after) ∧
    List.Forall₂ (Outcome.IsRepeatedBy settings.outputDirectory)
      (outcomesAlong settings.outputDirectory tree order)
      (order.map (FilePair.outcomeOn settings.outputDirectory after)) := by
  have hsteady : ∀ pair ∈ order, pair.IsSteady tree := fun pair hpair =>
    isSteady_of_mem_pairs hplain h.list_eq (List.mem_filter.1 (h.order_perm.mem_iff.1 hpair)).1
  have hnames : (order.map FilePair.name).Nodup :=
    (h.order_perm.map _).nodup_iff.2 (nodup_names_pairs _ _ _)
  have hstage : tree.IsStage tree settings.outputDirectory := ⟨.refl tree, Or.inl rfl⟩
  obtain ⟨hlast, hsettled⟩ := forall₂_isSettled hplain hstage hsteady hnames
  rw [← h.after_eq] at hlast hsettled
  refine ⟨exists_list_of_grows hlast.grows h.list_eq, ?_⟩
  rw [List.forall₂_map_right_iff]
  have hboth : List.Forall₂ (fun pair outcome =>
      pair.storageOn settings.outputDirectory after = after ∧
        outcome.IsRepeatedBy settings.outputDirectory
          (pair.outcomeOn settings.outputDirectory after))
      order (outcomesAlong settings.outputDirectory tree order) := by
    refine hsettled.imp ?_
    rintro pair outcome ⟨hname, result, hpair, hrepeats⟩
    exact hpair.isRepeatedBy hname hrepeats
  rw [List.forall₂_and_left] at hboth
  exact ⟨hboth.1, hboth.2.flip⟩

/-- A second batch on the same pairs, in whatever order, changes nothing and reports the same. -/
theorem EndsAlong.rerun (hplain : tree.IsPlain)
    (h : settings.EndsAlong keep tree entries order report after)
    {entries' : List Entry} {order' : List FilePair}
    (h' : settings.EndsAlong keep after entries' order' again last) :
    last = after ∧ report.IsRepeatedBy settings.outputDirectory again := by
  obtain ⟨⟨listed, hlist, hfindings⟩, hsettled, houtcomes⟩ := h.settles hplain
  obtain rfl : listed = entries' := Except.ok.inj (hlist.symm.trans h'.list_eq)
  have hperm : order'.Perm order := (hfindings ▸ h'.order_perm).trans h.order_perm.symm
  obtain ⟨hstorage', houtcomes'⟩ :=
    outcomesAlong_of_settled fun pair hpair => hsettled pair (hperm.mem_iff.1 hpair)
  refine ⟨h'.after_eq.trans hstorage', ?_⟩
  have hnames : ((order'.map (FilePair.outcomeOn settings.outputDirectory after)).map
      Outcome.name).Nodup := by
    rw [← houtcomes', names_outcomesAlong, (h'.order_perm.map _).nodup_iff]
    exact nodup_names_pairs _ _ _
  have hnamed : ∀ outcome ∈ order'.map (FilePair.outcomeOn settings.outputDirectory after),
      outcome.IsNamed := by
    rw [← houtcomes']
    exact fun outcome => isNamed_of_mem_outcomesAlong
  have hreport := Report.isRepeatedBy_ofOutcomes houtcomes
  rw [← Report.ofOutcomes_eq_of_perm hnamed hnames (hperm.map _)] at hreport
  rw [h.report_eq, h'.report_eq, houtcomes', hfindings]
  exact ⟨hreport.indexed_eq, rfl, hreport.failed⟩

theorem exists_endsInOrder (settings : Settings) (keep : FilePair → Bool)
    (hlist : tree.list settings.inputDirectory = .ok entries) :
    ∃ report after, settings.EndsInOrder keep tree report after := by
  simp only [endsInOrder_iff hlist]
  exact ⟨_, _, hlist, List.Perm.refl _, rfl, rfl⟩

theorem exists_endsByWorkers (settings : Settings) (keep : FilePair → Bool)
    (hlist : tree.list settings.inputDirectory = .ok entries) :
    ∃ report after, settings.EndsByWorkers keep tree report after := by
  obtain ⟨schedule, pool, hrun, hdone⟩ := Pool.exists_run settings.outputDirectory
    (Pool.start settings
      ((Findings.ofEntries settings.inputDirectory entries).pairs.filter keep) tree)
  exact ⟨_, _, entries, schedule, pool, hlist, hrun, hdone, rfl, rfl⟩

end Settings

/-- A batch on a plain tree can be run again.  Whether it is carried out in order or by workers, it
leaves everything as it is and reports what the first run reported, up to why a directory cannot be
made whose path goes up. -/
theorem batch_rerun (settings : Settings) (keep : FilePair → Bool) (tree after : Tree)
    (report : Report) (hplain : tree.IsPlain)
    (hends : settings.BatchEnds keep tree report after) :
    (∃ again, settings.EndsInOrder keep after again after) ∧
    (∃ again, settings.EndsByWorkers keep after again after) ∧
    ∀ again last, settings.BatchEnds keep after again last →
      last = after ∧ report.IsRepeatedBy settings.outputDirectory again := by
  obtain ⟨entries, order, halong⟩ := hends.exists_order
  have hagain (again : Report) (last : Tree) (h : settings.BatchEnds keep after again last) :
      last = after ∧ report.IsRepeatedBy settings.outputDirectory again := by
    obtain ⟨entries', order', halong'⟩ := h.exists_order
    exact halong.rerun hplain halong'
  obtain ⟨⟨entries', hlist, -⟩, -⟩ := halong.settles hplain
  refine ⟨?_, ?_, hagain⟩
  · obtain ⟨again, last, hlast⟩ := settings.exists_endsInOrder keep hlist
    obtain ⟨rfl, -⟩ := hagain again last (Or.inl hlast)
    exact ⟨again, hlast⟩
  · obtain ⟨again, last, hlast⟩ := settings.exists_endsByWorkers keep hlist
    obtain ⟨rfl, -⟩ := hagain again last (Or.inr hlast)
    exact ⟨again, hlast⟩

/-- A pair among whose files its artifact is put. -/
def inPlace : Settings :=
  { Settings.initial with inputDirectory := "in", outputDirectory := "./in/" }

def inPlaceFiles : Tree :=
  [(["in", "work"], Tree.Node.directory), (["A.sol", "in", "work"], .file (.text "")),
    (["A.spec", "in", "work"], .file (.text ""))].foldl
      (fun tree (location, node) => tree.put location node) Tree.empty

/-- The artifact has come to stand beside the sources, and makes no difference. -/
theorem batch_rerun_inPlace : inPlaceFiles.IsPlain ∧
    ∃ report after, inPlace.BatchEnds (fun _ => true) inPlaceFiles report after ∧
      (after.node? ["A_index.json", "in", "work"]).isSome = true ∧
      ∃ again, inPlace.EndsInOrder (fun _ => true) after again after ∧ again = report := by
  have hplain : inPlaceFiles.IsPlain := by decide +kernel
  have hlist : inPlaceFiles.list "in" = .ok (inPlaceFiles.entriesAt ["in", "work"]) := by
    decide +kernel
  obtain ⟨report, after, hends⟩ := inPlace.exists_endsInOrder (fun _ => true) hlist
  obtain ⟨⟨again, hagain⟩, -, hrepeated⟩ := batch_rerun inPlace (fun _ => true) inPlaceFiles after
    report hplain (Or.inl hends)
  refine ⟨hplain, report, after, Or.inl hends, ?_, again, hagain,
    (hrepeated again after (Or.inl hagain)).2.eq (by decide +kernel)⟩
  rw [((Settings.endsInOrder_iff hlist).1 hends).after_eq]
  decide +kernel

/-- A file stands where a directory is asked for, behind one that is missing. -/
def blocked : Settings :=
  { Settings.initial with inputDirectory := "in", outputDirectory := "m/../f/x" }

def blockedFiles : Tree :=
  inPlaceFiles.put ["f", "work"] (.file (.text ""))

def blockedPairs : List FilePair :=
  [⟨"A", "in/A.sol", "in/A.spec"⟩]

/-- A batch that is run again need not report the same: first something exists that is no directory,
and then a step is none. -/
theorem not_forall_rerun_eq : ¬∀ (settings : Settings) (keep : FilePair → Bool)
    (tree after : Tree) (report : Report), tree.IsPlain →
      settings.EndsInOrder keep tree report after →
        settings.EndsInOrder keep after report after := by
  intro h
  have hplain : blockedFiles.IsPlain := by decide +kernel
  have hlist : blockedFiles.list "in" = .ok (blockedFiles.entriesAt ["in", "work"]) := by
    decide +kernel
  have hpairs : ((Findings.ofEntries "in" (blockedFiles.entriesAt ["in", "work"])).pairs.filter
      fun _ => true) = blockedPairs := by
    decide +kernel
  obtain ⟨report, after, hends⟩ := blocked.exists_endsInOrder (fun _ => true) hlist
  have hagain := h blocked (fun _ => true) blockedFiles after report hplain hends
  obtain ⟨-, -, hafter, hreport⟩ := (Settings.endsInOrder_iff hlist).1 hends
  simp only [blocked, hpairs] at hafter hreport
  subst hafter
  have hlist' : (storageAfter "m/../f/x" blockedFiles blockedPairs).list "in" =
      .ok (blockedFiles.entriesAt ["in", "work"]) := by
    decide +kernel
  have hreport' := ((Settings.endsInOrder_iff hlist').1 hagain).report_eq
  simp only [blocked, hpairs] at hreport'
  have hfirst : (outcomesAlong "m/../f/x" blockedFiles blockedPairs).filterMap Outcome.rejected? =
      [⟨"A", (Failure.outputWrite "m/../f/x" .alreadyExists).message⟩] := by
    decide +kernel
  have hsecond : (outcomesAlong "m/../f/x" (storageAfter "m/../f/x" blockedFiles blockedPairs)
      blockedPairs).filterMap Outcome.rejected? =
        [⟨"A", (Failure.outputWrite "m/../f/x" .notDirectory).message⟩] := by
    decide +kernel
  have hfailed := congrArg Report.failed (hreport.symm.trans hreport')
  simp only [Report.ofOutcomes, hfirst, hsecond, List.mergeSort_singleton] at hfailed
  exact absurd hfailed (by decide)

end PropertyIndex
