import PropertyIndex.Proofs.FoundPairs
import PropertyIndex.Proofs.SettledArtifact
import PropertyIndex.Proofs.WorkerPool

/-!
# Pairs that are processed again

A pair that has been processed is settled: processing it again gives the same and changes nothing.
It stays settled while other pairs are processed, because no artifact is the source of a pair.  So
after all pairs of a batch have been processed, each of them is settled.

* `FilePair.IsSteady`: pairs whose sources are not touched, with `isSteady_of_mem_pairs` for those
  that are found in a directory.
* `Tree.IsStage`: the trees that a batch goes through.
* `FilePair.IsSettled`: processing a pair changes nothing.
* `exists_isSettled_storageOn`, `IsSettled.stay`: a pair that is processed is settled, and others
  stay settled.
* `forall₂_isSettled`: all pairs are settled after they were processed one after the other.
-/

namespace PropertyIndex

open PropertyIndex.Tree (Grows Repeats)
open PropertyIndex.Path (join holder IsProper)

variable {tree after : Tree} {directory : String} {pair other : FilePair}
  {result : Except Failure Summary}

/-! ## Steady pairs -/

/-- The sources of a pair are the same whatever artifacts there are, and its artifact can have its
name. -/
structure FilePair.IsSteady (tree : Tree) (pair : FilePair) : Prop where
  isProper : IsProper (pair.name ++ "_index.json")
  sources_eq : ∀ after, Grows tree after → after.sources pair = tree.sources pair

theorem outcomeOn_eq (directory : String) (tree : Tree) (pair : FilePair) :
    pair.outcomeOn directory tree =
      ⟨pair.name, ((pair.process directory : Run (StateM Tree) Summary).on tree).1⟩ := rfl

theorem storageOn_eq (directory : String) (tree : Tree) (pair : FilePair) :
    pair.storageOn directory tree =
      ((pair.process directory : Run (StateM Tree) Summary).on tree).2 := rfl

/-! ## Settled pairs -/

/-- The trees that a batch goes through: the first one, and those in which the directory of
artifacts has been asked for. -/
structure Tree.IsStage (tree after : Tree) (directory : String) : Prop where
  grows : Grows tree after
  eq_or : after = tree ∨ (after.makeDirectories (holder directory)).2 = after

/-- Processing a pair again gives a result and changes nothing. -/
inductive FilePair.IsSettled (tree : Tree) (directory : String) (pair : FilePair) :
    Except Failure Summary → Prop
  | unread {failure : Failure} (h : tree.sources pair = .error failure) :
      IsSettled tree directory pair (.error failure)
  | stored {inputs : Inputs} {result : Except Failure Unit} (h : tree.sources pair = .ok inputs)
      (hstored : tree.IsSettled directory (pair.name ++ "_index.json") (artifact inputs.records)
        result) :
      IsSettled tree directory pair
        (result.map fun _ => .of pair.name (pair.outputPath directory) inputs.records)

theorem FilePair.process_of_unread {failure : Failure} (h : tree.sources pair = .error failure) :
    (pair.process directory : Run (StateM Tree) Summary).on tree = (.error failure, tree) := by
  rw [process_on_tree, h]

theorem FilePair.process_of_stored {inputs : Inputs} {stored : Except Failure Unit}
    (h : tree.sources pair = .ok inputs)
    (hstore : tree.store (join directory (pair.name ++ "_index.json")) (artifact inputs.records) =
      (stored, after)) :
    (pair.process directory : Run (StateM Tree) Summary).on tree =
      (stored.map fun _ => .of pair.name (pair.outputPath directory) inputs.records, after) := by
  rw [process_on_tree, h]
  simp only [outputPath, hstore]

theorem FilePair.IsSettled.process_eq (h : pair.IsSettled tree directory result) :
    (pair.process directory : Run (StateM Tree) Summary).on tree = (result, tree) := by
  cases h with
  | unread hsources => exact process_of_unread hsources
  | stored hsources hstored => exact process_of_stored hsources hstored.store_eq

theorem Tree.IsStage.hasNoLinks (h : tree.IsStage after directory) (hplain : tree.IsPlain) :
    after.HasNoLinks :=
  hplain.hasNoLinks.of_keepsWays h.grows.keepsWays

/-- Processing a pair leads to another stage, in which the pair is settled. -/
theorem exists_isSettled_storageOn (hplain : tree.IsPlain) (hstage : tree.IsStage after directory)
    (hsteady : pair.IsSteady tree) :
    tree.IsStage (pair.storageOn directory after) directory ∧
      ∃ again, pair.IsSettled (pair.storageOn directory after) directory again ∧
        Repeats directory (pair.outcomeOn directory after).result again := by
  rw [storageOn_eq, outcomeOn_eq]
  rcases hsources : after.sources pair with failure | inputs
  · rw [FilePair.process_of_unread hsources]
    exact ⟨hstage, _, .unread hsources, Or.inl rfl⟩
  · have hlinks := hstage.hasNoLinks hplain
    have hgrows := Tree.grows_store hlinks directory pair.name (artifact inputs.records)
      hsteady.isProper
    rcases hstore : after.store (join directory (pair.name ++ "_index.json"))
      (artifact inputs.records) with ⟨stored, last⟩
    rw [hstore] at hgrows
    rw [FilePair.process_of_stored hsources hstore]
    have hread : last.sources pair = .ok inputs := by
      rw [← hsources, hsteady.sources_eq _ (hstage.grows.trans hgrows),
        hsteady.sources_eq _ hstage.grows]
    obtain ⟨again, hsettled, hrepeats⟩ : ∃ again, last.IsSettled directory
        (pair.name ++ "_index.json") (artifact inputs.records) again ∧
          Repeats directory stored again := by
      rcases hstage.eq_or with rfl | hmake
      · exact Tree.exists_isSettled_of_store hplain hsteady.isProper hstore
      · exact ⟨stored, Tree.isSettled_of_store hlinks hsteady.isProper hmake hstore, Or.inl rfl⟩
    exact ⟨⟨hstage.grows.trans hgrows, Or.inr hsettled.directory_eq⟩, _, .stored hread hsettled,
      hrepeats.map _⟩

/-- A settled pair stays settled when another one is processed. -/
theorem FilePair.IsSettled.stay (h : pair.IsSettled after directory result)
    (hplain : tree.IsPlain) (hstage : tree.IsStage after directory)
    (hsteady : pair.IsSteady tree) (hother : other.IsSteady tree) (hne : pair.name ≠ other.name) :
    pair.IsSettled (other.storageOn directory after) directory result := by
  have hgrows := (exists_isSettled_storageOn hplain hstage hother).1.grows
  have hsame : (other.storageOn directory after).sources pair = after.sources pair := by
    rw [hsteady.sources_eq _ hgrows, hsteady.sources_eq _ hstage.grows]
  cases h with
  | unread hsources => exact .unread (hsame.trans hsources)
  | stored hsources hstored =>
    refine .stored (hsame.trans hsources) ?_
    rw [storageOn_eq]
    rcases hread : after.sources other with failure | inputs
    · rw [process_of_unread hread]
      exact hstored
    · have hnames : pair.name ++ "_index.json" ≠ other.name ++ "_index.json" := by
        intro heq
        have hchars := congrArg String.toList heq
        rw [String.toList_append, String.toList_append] at hchars
        exact hne (String.toList_inj.1 (List.append_cancel_right hchars))
      have hstay := hstored.stay (hstage.hasNoLinks hplain) hsteady.isProper hother.isProper hnames
        (artifact inputs.records)
      rcases hstore : after.store (join directory (other.name ++ "_index.json"))
        (artifact inputs.records) with ⟨stored, last⟩
      rw [hstore] at hstay
      rw [process_of_stored hread hstore]
      exact hstay

/-! ## Batches -/

section Batch

variable (hplain : tree.IsPlain)

include hplain

/-- A settled pair stays settled when others are processed. -/
theorem FilePair.IsSettled.stay_storageAfter {pairs : List FilePair}
    (h : pair.IsSettled after directory result) (hstage : tree.IsStage after directory)
    (hsteady : pair.IsSteady tree) (hothers : ∀ other ∈ pairs, other.IsSteady tree)
    (hname : pair.name ∉ pairs.map FilePair.name) :
    pair.IsSettled (storageAfter directory after pairs) directory result := by
  induction pairs generalizing after with
  | nil => exact h
  | cons other pairs ih =>
    obtain ⟨hother, hothers⟩ := List.forall_mem_cons.1 hothers
    rw [List.map_cons, List.mem_cons, not_or] at hname
    exact ih (h.stay hplain hstage hsteady hother hname.1)
      (exists_isSettled_storageOn hplain hstage hother).1 hothers hname.2

/-- After pairs were processed one after the other, all of them are settled. -/
theorem forall₂_isSettled {pairs : List FilePair} (hstage : tree.IsStage after directory)
    (hsteady : ∀ pair ∈ pairs, pair.IsSteady tree) (hnames : (pairs.map FilePair.name).Nodup) :
    tree.IsStage (storageAfter directory after pairs) directory ∧
      List.Forall₂ (fun pair outcome => outcome.name = pair.name ∧
        ∃ again, pair.IsSettled (storageAfter directory after pairs) directory again ∧
          Repeats directory outcome.result again) pairs (outcomesAlong directory after pairs) := by
  induction pairs generalizing after with
  | nil => exact ⟨hstage, .nil⟩
  | cons pair pairs ih =>
    obtain ⟨hpair, hpairs⟩ := List.forall_mem_cons.1 hsteady
    rw [List.map_cons, List.nodup_cons] at hnames
    obtain ⟨hnext, again, hsettled, hrepeats⟩ := exists_isSettled_storageOn hplain hstage hpair
    obtain ⟨hlast, hrest⟩ := ih hnext hpairs hnames.2
    exact ⟨hlast, .cons ⟨rfl, again,
      hsettled.stay_storageAfter hplain hnext hpair hpairs hnames.1, hrepeats⟩ hrest⟩

end Batch

/-! ## Pairs of a directory -/

/-- A place of a source is no place of an artifact. -/
theorem not_isArtifactPlace {stem extension : String} {above : Location}
    (h : extension = contractExtension ∨ extension = specExtension) :
    ¬Tree.IsArtifactPlace ((stem ++ "." ++ extension) :: above) := by
  rintro ⟨other, above', heq⟩
  have hlast := congrArg (fun name => name.toList.getLast?) (List.cons.inj heq).1
  rcases h with rfl | rfl <;>
    simp [String.toList_append, contractExtension, specExtension] at hlast

theorem Tree.list_eq_ok {entries : List Entry} (h : tree.list directory = .ok entries) :
    ∃ location, tree.locate directory = .ok location ∧
      tree.node? location = some .directory ∧ entries = tree.entriesAt location := by
  rcases hlocate : tree.locate directory with fault | location
  · simp [list, hlocate, bind, Except.bind] at h
  · rcases hnode : tree.node? location with _ | ⟨content | _ | target⟩ <;>
      simp only [list, hlocate, hnode, bind, Except.bind, reduceCtorEq, Except.ok.injEq] at h
    exact ⟨location, rfl, hnode, h.symm⟩

/-- Sources stay where they are. -/
theorem Tree.Grows.hasFile_iff (h : Grows tree after) {stem extension : String}
    (hextension : extension = contractExtension ∨ extension = specExtension)
    (location : Location) :
    after.HasFile location stem extension ↔ tree.HasFile location stem extension :=
  and_congr_right fun _ => exists_congr fun _ =>
    h.node?_eq_file_iff (not_isArtifactPlace hextension)

/-- What is found in a directory stays the same. -/
theorem exists_list_of_grows (h : Grows tree after) {entries : List Entry}
    (hlist : tree.list directory = .ok entries) :
    ∃ entries', after.list directory = .ok entries' ∧
      Findings.ofEntries directory entries' = Findings.ofEntries directory entries := by
  obtain ⟨location, hlocate, hnode, rfl⟩ := Tree.list_eq_ok hlist
  obtain ⟨hcheck, hleads⟩ := Tree.locate_eq_ok_iff.1 hlocate
  have hlocate' : after.locate directory = .ok location := by
    refine Tree.locate_eq_ok_iff.2 ⟨hcheck, ?_⟩
    rw [h.workingDirectory_eq]
    exact hleads.keep h.keepsWays
  refine ⟨_, Tree.list_of_locate hlocate' (h.keepsWays.directory hnode), ?_⟩
  refine Findings.ofEntries_congr fun stem extension hextension => ?_
  rw [Tree.lists_iff_hasFile (List.Perm.refl _), Tree.lists_iff_hasFile (List.Perm.refl _),
    h.hasFile_iff hextension]

/-- A source in a directory is read in the same way whatever artifacts there are. -/
theorem Tree.Grows.readText_eq (h : Grows tree after) (hlinks : tree.HasNoLinks)
    {location : Location} (hreaches : tree.Reaches directory location) {stem extension : String}
    (hextension : extension = contractExtension ∨ extension = specExtension)
    (hfile : tree.HasFile location stem extension)
    (hname : IsProper (stem ++ "." ++ extension)) :
    after.readText (join directory (stem ++ "." ++ extension)) =
      tree.readText (join directory (stem ++ "." ++ extension)) := by
  obtain ⟨content, hnode⟩ := hfile.2
  have hnode' := (h.node?_eq_file_iff (not_isArtifactPlace hextension)).2 hnode
  exact hreaches.readText_congr (hreaches.keep h.keepsWays h.workingDirectory_eq) hname (hlinks _)
    (hnode'.trans hnode.symm)

/-- The pairs that are found in a directory are steady. -/
theorem isSteady_of_mem_pairs (hplain : tree.IsPlain) {entries : List Entry}
    (hlist : tree.list directory = .ok entries)
    (hpair : pair ∈ (Findings.ofEntries directory entries).pairs) : pair.IsSteady tree := by
  obtain ⟨location, hlocate, hnode, rfl⟩ := Tree.list_eq_ok hlist
  have hreaches := Tree.reaches_of_locate hlocate hnode
  obtain ⟨hcontract, hspec, hcontractPath, hspecPath⟩ := Findings.mem_pairs_iff.1 hpair
  rw [Tree.lists_iff_hasFile (List.Perm.refl _)] at hcontract hspec
  have hslash : '/' ∉ pair.name.toList := by
    obtain ⟨content, hfile⟩ := hcontract.2
    have hnotMem := hplain.slash_notMem _ _ (hfile ▸ Option.some_ne_none _)
    rw [String.toList_append, String.toList_append, List.mem_append, List.mem_append, not_or,
      not_or] at hnotMem
    exact hnotMem.1.1
  have hproper {extension : String}
      (hextension : extension = contractExtension ∨ extension = specExtension) :
      IsProper (pair.name ++ "." ++ extension) := by
    rw [String.append_assoc]
    rcases hextension with rfl | rfl
    · exact Path.isProper_append hslash (by decide) (by decide)
    · exact Path.isProper_append hslash (by decide) (by decide)
  refine ⟨Path.isProper_append hslash (by decide) (by decide), fun after hgrows => ?_⟩
  rw [Tree.sources, Tree.sources, hcontractPath, hspecPath,
    hgrows.readText_eq hplain.hasNoLinks hreaches (Or.inl rfl) hcontract (hproper (Or.inl rfl)),
    hgrows.readText_eq hplain.hasNoLinks hreaches (Or.inr rfl) hspec (hproper (Or.inr rfl))]

end PropertyIndex
