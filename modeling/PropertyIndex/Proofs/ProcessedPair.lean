import PropertyIndex.Proofs.MadeDirectories
import PropertyIndex.Proofs.SummaryCounts

/-!
# What processing a pair does to a tree

Processing a pair changes a tree at the place of its artifact, and it may make directories on the
way there.  When it fails, the place of the artifact is as it was.

* `writeContent_eq_ok`, `readText_put`: writing to a path, and reading back.
* `Tree.store`, `Run.on_writeArtifact`: writing an artifact as one function on trees.
* `FilePair.index_on_tree`, `FilePair.process_on_tree`: a pair on a tree, in terms of what its files
  hold.
* `FilePair.Effect`, `process_effect`: what changes.
-/

namespace PropertyIndex

open Text

/-! ## Writing to a path -/

namespace Tree

variable {tree after : Tree} {path : String} {location : Location} {content : Content}

/-- What is not a directory and no link can give way to a file. -/
def IsFree (tree : Tree) (location : Location) : Prop :=
  tree.node? location = none ∨ ∃ content, tree.node? location = some (.file content)

theorem IsFree.ne_directory (h : tree.IsFree location) :
    tree.node? location ≠ some .directory := by
  rcases h with h | ⟨content, h⟩ <;> rw [h] <;> nofun

theorem IsFree.ne_link (h : tree.IsFree location) (target : String) :
    tree.node? location ≠ some (.link target) := by
  rcases h with h | ⟨content, h⟩ <;> rw [h] <;> nofun

theorem IsFree.ne_nil (h : tree.IsFree location) : location ≠ [] := by
  rintro rfl
  exact h.ne_directory rfl

theorem IsFree.keepsWays_put (h : tree.IsFree location) :
    tree.KeepsWays (tree.put location (.file content)) :=
  Tree.keepsWays_put h.ne_nil h.ne_directory h.ne_link nofun

theorem locate_eq_ok_iff : tree.locate path = .ok location ↔ checkPath path = .ok () ∧
    Leads tree linkLimit (start path tree.workingDirectory) (steps path) location := by
  rw [locate, leads_iff]
  rcases checkPath path with fault | ⟨⟩
  · exact iff_of_false nofun nofun
  · exact (and_iff_right rfl).symm

/-- Writing succeeds where a path leads to a free place, and fills that place. -/
theorem writeContent_eq_ok (h : tree.writeContent path content = .ok after) :
    ∃ location, tree.locate path = .ok location ∧ tree.IsFree location ∧
      after = tree.put location (.file content) := by
  rcases hcheck : checkPath path with fault | ⟨⟩
  · rw [writeContent, hcheck] at h
    exact absurd h nofun
  · simp only [writeContent, hcheck, bind, Except.bind] at h
    split at h
    · exact absurd h nofun
    · next location hwalk =>
      split at h
      · exact absurd h nofun
      · exact absurd h nofun
      · next hdirectory hlink =>
        split_ifs at h with hends
        rw [if_neg hends] at hwalk
        refine ⟨location, ?_, ?_, (Except.ok.inj h).symm⟩
        · rw [locate, hcheck]
          exact hwalk
        · rcases hnode : tree.node? location with _ | ⟨content | _ | target⟩
          · exact Or.inl hnode
          · exact Or.inr ⟨_, hnode⟩
          · exact absurd hnode hdirectory
          · exact absurd hnode (hlink target)

/-- What was written is read back. -/
theorem readText_put {text : String} (hlocate : tree.locate path = .ok location)
    (hfree : tree.IsFree location) :
    (tree.put location (.file (.text text))).readText path = .ok text := by
  obtain ⟨hcheck, hleads⟩ := locate_eq_ok_iff.1 hlocate
  have hlocate' : (tree.put location (.file (.text text))).locate path = .ok location :=
    locate_eq_ok_iff.2 ⟨hcheck, hleads.keep hfree.keepsWays_put⟩
  simp only [readText, hlocate', bind, Except.bind, node?_put_self hfree.ne_nil]

/-- The sources of a pair, if both its files can be read. -/
def sources (tree : Tree) (pair : FilePair) : Except Failure Inputs := do
  let contract ← (tree.readText pair.contract).mapError (.missingInput pair.contract)
  let spec ← (tree.readText pair.spec).mapError (.missingInput pair.spec)
  return pair.inputsOf contract spec

theorem sources_eq_error {pair : FilePair} {failure : Failure}
    (h : tree.sources pair = .error failure) :
    ∃ path fault, failure = .missingInput path fault := by
  rw [sources] at h
  rcases hcontract : tree.readText pair.contract with fault | contract
  · rw [hcontract] at h
    exact ⟨_, fault, (Except.error.inj h).symm⟩
  · rw [hcontract] at h
    rcases hspec : tree.readText pair.spec with fault | spec
    · rw [hspec] at h
      exact ⟨_, fault, (Except.error.inj h).symm⟩
    · rw [hspec] at h
      exact absurd h nofun

/-- Puts an artifact into a file, and makes the directory that it lies in. -/
def store (tree : Tree) (output text : String) : Except Failure Unit × Tree :=
  let parent := (Path.parent? output).getD ""
  match tree.makeDirectories parent with
  | (.error fault, made) => (.error (.outputWrite parent fault), made)
  | (.ok (), made) =>
    match made.writeContent output (.text text) with
    | .error fault => (.error (.outputWrite output fault), made)
    | .ok after => (.ok (), after)

/-- Storing an artifact makes directories on the way to it and then puts it into its place, unless
it stops before that. -/
theorem store_cases (tree : Tree) (output text : String) :
    (∃ path fault made, tree.store output text = (.error (.outputWrite path fault), made) ∧
      Gains (made.LiesOn ((Path.parent? output).getD "")) tree made) ∨
    ∃ made location,
      tree.store output text = (.ok (), made.put location (.file (.text text))) ∧
      Gains (made.LiesOn ((Path.parent? output).getD "")) tree made ∧
      made.locate output = .ok location ∧ made.IsFree location := by
  have hgains := tree.gains_makeDirectories ((Path.parent? output).getD "")
  rcases hmake : tree.makeDirectories ((Path.parent? output).getD "") with ⟨fault | ⟨⟩, made⟩
  · rw [hmake] at hgains
    exact Or.inl ⟨_, fault, made, by rw [store, hmake], hgains⟩
  · rw [hmake] at hgains
    rcases hwrite : made.writeContent output (.text text) with fault | after
    · exact Or.inl ⟨output, fault, made, by simp only [store, hmake, hwrite], hgains⟩
    · obtain ⟨location, hlocate, hfree, rfl⟩ := writeContent_eq_ok hwrite
      exact Or.inr ⟨made, location, by simp only [store, hmake, hwrite], hgains, hlocate, hfree⟩

end Tree

/-! ## Runs on trees -/

namespace Run

variable {σ α β : Type} {storage after : σ}

/-- A step that fails ends a run. -/
theorem on_bind_of_error {x : Run (StateM σ) α} {f : α → Run (StateM σ) β} {failure : Failure}
    (h : x.on storage = (.error failure, after)) :
    (x >>= f).on storage = (.error failure, after) := by
  rcases hx : (x.run.run []).run storage with ⟨⟨result, notes⟩, later⟩
  rw [on, hx] at h
  obtain ⟨rfl, rfl⟩ := Prod.mk.inj h
  rw [on, ExceptT.run_bind, StateT.run_bind, StateT.run_bind, hx]
  rfl

theorem on_attempt (failure : Fault → Failure) (operation : StateM σ (Except Fault α))
    (storage : σ) : (attempt failure operation).on storage =
      ((operation.run storage).1.mapError failure, (operation.run storage).2) := rfl

/-- A step on storage, and what comes behind it where it succeeds. -/
theorem on_attempt_bind {failure : Fault → Failure} {operation : StateM σ (Except Fault α)}
    {f : α → Run (StateM σ) β} (hf : ∀ a, IsAppending (f a)) (storage : σ) :
    (attempt failure operation >>= f).on storage =
      match operation.run storage with
      | (.error fault, after) => (.error (failure fault), after)
      | (.ok a, after) => (f a).on after := by
  have hfirst := on_attempt failure operation storage
  split
  · next fault after h =>
    rw [h] at hfirst
    exact on_bind_of_error hfirst
  · next a after h =>
    rw [h] at hfirst
    exact on_bind_of_ok (hf a) hfirst

theorem on_readInput (tree : Tree) (path : String) :
    (readInput path : Run (StateM Tree) String).on tree =
      ((tree.readText path).mapError (.missingInput path), tree) := rfl

theorem on_writeArtifact (tree : Tree) (records : List Record) (path : String) :
    (writeArtifact records path : Run (StateM Tree) Unit).on tree =
      tree.store path (artifact records) := by
  have hwrite (tree : Tree) : (attempt (.outputWrite path)
      (Storage.writeText path (artifact records)) : Run (StateM Tree) Unit).on tree =
        match tree.writeContent path (.text (artifact records)) with
        | .error fault => (.error (.outputWrite path fault), tree)
        | .ok after => (.ok (), after) := by
    have hrun : (Storage.writeText path (artifact records) : StateM Tree _).run tree =
        Tree.change (fun tree => tree.writeContent path (.text (artifact records))) tree := rfl
    rw [on_attempt, hrun, Tree.change]
    rcases tree.writeContent path (.text (artifact records)) with fault | after <;> rfl
  rw [writeArtifact]
  split
  · next hparent =>
    rw [Tree.store, hparent]
    exact hwrite tree
  · next parent hparent =>
    rw [Tree.store, hparent]
    split_ifs with hempty
    · refine (on_attempt_bind (fun _ => isAppending_attempt _ _) tree).trans ?_
      have hrun : (Storage.createDirectories parent : StateM Tree _).run tree =
          tree.makeDirectories parent := rfl
      rw [hrun, Option.getD_some]
      rcases tree.makeDirectories parent with ⟨fault | ⟨⟩, made⟩
      · rfl
      · exact hwrite made
    · obtain rfl : parent = "" := by simpa using hempty
      exact hwrite tree

end Run

namespace FilePair

variable (tree : Tree) (pair : FilePair) (directory : String)

/-- Indexing a pair changes nothing. -/
theorem index_on_tree : (pair.index : Run (StateM Tree) (List Record)).on tree =
    ((tree.sources pair).map Inputs.records, tree) := by
  have hcontract := Run.on_readInput tree pair.contract
  have hspec := Run.on_readInput tree pair.spec
  rw [Tree.sources]
  rcases hread : tree.readText pair.contract with fault | contract
  · rw [hread] at hcontract
    exact Run.on_bind_of_error hcontract
  · rw [hread] at hcontract
    rcases hread' : tree.readText pair.spec with fault | spec
    · rw [hread'] at hspec
      refine (Run.on_bind_of_ok ?_ hcontract).trans (Run.on_bind_of_error hspec)
      exact Run.isAppending_bind (Run.isAppending_attempt _ _) fun _ => Run.isAppending_told _ _
    · rw [hread'] at hspec
      exact index_on hcontract hspec

/-- Processing a pair reads its sources and then stores what they give. -/
theorem process_on_tree : (pair.process directory : Run (StateM Tree) Summary).on tree =
    match tree.sources pair with
    | .error failure => (.error failure, tree)
    | .ok inputs =>
      let (result, after) := tree.store (pair.outputPath directory) (artifact inputs.records)
      (result.map fun _ => .of pair.name (pair.outputPath directory) inputs.records, after) := by
  have hindex := index_on_tree tree pair
  rcases hsources : tree.sources pair with failure | inputs
  · rw [hsources] at hindex
    exact Run.on_bind_of_error hindex
  · rw [hsources] at hindex
    have hwrite := Run.on_writeArtifact tree inputs.records (pair.outputPath directory)
    refine (Run.on_bind_of_ok ?_ hindex).trans ?_
    · exact Run.isAppending_bind (isAppending_writeArtifact _ _) fun _ => Run.isAppending_told _ _
    · dsimp only
      rcases hstore : tree.store (pair.outputPath directory) (artifact inputs.records) with
        ⟨failure | ⟨⟩, after⟩
      · rw [hstore] at hwrite
        exact Run.on_bind_of_error hwrite
      · rw [hstore] at hwrite
        exact Run.on_bind_of_ok (Run.isAppending_told _ _) hwrite

/-! ## What changes -/

/-- What may become of a tree on which a pair is processed. -/
inductive Effect : Except Failure Summary → Tree → Prop
  /-- Where a source cannot be read, nothing changes. -/
  | unread (path : String) (fault : Fault) : Effect (.error (.missingInput path fault)) tree
  /-- Where the artifact cannot be written, there are more directories on the way to it at most. -/
  | unwritten (path : String) (fault : Fault) (made : Tree)
      (hmade : tree.Gains (made.LiesOn ((Path.parent? (pair.outputPath directory)).getD "")) made) :
      Effect (.error (.outputWrite path fault)) made
  /-- Otherwise there are such directories, and behind them the artifact, which is read back as that
  of the records that indexing gives. -/
  | written (records : List Record) (made : Tree) (location : Location)
      (hrecords : (pair.index : Run (StateM Tree) (List Record)).on tree = (.ok records, tree))
      (hmade : tree.Gains (made.LiesOn ((Path.parent? (pair.outputPath directory)).getD "")) made)
      (hlocate : made.locate (pair.outputPath directory) = .ok location)
      (hfree : made.IsFree location)
      (hread : (made.put location (.file (.text (artifact records)))).readText
        (pair.outputPath directory) = .ok (artifact records)) :
      Effect (.ok (.of pair.name (pair.outputPath directory) records))
        (made.put location (.file (.text (artifact records))))

end FilePair

/-- Processing a pair changes nothing but what its artifact asks for, and nothing at all where a
source cannot be read. -/
theorem process_effect (tree : Tree) (pair : FilePair) (directory : String) :
    pair.Effect tree directory
      ((pair.process directory : Run (StateM Tree) Summary).on tree).1
      ((pair.process directory : Run (StateM Tree) Summary).on tree).2 := by
  have hindex := FilePair.index_on_tree tree pair
  rw [FilePair.process_on_tree]
  rcases hsources : tree.sources pair with failure | inputs
  · obtain ⟨path, fault, rfl⟩ := Tree.sources_eq_error hsources
    exact .unread path fault
  · rw [hsources] at hindex
    rcases tree.store_cases (pair.outputPath directory) (artifact inputs.records) with
      ⟨path, fault, made, hstore, hmade⟩ | ⟨made, location, hstore, hmade, hlocate, hfree⟩
    · simp only [hstore]
      exact .unwritten path fault made hmade
    · simp only [hstore]
      exact .written inputs.records made location hindex hmade hlocate hfree
        (Tree.readText_put hlocate hfree)

end PropertyIndex
