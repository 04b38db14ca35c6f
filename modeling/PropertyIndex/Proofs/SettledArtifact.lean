import PropertyIndex.Proofs.RepeatedDirectories

/-!
# Artifacts that are stored again

Once an artifact has been stored, or has failed to be stored, storing it again gives the same and
changes nothing any more.  That stays so when other artifacts are stored in the same directory.

* `IsSettled`: storing an artifact changes nothing.
* `store_of_error`, `store_of_reaches`: storing an artifact when the directory has been asked for.
* `isSettled_of_store`, `isSettled_of_first`: what was stored is settled.
* `IsSettled.stay`: it stays settled.
* `Grows`, `grows_store`: what storing artifacts may change in a tree.
-/

namespace PropertyIndex.Tree

open PropertyIndex.Path (join holder IsProper)

variable {tree after : Tree} {directory name other path text : String} {location above : Location}
  {result : Except Failure Unit} {fault : Fault}

/-! ## Storing in a directory that has been asked for -/

/-- Storing an artifact again gives a result and changes nothing, and the directory has been made as
far as that is possible. -/
structure IsSettled (tree : Tree) (directory name text : String) (result : Except Failure Unit) :
    Prop where
  directory_eq : (tree.makeDirectories (holder directory)).2 = tree
  store_eq : tree.store (join directory name) text = (result, tree)

section Store

variable (text : String) (hname : IsProper name)

include hname

theorem store_of_error (h : tree.makeDirectories (holder directory) = (.error fault, after)) :
    tree.store (join directory name) text =
      (.error (.outputWrite (holder directory) fault), after) := by
  rw [store, Path.parent?_join directory hname.slash_notMem hname.ne_empty hname.ne_dot]
  simp only [Option.getD_some, h]

theorem store_of_ok (h : tree.makeDirectories (holder directory) = (.ok (), after)) :
    tree.store (join directory name) text =
      match after.writeContent (join directory name) (.text text) with
      | .error fault => (.error (.outputWrite (join directory name) fault), after)
      | .ok last => (.ok (), last) := by
  have hparent := Path.parent?_join directory hname.slash_notMem hname.ne_empty hname.ne_dot
  rcases hwrite : after.writeContent (join directory name) (.text text) with fault | last <;>
    simp only [store, hparent, Option.getD_some, h, hwrite]

/-- In a directory that is there, an artifact is put into its place if that is possible. -/
theorem store_of_reaches (hlinks : tree.HasNoLinks)
    (hmake : tree.makeDirectories (holder directory) = (.ok (), tree))
    (hreaches : tree.Reaches (holder directory) above) :
    tree.store (join directory name) text =
      match tree.accept (join directory name) name above with
      | .error fault => (.error (.outputWrite (join directory name) fault), tree)
      | .ok () => (.ok (), tree.put (name :: above) (.file (.text text))) := by
  rw [store_of_ok text hname hmake, hreaches.of_holder.writeContent_join hname (hlinks _)]
  rcases tree.accept (join directory name) name above with fault | ⟨⟩ <;> rfl

end Store

theorem ne_directory_of_accept (h : tree.accept path name above = .ok ()) :
    tree.node? (name :: above) ≠ some .directory := by
  intro hnode
  rcases hcheck : checkPath path with fault | ⟨⟩
  · simp [accept, hcheck, bind, Except.bind] at h
  · simp only [accept, hcheck, hnode, bind, Except.bind] at h
    split_ifs at h

theorem isFree_of_accept (hlinks : tree.HasNoLinks) (h : tree.accept path name above = .ok ()) :
    tree.IsFree (name :: above) := by
  rcases hnode : tree.node? (name :: above) with _ | ⟨content | _ | target⟩
  · exact Or.inl hnode
  · exact Or.inr ⟨content, hnode⟩
  · exact absurd hnode (ne_directory_of_accept h)
  · exact absurd hnode (hlinks _ _)

theorem accept_congr (h : after.node? (name :: above) = tree.node? (name :: above)) :
    after.accept path name above = tree.accept path name above := by
  rw [accept, accept, h]

/-- A place that has been filled once can be filled again. -/
theorem accept_put (h : tree.accept path name above = .ok ()) (content : Content) :
    (tree.put (name :: above) (.file content)).accept path name above = .ok () := by
  rcases hcheck : checkPath path with fault | ⟨⟩
  · simp [accept, hcheck, bind, Except.bind] at h
  · simp only [accept, hcheck, bind, Except.bind] at h ⊢
    split_ifs at h ⊢ with hlong
    rw [node?_put_self (List.cons_ne_nil _ _)]

/-- A directory that has been asked for either cannot be made or is there. -/
theorem makeDirectories_cases (h : (tree.makeDirectories path).2 = tree) :
    (∃ fault, tree.makeDirectories path = (.error fault, tree)) ∨
    ∃ above, tree.makeDirectories path = (.ok (), tree) ∧ tree.Reaches path above := by
  rcases hmake : tree.makeDirectories path with ⟨fault | ⟨⟩, made⟩
  · rw [hmake] at h
    obtain rfl : made = tree := h
    exact Or.inl ⟨fault, rfl⟩
  · rw [hmake] at h
    obtain rfl : made = tree := h
    obtain ⟨above, hreaches⟩ := reaches_of_makeDirectories hmake
    exact Or.inr ⟨above, rfl, hreaches⟩

/-! ## Settled artifacts -/

/-- A file that is put into a directory leaves the directory there. -/
theorem Reaches.put (h : tree.Reaches path above) (hlinks : tree.HasNoLinks)
    (hok : tree.makeDirectories path = (.ok (), tree)) (hfree : tree.IsFree location)
    (content : Content) :
    (tree.put location (.file content)).HasNoLinks ∧
      (tree.put location (.file content)).Reaches path above ∧
      (tree.put location (.file content)).makeDirectories path =
        (.ok (), tree.put location (.file content)) := by
  have hkeep : tree.KeepsWays (tree.put location (.file content)) := hfree.keepsWays_put
  have hlinks' := hlinks.of_keepsWays hkeep
  have hreaches := h.keep hkeep rfl
  exact ⟨hlinks', hreaches, hreaches.makeDirectories_eq hlinks' (congrArg Prod.fst hok)⟩

/-- Where the directory has been asked for before, an artifact is settled once it is stored. -/
theorem isSettled_of_store (hlinks : tree.HasNoLinks) (hname : IsProper name)
    (hmake : (tree.makeDirectories (holder directory)).2 = tree)
    (h : tree.store (join directory name) text = (result, after)) :
    after.IsSettled directory name text result := by
  rcases makeDirectories_cases hmake with ⟨fault, herror⟩ | ⟨above, hok, hreaches⟩
  · obtain rfl : tree = after := congrArg Prod.snd ((store_of_error text hname herror).symm.trans h)
    exact ⟨hmake, h⟩
  · have hstore := store_of_reaches text hname hlinks hok hreaches
    rcases haccept : tree.accept (join directory name) name above with fault | ⟨⟩
    · simp only [haccept] at hstore
      obtain rfl : tree = after := congrArg Prod.snd (hstore.symm.trans h)
      exact ⟨hmake, h⟩
    · simp only [haccept] at hstore
      obtain ⟨rfl, rfl⟩ := Prod.mk.inj (hstore.symm.trans h)
      obtain ⟨hlinks', hreaches', hok'⟩ :=
        hreaches.put hlinks hok (isFree_of_accept hlinks haccept) (.text text)
      refine ⟨congrArg Prod.snd hok', ?_⟩
      rw [store_of_reaches text hname hlinks' hok' hreaches', accept_put haccept]
      simp only
      rw [put_eq_self (List.cons_ne_nil _ _) (node?_put_self (List.cons_ne_nil _ _))]

/-- What is told of an artifact the second time: the same as the first time, or that a step is no
directory where something exists that is none. -/
def Repeats (directory : String) {α : Type} (result again : Except Failure α) : Prop :=
  again = result ∨ ".." ∈ steps directory ∧
    ∃ path, result = .error (.outputWrite path .alreadyExists) ∧
      again = .error (.outputWrite path .notDirectory)

theorem Repeats.map {α β : Type} {first again : Except Failure α}
    (h : Repeats directory first again) (f : α → β) :
    Repeats directory (first.map f) (again.map f) := by
  rcases h with rfl | ⟨hup, path, rfl, rfl⟩
  · exact Or.inl rfl
  · exact Or.inr ⟨hup, path, rfl, rfl⟩

theorem up_mem_steps_iff : ".." ∈ steps path ↔ ".." ∈ Path.names path := by
  rcases Path.steps_cases path with hsteps | hsteps
  · rw [hsteps]
  · rw [hsteps, List.mem_append, or_iff_left (by decide)]

theorem up_mem_steps_of_holder (h : ".." ∈ steps (holder directory)) : ".." ∈ steps directory := by
  obtain ⟨dots, hnames, -⟩ := Path.exists_names_eq directory
  rw [up_mem_steps_iff] at h ⊢
  rw [hnames]
  exact List.mem_append_left _ h

/-- Storing an artifact for the first time in a plain tree settles it. -/
theorem exists_isSettled_of_store (hplain : tree.IsPlain) (hname : IsProper name)
    (h : tree.store (join directory name) text = (result, after)) :
    ∃ again, after.IsSettled directory name text again ∧ Repeats directory result again := by
  rcases hmake : tree.makeDirectories (holder directory) with ⟨fault | ⟨⟩, made⟩
  · obtain ⟨rfl, rfl⟩ := Prod.mk.inj ((store_of_error text hname hmake).symm.trans h)
    obtain ⟨later, hlater, rfl | ⟨hup, hexists, rfl⟩⟩ := makeDirectories_again hplain hmake
    · exact ⟨_, ⟨congrArg Prod.snd hlater, store_of_error text hname hlater⟩, Or.inl rfl⟩
    · obtain rfl := Except.error.inj hexists
      exact ⟨_, ⟨congrArg Prod.snd hlater, store_of_error text hname hlater⟩,
        Or.inr ⟨up_mem_steps_of_holder hup, _, rfl, rfl⟩⟩
  · obtain ⟨later, hlater, rfl | ⟨-, hexists, -⟩⟩ := makeDirectories_again hplain hmake
    · have hgains := tree.gains_makeDirectories (holder directory)
      rw [hmake] at hgains
      have hstore : made.store (join directory name) text = (result, after) := by
        rw [← h, store_of_ok text hname hmake, store_of_ok text hname hlater]
      exact ⟨result, isSettled_of_store (hplain.hasNoLinks.of_keepsWays hgains.keepsWays) hname
        (congrArg Prod.snd hlater) hstore, Or.inl rfl⟩
    · exact absurd hexists nofun

/-- Another artifact in the same directory makes no difference. -/
theorem IsSettled.stay (h : tree.IsSettled directory name text result) (hlinks : tree.HasNoLinks)
    (hname : IsProper name) (hother : IsProper other) (hne : name ≠ other) (text' : String) :
    (tree.store (join directory other) text').2.IsSettled directory name text result := by
  rcases makeDirectories_cases h.directory_eq with ⟨fault, herror⟩ | ⟨above, hok, hreaches⟩
  · rw [store_of_error text' hother herror]
    exact h
  · rw [store_of_reaches text' hother hlinks hok hreaches]
    rcases haccept : tree.accept (join directory other) other above with fault | ⟨⟩
    · exact h
    · obtain ⟨hlinks', hreaches', hok'⟩ :=
        hreaches.put hlinks hok (isFree_of_accept hlinks haccept) (.text text')
      have hplace : name :: above ≠ other :: above := fun heq => hne (List.cons.inj heq).1
      have hstore := h.store_eq
      rw [store_of_reaches text hname hlinks hok hreaches] at hstore
      refine ⟨congrArg Prod.snd hok', ?_⟩
      rw [store_of_reaches text hname hlinks' hok' hreaches',
        accept_congr (node?_put_of_ne hplace)]
      rcases hself : tree.accept (join directory name) name above with fault | ⟨⟩
      · simp only [hself] at hstore
        obtain ⟨rfl, -⟩ := Prod.mk.inj hstore
        rfl
      · simp only [hself] at hstore
        obtain ⟨rfl, hput⟩ := Prod.mk.inj hstore
        have hthere : tree.node? (name :: above) = some (.file (.text text)) := by
          rw [← hput]
          exact node?_put_self (List.cons_ne_nil _ _)
        exact Prod.ext rfl (put_eq_self (List.cons_ne_nil _ _)
          ((node?_put_of_ne hplace).trans hthere))

/-! ## What may change -/

/-- A place of an artifact. -/
def IsArtifactPlace (location : Location) : Prop :=
  ∃ stem above, location = (stem ++ "_index.json") :: above

/-- Directories have been added, and artifacts. -/
structure Grows (tree after : Tree) : Prop where
  workingDirectory_eq : after.workingDirectory = tree.workingDirectory
  node?_cases : ∀ location, after.node? location = tree.node? location ∨
    (tree.node? location = none ∧ after.node? location = some .directory) ∨
    IsArtifactPlace location ∧ tree.IsFree location ∧
      ∃ content, after.node? location = some (.file content)

theorem Grows.refl (tree : Tree) : Grows tree tree :=
  ⟨rfl, fun _ => Or.inl rfl⟩

theorem Grows.trans {last : Tree} (h : Grows tree after) (h' : Grows after last) :
    Grows tree last := by
  refine ⟨h'.workingDirectory_eq.trans h.workingDirectory_eq, fun location => ?_⟩
  rcases h'.node?_cases location with hlast | ⟨hnone, hdirectory⟩ | ⟨hplace, hfree, hfile⟩
  · rw [hlast]
    exact h.node?_cases location
  · rcases h.node?_cases location with hafter | ⟨-, hmade⟩ | ⟨-, -, content, hfile⟩
    · exact Or.inr (Or.inl ⟨hafter ▸ hnone, hdirectory⟩)
    · exact absurd (hmade.symm.trans hnone) nofun
    · exact absurd (hfile.symm.trans hnone) nofun
  · rcases h.node?_cases location with hafter | ⟨-, hmade⟩ | ⟨-, hfree', -⟩
    · rw [IsFree, hafter] at hfree
      exact Or.inr (Or.inr ⟨hplace, hfree, hfile⟩)
    · exact absurd hmade hfree.ne_directory
    · exact Or.inr (Or.inr ⟨hplace, hfree', hfile⟩)

theorem Gains.grows {place : Location → Prop} (h : Gains place tree after) : Grows tree after :=
  ⟨h.workingDirectory_eq, fun location => (h.node?_cases location).imp_right fun hmade =>
    Or.inl ⟨hmade.1, hmade.2.1⟩⟩

theorem IsFree.grows_put (h : tree.IsFree location) (hplace : IsArtifactPlace location)
    (content : Content) : Grows tree (tree.put location (.file content)) := by
  refine ⟨rfl, fun other => ?_⟩
  by_cases hother : other = location
  · subst hother
    exact Or.inr (Or.inr ⟨hplace, h, content, node?_put_self h.ne_nil⟩)
  · exact Or.inl (node?_put_of_ne hother)

theorem Grows.keepsWays (h : Grows tree after) : tree.KeepsWays after := by
  constructor
  · intro location hnode
    rcases h.node?_cases location with hafter | ⟨hnone, -⟩ | ⟨-, hfree, -⟩
    · rwa [hafter]
    · exact absurd (hnode.symm.trans hnone) nofun
    · exact absurd hnode hfree.ne_directory
  · intro location target
    rcases h.node?_cases location with hafter | ⟨hnone, hdirectory⟩ | ⟨-, hfree, content, hfile⟩
    · rw [hafter]
    · rw [hnone, hdirectory]
      exact iff_of_false nofun nofun
    · rw [hfile]
      exact iff_of_false (hfree.ne_link target) nofun

/-- Elsewhere than at places of artifacts, the same files are there. -/
theorem Grows.node?_eq_file_iff (h : Grows tree after) (hplace : ¬IsArtifactPlace location)
    {content : Content} : after.node? location = some (.file content) ↔
      tree.node? location = some (.file content) := by
  rcases h.node?_cases location with hafter | ⟨hnone, hdirectory⟩ | ⟨hartifact, -⟩
  · rw [hafter]
  · rw [hnone, hdirectory]
    exact iff_of_false nofun nofun
  · exact absurd hartifact hplace

/-- Storing an artifact adds directories and that artifact. -/
theorem grows_store (hlinks : tree.HasNoLinks) (directory stem text : String)
    (hname : IsProper (stem ++ "_index.json")) :
    Grows tree (tree.store (join directory (stem ++ "_index.json")) text).2 := by
  have hgains := tree.gains_makeDirectories (holder directory)
  rcases hmake : tree.makeDirectories (holder directory) with ⟨fault | ⟨⟩, made⟩
  · rw [hmake] at hgains
    rw [store_of_error text hname hmake]
    exact hgains.grows
  · rw [hmake] at hgains
    have hlinks' := hlinks.of_keepsWays hgains.keepsWays
    obtain ⟨above, hreaches⟩ := reaches_of_makeDirectories hmake
    rw [store_of_ok text hname hmake, hreaches.of_holder.writeContent_join hname (hlinks' _)]
    rcases haccept : made.accept (join directory (stem ++ "_index.json")) (stem ++ "_index.json")
      above with fault | ⟨⟩
    · exact hgains.grows
    · exact hgains.grows.trans
        ((isFree_of_accept hlinks' haccept).grows_put ⟨stem, above, rfl⟩ (.text text))

end PropertyIndex.Tree
