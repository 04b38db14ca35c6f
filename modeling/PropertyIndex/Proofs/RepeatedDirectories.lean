import PropertyIndex.Proofs.DirectoryEntry

/-!
# Making directories again

Where making a directory has succeeded, making it again changes nothing.  Where it has failed, it
fails again and changes nothing any more, though it may be told otherwise why: directories that the
first attempt has made are no longer in the way of finding out that a file stands where a directory
is needed.  That takes a path that goes up again from a directory which was not there.

* `HasNoLinks`, `IsPlain`: trees of files and directories.
* `createAlong_of_leads`: nothing is made where the directories are there.
* `Rephrases`, `createAlong_again`: the second attempt.
* `createAlong_alreadyExists`: what the first attempt may have made, when it fails because something
  is in the way.
* `makeDirectories_again`, `reaches_of_makeDirectories`: the same for paths.
-/

namespace PropertyIndex.Tree

variable {tree after : Tree} {origin location reached : Location} {made : Bool} {links : Nat}
  {names front : List String} {result : Except Fault Unit} {path : String}

/-! ## Plain trees -/

/-- There are no symbolic links. -/
def HasNoLinks (tree : Tree) : Prop :=
  ∀ location target, tree.node? location ≠ some (.link target)

/-- A tree of files and directories.  Everything but the root stands in a directory, and no name has
a slash in it. -/
structure IsPlain (tree : Tree) : Prop where
  hasNoLinks : tree.HasNoLinks
  above : ∀ name location, tree.node? (name :: location) ≠ none →
    tree.node? location = some .directory
  slash_notMem : ∀ name location, tree.node? (name :: location) ≠ none → '/' ∉ name.toList

/-- Whether a node may stand at its place in a plain tree. -/
def standsPlainly (tree : Tree) : Location × Node → Bool
  | ([], _) => true
  | (_ :: _, .link _) => false
  | (name :: above, _) => tree.node? above == some .directory && !name.toList.contains '/'

theorem isPlain_iff : tree.IsPlain ↔ tree.nodes.all tree.standsPlainly = true := by
  rw [List.all_eq_true]
  constructor
  · rintro h ⟨_ | ⟨name, above⟩, node⟩ hmem
    · rfl
    · have hnode := (node?_eq_some_iff (List.cons_ne_nil name above)).2 hmem
      have hsome : tree.node? (name :: above) ≠ none := hnode ▸ Option.some_ne_none _
      have habove := h.above name above hsome
      have hslash := h.slash_notMem name above hsome
      cases node with
      | link target => exact absurd hnode (h.hasNoLinks _ _)
      | file content => simp [standsPlainly, habove, hslash]
      | directory => simp [standsPlainly, habove, hslash]
  · intro h
    have hstands {name : String} {above : Location} {node : Node}
        (hnode : tree.node? (name :: above) = some node) :
        tree.standsPlainly (name :: above, node) = true :=
      h _ ((node?_eq_some_iff (List.cons_ne_nil name above)).1 hnode)
    have hboth (name : String) (above : Location) (hsome : tree.node? (name :: above) ≠ none) :
        tree.node? above = some .directory ∧ '/' ∉ name.toList := by
      obtain ⟨node, hnode⟩ := Option.ne_none_iff_exists'.1 hsome
      have hstand := hstands hnode
      cases node with
      | link target => exact absurd hstand Bool.false_ne_true
      | file content => simpa [standsPlainly] using hstand
      | directory => simpa [standsPlainly] using hstand
    refine ⟨fun location target hnode => ?_, fun name above hsome => (hboth name above hsome).1,
      fun name above hsome => (hboth name above hsome).2⟩
    cases location with
    | nil => exact absurd hnode nofun
    | cons name above => exact absurd (hstands hnode) Bool.false_ne_true

instance (tree : Tree) : Decidable tree.IsPlain :=
  decidable_of_iff _ isPlain_iff.symm

/-- Where nothing stands, nothing stands further down. -/
theorem IsPlain.node?_append (h : tree.IsPlain) (hnone : tree.node? location = none)
    (below : Location) : tree.node? (below ++ location) = none := by
  induction below with
  | nil => exact hnone
  | cons name below ih =>
    by_contra hsome
    exact absurd (ih.symm.trans (h.above name _ hsome)) nofun

theorem HasNoLinks.of_keepsWays (h : tree.HasNoLinks) (hkeep : tree.KeepsWays after) :
    after.HasNoLinks :=
  fun location target hnode => h location target (hkeep.link_iff.2 hnode)

/-! ## Steps -/

/-- Nothing is made where the directories are there. -/
theorem createAlong_of_leads (hlinks : tree.HasNoLinks)
    (h : Leads tree links location (names ++ ["."]) reached) :
    tree.createAlong origin made front location names = (.ok (), tree) := by
  induction names generalizing made front location with
  | nil => rfl
  | cons name names ih =>
    generalize hway : name :: names ++ ["."] = way at h
    cases h with
    | done => exact absurd hway (List.cons_ne_nil _ _)
    | stay h =>
      obtain ⟨rfl, rfl⟩ := List.cons.inj hway
      exact ih h
    | up h =>
      obtain ⟨rfl, rfl⟩ := List.cons.inj hway
      exact ih h
    | enter hname hnode h =>
      obtain ⟨rfl, rfl⟩ := List.cons.inj hway
      rw [createAlong_name hname, hnode]
      exact ih h
    | arrive hname hdirectory hlink => exact absurd (List.cons.inj hway).2 (by simp)
    | follow hname hnode h => exact absurd hnode (hlinks _ _)

/-- Directories and links stay where more directories are made. -/
theorem keepsWays_createAlong (tree : Tree) (origin : Location) (made : Bool) (front : List String)
    (location : Location) (names : List String) :
    tree.KeepsWays (tree.createAlong origin made front location names).2 := by
  induction names generalizing tree made front location with
  | nil => exact .refl tree
  | cons name names ih =>
    rcases step_cases name with rfl | rfl | ⟨hdot, hup, hlong⟩ | hname
    · exact ih tree made _ location
    · exact ih tree made _ location.tail
    · rw [createAlong_long hdot hup hlong]
      exact .refl tree
    · rw [createAlong_name hname]
      split
      · next hnone =>
        have hput : Gains (fun _ => True) tree (tree.put (name :: location) .directory) :=
          gains_put hnone trivial
        exact hput.keepsWays.trans (ih _ true _ _)
      · exact ih tree made _ _
      · exact .refl tree
      · split
        · exact ih tree made _ _
        · exact .refl tree
        · exact .refl tree

/-- What is told of a second attempt: the same as of the first one, or that a step is no directory
where the first one told that something exists. -/
def Rephrases (result again : Except Fault Unit) : Prop :=
  again = result ∨ result = .error .alreadyExists ∧ again = .error .notDirectory

theorem rephrases_obstacle (made : Bool) (names : List String) :
    Rephrases (.error (obstacle made names .notDirectory))
      (.error (obstacle false names .notDirectory)) := by
  cases made with
  | false => exact Or.inl rfl
  | true =>
    rw [obstacle, obstacle, Bool.true_or, Bool.false_or, if_pos rfl]
    split_ifs
    · exact Or.inl rfl
    · exact Or.inr ⟨rfl, rfl⟩

/-- A second attempt changes nothing and fails where the first one does. -/
theorem createAlong_again (hlinks : tree.HasNoLinks)
    (h : tree.createAlong origin made front location names = (result, after))
    (again : List String) :
    ∃ later, after.createAlong origin false again location names = (later, after) ∧
      Rephrases result later := by
  induction names generalizing tree made front location again with
  | nil =>
    obtain ⟨rfl, rfl⟩ := Prod.mk.inj h
    exact ⟨_, rfl, Or.inl rfl⟩
  | cons name names ih =>
    rcases step_cases name with rfl | rfl | ⟨hdot, hup, hlong⟩ | hname
    · exact ih hlinks h _
    · exact ih hlinks h _
    · rw [createAlong_long hdot hup hlong] at h
      obtain ⟨rfl, rfl⟩ := Prod.mk.inj h
      exact ⟨_, createAlong_long hdot hup hlong, Or.inl rfl⟩
    · have hkeep := keepsWays_createAlong tree origin made front location (name :: names)
      rw [h] at hkeep
      rw [createAlong_name hname] at h
      rcases hnode : tree.node? (name :: location) with _ | ⟨content | _ | target⟩
      · simp only [hnode] at h
        have hput : Gains (fun _ => True) tree (tree.put (name :: location) .directory) :=
          gains_put hnode trivial
        have hmade := keepsWays_createAlong (tree.put (name :: location) .directory) origin true
          (front ++ [name]) (name :: location) names
        rw [h] at hmade
        rw [createAlong_name hname, hmade.directory (node?_put_self (List.cons_ne_nil _ _))]
        exact ih (hlinks.of_keepsWays hput.keepsWays) h _
      · simp only [hnode] at h
        obtain ⟨rfl, rfl⟩ := Prod.mk.inj h
        rw [createAlong_name hname, hnode]
        exact ⟨_, rfl, rephrases_obstacle made names⟩
      · simp only [hnode] at h
        rw [createAlong_name hname, hkeep.directory hnode]
        exact ih hlinks h _
      · exact absurd hnode (hlinks _ _)

/-- Where something is in the way behind steps that only go down, and something has been made, the
way is clear: nothing stands below what was made. -/
theorem createAlong_ne_alreadyExists (hup : ".." ∉ names)
    (hbare : ∀ below, below ≠ [] → tree.node? (below ++ location) = none) :
    (tree.createAlong origin true front location names).1 ≠ .error .alreadyExists := by
  induction names generalizing tree front location with
  | nil => exact nofun
  | cons name names ih =>
    rw [List.mem_cons, not_or] at hup
    rcases step_cases name with rfl | rfl | ⟨hdot, hup', hlong⟩ | hname
    · exact ih hup.2 hbare
    · exact absurd rfl hup.1
    · rw [createAlong_long hdot hup' hlong]
      exact nofun
    · have hnone : tree.node? (name :: location) = none := hbare [name] (List.cons_ne_nil _ _)
      rw [createAlong_name hname, hnone]
      refine ih hup.2 fun below hbelow => ?_
      rw [node?_put_of_ne (by simpa using hbelow), List.append_cons]
      exact hbare _ (by simp)

/-- A path that only goes down is cleared by the first attempt: when something is in the way, then
nothing has been made. -/
theorem createAlong_alreadyExists (hplain : tree.IsPlain) (hup : ".." ∉ names)
    (h : (tree.createAlong origin false front location names).1 = .error .alreadyExists) :
    (tree.createAlong origin false front location names).2 = tree := by
  induction names generalizing front location with
  | nil => rfl
  | cons name names ih =>
    rw [List.mem_cons, not_or] at hup
    rcases step_cases name with rfl | rfl | ⟨hdot, hup', hlong⟩ | hname
    · exact ih hup.2 h
    · exact absurd rfl hup.1
    · rw [createAlong_long hdot hup' hlong]
    · rw [createAlong_name hname] at h ⊢
      rcases hnode : tree.node? (name :: location) with _ | ⟨content | _ | target⟩
      · simp only [hnode] at h
        refine absurd h (createAlong_ne_alreadyExists hup.2 fun below hbelow => ?_)
        rw [node?_put_of_ne (by simpa using hbelow)]
        exact hplain.node?_append hnode below
      · rfl
      · simp only [hnode] at h
        exact ih hup.2 h
      · exact absurd hnode (hplain.hasNoLinks _ _)

/-! ## Paths -/

/-- The steps of a path that is reached lead to the place of the directory. -/
theorem reaches_iff_leads : tree.Reaches path location ↔
    Leads tree linkLimit (start path tree.workingDirectory) (steps path ++ ["."]) location := by
  rcases Path.steps_cases path with hsteps | hsteps
  · rw [hsteps]
    exact Iff.rfl
  · rw [hsteps]
    refine ⟨fun h => ?_, Leads.of_concat_dot⟩
    rw [List.append_assoc]
    exact Leads.append h fun links => .stay (.stay .done)

/-- A second attempt changes nothing and fails where the first one does.  Only a path that goes up
may be told otherwise why. -/
theorem makeDirectories_again (hplain : tree.IsPlain)
    (h : tree.makeDirectories path = (result, after)) :
    ∃ later, after.makeDirectories path = (later, after) ∧
      (later = result ∨ ".." ∈ steps path ∧ result = .error .alreadyExists ∧
        later = .error .notDirectory) := by
  have hgains := tree.gains_makeDirectories path
  have hfirst := h
  rw [h] at hgains
  by_cases hpath : path = ""
  · subst hpath
    obtain ⟨rfl, rfl⟩ := Prod.mk.inj h
    exact ⟨_, rfl, Or.inl rfl⟩
  · rcases hcheck : checkPath path with fault | ⟨⟩
    · rw [makeDirectories_of_error hpath hcheck] at h
      obtain ⟨rfl, rfl⟩ := Prod.mk.inj h
      exact ⟨_, makeDirectories_of_error hpath hcheck, Or.inl rfl⟩
    · rw [makeDirectories_of_ok hpath hcheck] at h
      obtain ⟨later, hlater, hrephrases⟩ := createAlong_again hplain.hasNoLinks h []
      have hagain : after.makeDirectories path = (later, after) := by
        rw [makeDirectories_of_ok hpath hcheck, hgains.workingDirectory_eq]
        exact hlater
      refine ⟨later, hagain, ?_⟩
      rcases hrephrases with heq | ⟨rfl, rfl⟩
      · exact Or.inl heq
      · by_cases hup : ".." ∈ steps path
        · exact Or.inr ⟨hup, rfl, rfl⟩
        · have hafter := createAlong_alreadyExists hplain hup (congrArg Prod.fst h)
          obtain rfl : after = tree := (congrArg Prod.snd h).symm.trans hafter
          exact Or.inl (congrArg Prod.fst (hagain.symm.trans hfirst))

/-- A directory that could be made is reached. -/
theorem reaches_of_makeDirectories (h : tree.makeDirectories path = (.ok (), after)) :
    ∃ location, after.Reaches path location := by
  by_cases hpath : path = ""
  · subst hpath
    exact ⟨_, .stay .done⟩
  · have hgains := tree.gains_makeDirectories path
    rw [h] at hgains
    rcases hcheck : checkPath path with fault | ⟨⟩
    · rw [makeDirectories_of_error hpath hcheck] at h
      exact absurd (congrArg Prod.fst h) nofun
    · have hhere : Leads tree linkLimit (start path tree.workingDirectory) ([] ++ ["."])
          (start path tree.workingDirectory) := .stay .done
      rw [makeDirectories_of_ok hpath hcheck] at h
      obtain ⟨location, hleads⟩ := leads_of_createAlong hhere (congrArg Prod.fst h)
      rw [h, ← hgains.workingDirectory_eq] at hleads
      exact ⟨location, reaches_iff_leads.2 hleads⟩

/-- A directory that is reached is there, and nothing is made. -/
theorem Reaches.makeDirectories_eq (h : after.Reaches path location) (hlinks : after.HasNoLinks)
    (hok : (tree.makeDirectories path).1 = .ok ()) :
    after.makeDirectories path = (.ok (), after) := by
  by_cases hpath : path = ""
  · subst hpath
    rfl
  · rcases hcheck : checkPath path with fault | ⟨⟩
    · rw [makeDirectories_of_error hpath hcheck] at hok
      exact absurd hok nofun
    · rw [makeDirectories_of_ok hpath hcheck]
      exact createAlong_of_leads hlinks (reaches_iff_leads.1 h)

end PropertyIndex.Tree
