import Mathlib.Data.List.Infix
import PropertyIndex.Proofs.PathWalk

/-!
# Making directories

Making the directories on a path adds directories at places on that path and changes nothing else,
whether it comes to the end of the path or not.

* `Gains`: a tree with more directories.
* `createAlong_dot`, `createAlong_up`, `createAlong_long`, `createAlong_name`: what each kind of
  step does, with `createAlong_cases` for what all of them have in common.
* `gains_createAlong`, `leads_of_createAlong`: what is added, and where the steps lead afterwards.
* `LiesOn`, `gains_makeDirectories`: the places on a path, and what is added there.
-/

namespace PropertyIndex.Tree

variable {tree after last : Tree} {origin location : Location} {made : Bool} {name : String}
  {names front : List String} {place : Location → Prop}

/-! ## More directories -/

/-- Directories have been added at some places, and nothing else has changed. -/
structure Gains (place : Location → Prop) (tree after : Tree) : Prop where
  workingDirectory_eq : after.workingDirectory = tree.workingDirectory
  node?_cases : ∀ location, after.node? location = tree.node? location ∨
    (tree.node? location = none ∧ after.node? location = some .directory ∧ place location)

theorem Gains.refl (tree : Tree) : Gains place tree tree :=
  ⟨rfl, fun _ => Or.inl rfl⟩

theorem Gains.trans (h : Gains place tree after) (h' : Gains place after last) :
    Gains place tree last := by
  refine ⟨h'.workingDirectory_eq.trans h.workingDirectory_eq, fun location => ?_⟩
  rcases h'.node?_cases location with hlast | ⟨hnone, hdirectory, hplace⟩
  · rw [hlast]
    exact h.node?_cases location
  · rcases h.node?_cases location with hafter | ⟨-, hmade, -⟩
    · exact Or.inr ⟨hafter ▸ hnone, hdirectory, hplace⟩
    · exact absurd (hmade.symm.trans hnone) nofun

theorem Gains.mono {other : Location → Prop} (h : Gains place tree after)
    (hplace : ∀ location, place location → other location) : Gains other tree after := by
  refine ⟨h.workingDirectory_eq, fun location => ?_⟩
  rcases h.node?_cases location with hafter | ⟨hnone, hdirectory, hlies⟩
  · exact Or.inl hafter
  · exact Or.inr ⟨hnone, hdirectory, hplace _ hlies⟩

theorem gains_put (hnone : tree.node? location = none) (hplace : place location) :
    Gains place tree (tree.put location .directory) := by
  refine ⟨rfl, fun other => ?_⟩
  by_cases hother : other = location
  · subst hother
    have hne : other ≠ [] := by
      rintro rfl
      exact absurd hnone nofun
    exact Or.inr ⟨hnone, node?_put_self hne, hplace⟩
  · exact Or.inl (node?_put_of_ne hother)

theorem Gains.keepsWays (h : Gains place tree after) : tree.KeepsWays after := by
  constructor
  · intro location hnode
    rcases h.node?_cases location with hafter | ⟨hnone, -, -⟩
    · rwa [hafter]
    · exact absurd (hnode.symm.trans hnone) nofun
  · intro location path
    rcases h.node?_cases location with hafter | ⟨hnone, hdirectory, -⟩
    · rw [hafter]
    · rw [hnone, hdirectory]
      exact iff_of_false nofun nofun

/-! ## Steps -/

theorem createAlong_dot : tree.createAlong origin made front location ("." :: names) =
    tree.createAlong origin made (front ++ ["."]) location names := rfl

theorem createAlong_up : tree.createAlong origin made front location (".." :: names) =
    tree.createAlong origin made (front ++ [".."]) location.tail names := rfl

theorem createAlong_long (hdot : name ≠ ".") (hup : name ≠ "..") (h : 255 < name.utf8ByteSize) :
    tree.createAlong origin made front location (name :: names) = (.error .nameTooLong, tree) := by
  rw [createAlong, if_neg (by simpa using hdot), if_neg (by simpa using hup), if_pos h]

theorem createAlong_name (h : IsName name) :
    tree.createAlong origin made front location (name :: names) =
      match tree.node? (name :: location) with
      | none => (tree.put (name :: location) .directory).createAlong origin true (front ++ [name])
          (name :: location) names
      | some .directory => tree.createAlong origin made (front ++ [name]) (name :: location) names
      | some (.file _) => (.error (obstacle made names .notDirectory), tree)
      | some (.link _) =>
        match tree.walk linkLimit origin (front ++ [name, "."]) with
        | .ok reached => tree.createAlong origin made (front ++ [name]) reached names
        | .error .notFound => (.error .alreadyExists, tree)
        | .error fault => (.error (obstacle made names fault), tree) := by
  rw [createAlong]
  exact (if_neg (by simpa using h.1)).trans ((if_neg (by simpa using h.2.1)).trans
    (if_neg (Nat.not_lt.2 h.2.2)))

/-! ## What is made -/

/-- A way that may be continued goes on by some steps. -/
theorem Leads.append {links : Nat} {reached : Location}
    (h : Leads tree links origin (front ++ ["."]) location)
    (hnames : ∀ links, Leads tree links location names reached) :
    Leads tree links origin (front ++ names) reached := by
  obtain ⟨fewer, hfewer⟩ := h.exists_walk_append
  rw [leads_iff, hfewer, ← leads_iff]
  exact hnames fewer

/-- A step either cannot be taken, and then nothing is made, or it leads on.  What it leads through
is made at most. -/
theorem createAlong_cases (made : Bool) (name : String) (names : List String)
    (h : Leads tree linkLimit origin (front ++ ["."]) location) :
    (∃ fault, tree.createAlong origin made front location (name :: names) = (.error fault, tree)) ∨
    ∃ next made' location',
      tree.createAlong origin made front location (name :: names) =
        next.createAlong origin made' (front ++ [name]) location' names ∧
      Leads next linkLimit origin (front ++ [name] ++ ["."]) location' ∧
      (next = tree ∨ tree.node? (name :: location) = none ∧
        next = tree.put (name :: location) .directory ∧
        Leads next linkLimit origin (front ++ [name]) (name :: location)) := by
  rw [List.append_assoc]
  rcases step_cases name with rfl | rfl | ⟨hdot, hup, hlong⟩ | hname
  · exact Or.inr ⟨tree, made, location, createAlong_dot,
      h.append fun links => .stay (.stay .done), Or.inl rfl⟩
  · exact Or.inr ⟨tree, made, location.tail, createAlong_up,
      h.append fun links => .up (.stay .done), Or.inl rfl⟩
  · exact Or.inl ⟨_, createAlong_long hdot hup hlong⟩
  · rw [createAlong_name hname]
    split
    · next hnone =>
      have hput : Gains (fun _ => True) tree (tree.put (name :: location) .directory) :=
        gains_put hnone trivial
      have hnode : (tree.put (name :: location) .directory).node? (name :: location) =
          some .directory := node?_put_self (List.cons_ne_nil _ _)
      have hway := h.keep hput.keepsWays
      exact Or.inr ⟨_, true, name :: location, rfl,
        hway.append fun links => .enter hname hnode (.stay .done), Or.inr ⟨hnone, rfl,
          hway.append fun links => .enter hname hnode .done⟩⟩
    · next hnode =>
      exact Or.inr ⟨tree, made, name :: location, rfl,
        h.append fun links => .enter hname hnode (.stay .done), Or.inl rfl⟩
    · exact Or.inl ⟨_, rfl⟩
    · split
      · next reached hwalk =>
        exact Or.inr ⟨tree, made, reached, rfl, leads_iff.2 hwalk, Or.inl rfl⟩
      · exact Or.inl ⟨_, rfl⟩
      · exact Or.inl ⟨_, rfl⟩

/-- Only directories on the way are added. -/
theorem gains_createAlong (made : Bool) (names : List String)
    (h : Leads tree linkLimit origin (front ++ ["."]) location) :
    Gains (fun place => ∃ shown, shown ≠ [] ∧ shown <+: front ++ names ∧
      Leads (tree.createAlong origin made front location names).2 linkLimit origin shown place)
        tree (tree.createAlong origin made front location names).2 := by
  induction names generalizing tree made front location with
  | nil => exact Gains.refl tree
  | cons name names ih =>
    rcases createAlong_cases made name names h with
      ⟨fault, hstop⟩ | ⟨next, made', location', hmove, hway, hnext⟩
    · rw [hstop]
      exact Gains.refl tree
    · have hrest := ih made' hway
      rw [hmove, List.append_cons]
      rcases hnext with rfl | ⟨hnone, rfl, hreached⟩
      · exact hrest
      · refine Gains.trans (gains_put hnone ⟨front ++ [name], by simp, ⟨names, rfl⟩, ?_⟩) hrest
        exact hreached.keep hrest.keepsWays

/-- When all directories could be made, the steps lead to a directory. -/
theorem leads_of_createAlong (h : Leads tree linkLimit origin (front ++ ["."]) location)
    (hok : (tree.createAlong origin made front location names).1 = .ok ()) :
    ∃ reached, Leads (tree.createAlong origin made front location names).2 linkLimit origin
      (front ++ names ++ ["."]) reached := by
  induction names generalizing tree made front location with
  | nil =>
    rw [List.append_nil]
    exact ⟨location, h⟩
  | cons name names ih =>
    rcases createAlong_cases made name names h with
      ⟨fault, hstop⟩ | ⟨next, made', location', hmove, hway, -⟩
    · rw [hstop] at hok
      exact absurd hok nofun
    · rw [hmove] at hok ⊢
      rw [List.append_cons front name names]
      exact ih hway hok

/-! ## Paths -/

/-- A place to which the first steps of a path lead. -/
def LiesOn (tree : Tree) (path : String) (place : Location) : Prop :=
  ∃ shown, shown ≠ [] ∧ shown <+: steps path ∧
    tree.walk linkLimit (start path tree.workingDirectory) shown = .ok place

theorem makeDirectories_of_error {path : String} {fault : Fault} (hpath : path ≠ "")
    (h : checkPath path = .error fault) : tree.makeDirectories path = (.error fault, tree) := by
  rw [makeDirectories, if_neg (by simpa using hpath), h]

theorem makeDirectories_of_ok {path : String} (hpath : path ≠ "") (h : checkPath path = .ok ()) :
    tree.makeDirectories path = tree.createAlong (start path tree.workingDirectory) false []
      (start path tree.workingDirectory) (steps path) := by
  rw [makeDirectories, if_neg (by simpa using hpath), h]

/-- Making a directory adds directories on its path and changes nothing else, even if it fails. -/
theorem gains_makeDirectories (tree : Tree) (path : String) :
    Gains ((tree.makeDirectories path).2.LiesOn path) tree (tree.makeDirectories path).2 := by
  by_cases hpath : path = ""
  · subst hpath
    exact Gains.refl tree
  · rcases hcheck : checkPath path with fault | ⟨⟩
    · rw [makeDirectories_of_error hpath hcheck]
      exact Gains.refl tree
    · rw [makeDirectories_of_ok hpath hcheck]
      have hhere : Leads tree linkLimit (start path tree.workingDirectory) ([] ++ ["."])
          (start path tree.workingDirectory) := .stay .done
      have hgains := gains_createAlong false (steps path) hhere
      refine hgains.mono ?_
      rintro place ⟨shown, hne, hshown, hleads⟩
      refine ⟨shown, hne, hshown, ?_⟩
      rw [hgains.workingDirectory_eq]
      exact hleads.walk_eq

end PropertyIndex.Tree
