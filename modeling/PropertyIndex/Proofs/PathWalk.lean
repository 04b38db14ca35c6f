import PropertyIndex.Proofs.TreeNode

/-!
# Where paths lead

Following a path is a function that may fail.  Where it does not fail, it amounts to a relation
between places, with one rule for each kind of step.  What changes in a tree elsewhere than on the
way to a place makes no difference to that way.

* `IsName`: the steps that go down.
* `walk_dot`, `walk_up`, `walk_long`, `walk_name`: what each kind of step does.
* `Leads`, `leads_iff`: the relation, and the function in terms of it.
* `Leads.exists_walk_append`: a way that may be continued, and what follows from its end.
* `KeepsWays`, `Leads.keep`: a tree in which every way is still there.
-/

namespace PropertyIndex.Tree

variable {tree after last : Tree} {links : Nat} {location place reached : Location}
  {name : String} {names front : List String} {node : Node}

/-! ## Steps -/

/-- A step that goes down to what has its name. -/
def IsName (name : String) : Prop :=
  name ≠ "." ∧ name ≠ ".." ∧ name.utf8ByteSize ≤ 255

/-- A step stays, goes up, has too long a name, or goes down. -/
theorem step_cases (name : String) : name = "." ∨ name = ".." ∨
    (name ≠ "." ∧ name ≠ ".." ∧ 255 < name.utf8ByteSize) ∨ IsName name := by
  by_cases hdot : name = "."
  · exact Or.inl hdot
  · by_cases hup : name = ".."
    · exact Or.inr (Or.inl hup)
    · rcases Nat.lt_or_ge 255 name.utf8ByteSize with hlong | hshort
      · exact Or.inr (Or.inr (Or.inl ⟨hdot, hup, hlong⟩))
      · exact Or.inr (Or.inr (Or.inr ⟨hdot, hup, hshort⟩))

/-- How a way goes on behind a link, when so many links may still be followed. -/
def followed (tree : Tree) : (links : Nat) → Location → List String → Except Fault Location
  | 0 => fun _ _ => .error .tooManyLinks
  | links + 1 => tree.walk links

theorem walk_eq_walkWith (tree : Tree) (links : Nat) :
    tree.walk links = tree.walkWith (tree.followed links) := by
  cases links <;> rfl

theorem walk_nil : tree.walk links location [] = .ok location := by
  rw [walk_eq_walkWith, walkWith]

theorem walk_dot : tree.walk links location ("." :: names) = tree.walk links location names := by
  rw [walk_eq_walkWith]
  rfl

theorem walk_up :
    tree.walk links location (".." :: names) = tree.walk links location.tail names := by
  rw [walk_eq_walkWith]
  rfl

theorem walk_long (hdot : name ≠ ".") (hup : name ≠ "..") (h : 255 < name.utf8ByteSize) :
    tree.walk links location (name :: names) = .error .nameTooLong := by
  rw [walk_eq_walkWith, walkWith, if_neg (by simpa using hdot), if_neg (by simpa using hup),
    if_pos h]

theorem walk_name (h : IsName name) : tree.walk links location (name :: names) =
    match tree.node? (name :: location) with
    | none => if names.isEmpty then .ok (name :: location) else .error .notFound
    | some .directory => tree.walk links (name :: location) names
    | some (.file _) => if names.isEmpty then .ok (name :: location) else .error .notDirectory
    | some (.link path) => tree.followed links (start path location) (steps path ++ names) := by
  rw [walk_eq_walkWith, walkWith]
  exact (if_neg (by simpa using h.1)).trans ((if_neg (by simpa using h.2.1)).trans
    (if_neg (Nat.not_lt.2 h.2.2)))

/-! ## Ways -/

/-- Steps lead from one place to another, past so many links at most.  Only the last one may lead to
a file or to nothing. -/
inductive Leads (tree : Tree) : Nat → Location → List String → Location → Prop
  | done {links : Nat} {location : Location} : Leads tree links location [] location
  | stay {links : Nat} {location reached : Location} {names : List String}
      (h : Leads tree links location names reached) :
      Leads tree links location ("." :: names) reached
  | up {links : Nat} {location reached : Location} {names : List String}
      (h : Leads tree links location.tail names reached) :
      Leads tree links location (".." :: names) reached
  | enter {links : Nat} {location reached : Location} {name : String} {names : List String}
      (hname : IsName name) (hnode : tree.node? (name :: location) = some .directory)
      (h : Leads tree links (name :: location) names reached) :
      Leads tree links location (name :: names) reached
  | arrive {links : Nat} {location : Location} {name : String} (hname : IsName name)
      (hdirectory : tree.node? (name :: location) ≠ some .directory)
      (hlink : ∀ path, tree.node? (name :: location) ≠ some (.link path)) :
      Leads tree links location [name] (name :: location)
  | follow {links : Nat} {location reached : Location} {name path : String} {names : List String}
      (hname : IsName name) (hnode : tree.node? (name :: location) = some (.link path))
      (h : Leads tree links (start path location) (steps path ++ names) reached) :
      Leads tree (links + 1) location (name :: names) reached

theorem Leads.walk_eq (h : Leads tree links location names reached) :
    tree.walk links location names = .ok reached := by
  induction h with
  | done => exact walk_nil
  | stay _ ih => rwa [walk_dot]
  | up _ ih => rwa [walk_up]
  | enter hname hnode _ ih =>
    rw [walk_name hname, hnode]
    exact ih
  | arrive hname hdirectory hlink =>
    rw [walk_name hname]
    split
    · rfl
    · next hnode => exact absurd hnode hdirectory
    · rfl
    · next path hnode => exact absurd hnode (hlink path)
  | follow hname hnode _ ih =>
    rw [walk_name hname, hnode]
    exact ih

/-- A way that goes through, if what is behind links does. -/
theorem leads_of_followed
    (hfollowed : ∀ {location names reached}, tree.followed links location names = .ok reached →
      ∃ fewer, links = fewer + 1 ∧ Leads tree fewer location names reached)
    (h : tree.walk links location names = .ok reached) :
    Leads tree links location names reached := by
  induction names generalizing location with
  | nil =>
    rw [walk_nil] at h
    obtain rfl := Except.ok.inj h
    exact .done
  | cons name names ih =>
    rcases step_cases name with rfl | rfl | ⟨hdot, hup, hlong⟩ | hname
    · exact .stay (ih (walk_dot ▸ h))
    · exact .up (ih (walk_up ▸ h))
    · rw [walk_long hdot hup hlong] at h
      exact absurd h nofun
    · rw [walk_name hname] at h
      split at h
      · next hnode =>
        split_ifs at h with hlast
        obtain rfl := List.isEmpty_iff.1 hlast
        obtain rfl := Except.ok.inj h
        exact .arrive hname (hnode ▸ nofun) (hnode ▸ nofun)
      · next hnode => exact .enter hname hnode (ih h)
      · next hnode =>
        split_ifs at h with hlast
        obtain rfl := List.isEmpty_iff.1 hlast
        obtain rfl := Except.ok.inj h
        exact .arrive hname (hnode ▸ nofun) (hnode ▸ nofun)
      · next path hnode =>
        obtain ⟨fewer, rfl, hbehind⟩ := hfollowed h
        exact .follow hname hnode hbehind

/-- Following steps succeeds exactly where they lead somewhere, and ends there. -/
theorem leads_iff : Leads tree links location names reached ↔
    tree.walk links location names = .ok reached := by
  refine ⟨Leads.walk_eq, fun h => ?_⟩
  induction links generalizing location names reached with
  | zero => exact leads_of_followed (fun hnone => absurd hnone nofun) h
  | succ links ih => exact leads_of_followed (fun hbehind => ⟨links, rfl, ih hbehind⟩) h

/-- A single dot behind some steps asks for a directory at which they end.  Whatever comes behind
such steps is followed from there. -/
theorem Leads.exists_walk_append (h : Leads tree links location (front ++ ["."]) reached) :
    ∃ fewer, ∀ names,
      tree.walk links location (front ++ names) = tree.walk fewer reached names := by
  generalize hsteps : front ++ ["."] = way at h
  induction h generalizing front with
  | done => exact absurd hsteps (by simp)
  | @stay links location reached names h ih =>
    rcases front with _ | ⟨first, front⟩
    · obtain ⟨-, rfl⟩ := List.cons.inj hsteps
      cases h
      exact ⟨links, fun names => rfl⟩
    · obtain ⟨rfl, hrest⟩ := List.cons.inj hsteps
      obtain ⟨fewer, hfewer⟩ := ih hrest
      exact ⟨fewer, fun names => walk_dot.trans (hfewer names)⟩
  | up h ih =>
    rcases front with _ | ⟨first, front⟩
    · exact absurd (List.cons.inj hsteps).1 (by decide)
    · obtain ⟨rfl, hrest⟩ := List.cons.inj hsteps
      obtain ⟨fewer, hfewer⟩ := ih hrest
      exact ⟨fewer, fun names => walk_up.trans (hfewer names)⟩
  | enter hname hnode h ih =>
    rcases front with _ | ⟨first, front⟩
    · exact absurd (List.cons.inj hsteps).1.symm hname.1
    · obtain ⟨rfl, hrest⟩ := List.cons.inj hsteps
      obtain ⟨fewer, hfewer⟩ := ih hrest
      refine ⟨fewer, fun names => ?_⟩
      rw [List.cons_append, walk_name hname, hnode]
      exact hfewer names
  | arrive hname hdirectory hlink =>
    rcases front with _ | ⟨first, front⟩
    · exact absurd (List.cons.inj hsteps).1.symm hname.1
    · exact absurd (List.cons.inj hsteps).2 (by simp)
  | @follow links location reached name path names hname hnode h ih =>
    rcases front with _ | ⟨first, front⟩
    · exact absurd (List.cons.inj hsteps).1.symm hname.1
    · obtain ⟨rfl, rfl⟩ := List.cons.inj hsteps
      obtain ⟨fewer, hfewer⟩ := @ih (steps path ++ front) (List.append_assoc _ _ _)
      refine ⟨fewer, fun names => ?_⟩
      rw [List.cons_append, walk_name hname, hnode]
      show tree.walk links (start path location) (steps path ++ (front ++ names)) = _
      rw [← List.append_assoc]
      exact hfewer names

/-! ## Changes beside the way -/

/-- Directories and links stay, and no other links appear. -/
structure KeepsWays (tree after : Tree) : Prop where
  directory : ∀ {location}, tree.node? location = some .directory →
    after.node? location = some .directory
  link_iff : ∀ {location path}, tree.node? location = some (.link path) ↔
    after.node? location = some (.link path)

theorem KeepsWays.refl (tree : Tree) : tree.KeepsWays tree :=
  ⟨id, Iff.rfl⟩

theorem KeepsWays.trans (h : tree.KeepsWays after) (h' : after.KeepsWays last) :
    tree.KeepsWays last :=
  ⟨fun hnode => h'.directory (h.directory hnode), h.link_iff.trans h'.link_iff⟩

/-- Every way is still there. -/
theorem Leads.keep (h : Leads tree links location names reached) (hkeep : tree.KeepsWays after) :
    Leads after links location names reached := by
  induction h with
  | done => exact .done
  | stay _ ih => exact .stay ih
  | up _ ih => exact .up ih
  | enter hname hnode _ ih => exact .enter hname (hkeep.directory hnode) ih
  | @arrive links location name hname hdirectory hlink =>
    by_cases hmade : after.node? (name :: location) = some .directory
    · exact .enter hname hmade .done
    · exact .arrive hname hmade fun path hpath => hlink path (hkeep.link_iff.2 hpath)
  | follow hname hnode _ ih => exact .follow hname (hkeep.link_iff.1 hnode) ih

/-- A tree in which something else than a directory or a link has given way. -/
theorem keepsWays_put (hne : location ≠ []) (hdirectory : tree.node? location ≠ some .directory)
    (hlink : ∀ path, tree.node? location ≠ some (.link path))
    (hnode : ∀ path, node ≠ .link path) : tree.KeepsWays (tree.put location node) := by
  constructor
  · intro place hplace
    have hother : place ≠ location := by
      rintro rfl
      exact hdirectory hplace
    rwa [node?_put_of_ne hother]
  · intro place path
    by_cases hplace : place = location
    · subst hplace
      rw [node?_put_self hne, Option.some_inj]
      exact iff_of_false (hlink path) (hnode path)
    · rw [node?_put_of_ne hplace]

end PropertyIndex.Tree
