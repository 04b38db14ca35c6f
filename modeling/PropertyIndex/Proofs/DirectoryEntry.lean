import PropertyIndex.Proofs.PathParts
import PropertyIndex.Proofs.ProcessedPair

/-!
# Names in a directory of a tree

When the path of a directory leads to a place, the path of a name in that directory leads to that
name below the place.  So what is read there, and whether something can be written there, depends on
what stands at that one place.

* `Path.IsProper`: names that something in a directory can have.
* `Reaches`: the path of a directory leads to a place, with `reaches_of_locate` and
  `Reaches.of_holder` for how that is known.
* `Reaches.walk_join`: the path of a name in the directory.
* `Reaches.readText_congr`, `Reaches.writeContent_join`: reading and writing it.
-/

namespace PropertyIndex

/-- Names that something in a directory can have. -/
structure Path.IsProper (name : String) : Prop where
  slash_notMem : '/' ∉ name.toList
  ne_empty : name ≠ ""
  ne_dot : name ≠ "."
  ne_up : name ≠ ".."

/-- A name with a longer ending is proper. -/
theorem Path.isProper_append {stem ending : String} (hstem : '/' ∉ stem.toList)
    (hending : '/' ∉ ending.toList) (hlong : 2 < ending.toList.length) :
    Path.IsProper (stem ++ ending) := by
  have hlength : 2 < (stem ++ ending).toList.length := by
    rw [String.toList_append, List.length_append]
    omega
  refine ⟨?_, ?_, ?_, ?_⟩
  · rw [String.toList_append, List.mem_append, not_or]
    exact ⟨hstem, hending⟩
  all_goals
    intro h
    rw [h] at hlength
    exact absurd hlength (by decide)

namespace Tree

open PropertyIndex.Path (join holder names IsProper)

variable {tree after : Tree} {directory name : String} {location above : Location}
  {content : Content}

/-- The path of a directory leads to a place, from which it may be continued. -/
def Reaches (tree : Tree) (directory : String) (location : Location) : Prop :=
  Leads tree linkLimit (start directory tree.workingDirectory) (names directory ++ ["."]) location

/-- A way to a directory may be continued. -/
theorem Leads.concat_dot {links : Nat} {steps : List String} {reached : Location}
    (h : Leads tree links location steps reached) (hnode : tree.node? reached = some .directory) :
    Leads tree links location (steps ++ ["."]) reached := by
  induction h with
  | done => exact .stay .done
  | stay _ ih => exact .stay (ih hnode)
  | up _ ih => exact .up (ih hnode)
  | enter hname hthere _ ih => exact .enter hname hthere (ih hnode)
  | arrive _ hdirectory _ => exact absurd hnode hdirectory
  | follow hname hthere _ ih =>
    exact .follow hname hthere (List.append_assoc _ _ _ ▸ ih hnode)

/-- A single dot more makes no difference. -/
theorem Leads.of_concat_dot {links : Nat} {steps : List String} {reached : Location}
    (h : Leads tree links location (steps ++ ["."] ++ ["."]) reached) :
    Leads tree links location (steps ++ ["."]) reached := by
  obtain ⟨fewer, hfewer⟩ := h.exists_walk_append
  rw [leads_iff, ← List.append_nil (steps ++ ["."]), hfewer, walk_nil]

/-- A directory that can be listed is reached. -/
theorem reaches_of_locate (hlocate : tree.locate directory = .ok location)
    (hnode : tree.node? location = some .directory) : tree.Reaches directory location := by
  have hleads := (locate_eq_ok_iff.1 hlocate).2.concat_dot hnode
  rcases Path.steps_cases directory with hsteps | hsteps
  · rwa [hsteps] at hleads
  · rw [hsteps] at hleads
    exact hleads.of_concat_dot

theorem Reaches.keep (h : tree.Reaches directory location) (hkeep : tree.KeepsWays after)
    (hworking : after.workingDirectory = tree.workingDirectory) :
    after.Reaches directory location := by
  rw [Reaches, hworking]
  exact Leads.keep h hkeep

/-- What a name in a directory lies in leads to the place of the directory. -/
theorem Reaches.of_holder (h : tree.Reaches (holder directory) location) :
    tree.Reaches directory location := by
  obtain ⟨dots, hnames, hdots⟩ := Path.exists_names_eq directory
  rw [Reaches, Path.start_holder] at h
  rw [Reaches, hnames, List.append_assoc]
  refine h.append fun links => ?_
  clear hnames
  induction dots with
  | nil => exact .stay .done
  | cons dot dots ih =>
    obtain ⟨rfl, hrest⟩ := List.forall_mem_cons.1 hdots
    exact .stay (ih hrest)

/-- The path of a name in a directory leads to that name below the place of the directory. -/
theorem Reaches.walk_join (h : tree.Reaches directory above) (hname : IsProper name)
    (hlink : ∀ target, tree.node? (name :: above) ≠ some (.link target)) :
    tree.walk linkLimit (start (join directory name) tree.workingDirectory)
      (steps (join directory name)) =
        if 255 < name.utf8ByteSize then .error .nameTooLong else .ok (name :: above) := by
  obtain ⟨fewer, hfewer⟩ := Leads.exists_walk_append h
  rw [Path.start_join _ hname.slash_notMem, Path.steps_join _ hname.slash_notMem hname.ne_empty,
    hfewer]
  split_ifs with hlong
  · exact walk_long hname.ne_dot hname.ne_up hlong
  · rw [walk_name ⟨hname.ne_dot, hname.ne_up, Nat.not_lt.1 hlong⟩]
    split
    · rfl
    · exact walk_nil
    · rfl
    · next target hnode => exact absurd hnode (hlink target)

/-- What is read in a directory depends on what stands there. -/
theorem Reaches.readText_congr (h : tree.Reaches directory above)
    (h' : after.Reaches directory above) (hname : IsProper name)
    (hlink : ∀ target, tree.node? (name :: above) ≠ some (.link target))
    (hnode : after.node? (name :: above) = tree.node? (name :: above)) :
    after.readText (join directory name) = tree.readText (join directory name) := by
  have hlocate : after.locate (join directory name) = tree.locate (join directory name) := by
    rw [locate, locate, h.walk_join hname hlink, h'.walk_join hname (hnode ▸ hlink)]
  rcases hplace : tree.locate (join directory name) with fault | place
  · simp only [readText, hlocate, hplace, bind, Except.bind]
  · have hwalk := (locate_eq_ok_iff.1 hplace).2.walk_eq
    rw [h.walk_join hname hlink] at hwalk
    split_ifs at hwalk
    obtain rfl := Except.ok.inj hwalk
    simp only [readText, hlocate, hplace, bind, Except.bind, hnode]

/-- Whether a file can be put at the place of a name, to which a path leads. -/
def accept (tree : Tree) (path name : String) (above : Location) : Except Fault Unit := do
  checkPath path
  if 255 < name.utf8ByteSize then .error .nameTooLong
  else
    match tree.node? (name :: above) with
    | some .directory => .error .isDirectory
    | _ => .ok ()

theorem getLast?_join_ne_slash (directory : String) (hname : IsProper name) :
    (join directory name).toList.getLast? ≠ some '/' := by
  have hne : name.toList ≠ [] := by simpa using hname.ne_empty
  have hlast : name.toList.getLast? ≠ some '/' := fun h =>
    hname.slash_notMem (List.mem_of_getLast? h)
  rcases Path.join_cases directory hname.slash_notMem with ⟨-, hjoin, -⟩ | ⟨front, -, hjoin, -⟩ |
    ⟨-, hjoin, -⟩
  · rwa [hjoin]
  · rwa [hjoin, List.getLast?_append_of_ne_nil _ (List.cons_ne_nil _ _),
      List.getLast?_cons_of_ne_nil hne]
  · rwa [hjoin, List.getLast?_append_of_ne_nil _ (List.cons_ne_nil _ _),
      List.getLast?_cons_of_ne_nil hne]

/-- Whether something can be written in a directory depends on what stands there. -/
theorem Reaches.writeContent_join (h : tree.Reaches directory above) (hname : IsProper name)
    (hlink : ∀ target, tree.node? (name :: above) ≠ some (.link target)) :
    tree.writeContent (join directory name) content =
      (tree.accept (join directory name) name above).map fun _ =>
        tree.put (name :: above) (.file content) := by
  have hends := beq_eq_false_iff_ne.2 (getLast?_join_ne_slash directory hname)
  rw [writeContent, accept, hends]
  rcases checkPath (join directory name) with fault | ⟨⟩
  · rfl
  · simp only [bind, Except.bind, Bool.false_eq_true, if_false, h.walk_join hname hlink]
    by_cases hlong : 255 < name.utf8ByteSize
    · rw [if_pos hlong, if_pos hlong]
      rfl
    · rw [if_neg hlong, if_neg hlong]
      dsimp only
      rcases hnode : tree.node? (name :: above) with _ | ⟨earlier | _ | target⟩
      · rfl
      · rfl
      · rfl
      · exact absurd hnode (hlink target)

end Tree

end PropertyIndex
