import PropertyIndex.Proofs.LineSpan
import PropertyIndex.Storage.Path
import PropertyIndex.Storage.Tree

/-!
# The parts of paths

A name in a directory is taken apart in two ways.  Following its path goes by the parts that are not
empty, and the path of what it lies in is put together again from parts that mean something.  The
two differ in single dots at most.

* `names`, `steps_cases`: the parts of a path that are followed.
* `partsAbove`, `pieces_join`: the parts in front of a name in a directory.
* `names_join`, `steps_join`, `start_join`: following the path of such a name.
* `holder`, `parent?_join`: the path of what it lies in.
* `exists_names_eq`, `start_holder`: following that path.
-/

namespace PropertyIndex.Path

open Text

variable {directory name : String} {here : Location}

/-! ## The parts that are followed -/

/-- The parts that are not empty. -/
def shown (parts : List (List Char)) : List String :=
  (parts.map String.ofList).filter fun part => part != ""

theorem shown_append (front back : List (List Char)) :
    shown (front ++ back) = shown front ++ shown back := by
  rw [shown, List.map_append, List.filter_append]
  rfl

/-- The parts of a path that are followed. -/
def names (path : String) : List String :=
  shown (pieces '/' path.toList)

/-- The parts that are not empty are followed, and a single dot behind them where a slash stands at
the end. -/
theorem steps_cases (path : String) :
    Tree.steps path = names path ∨ Tree.steps path = names path ++ ["."] := by
  simp only [Tree.steps]
  split_ifs
  · exact Or.inr rfl
  · exact Or.inl rfl

/-- The parts of a directory that stand in front of a name in it. -/
def partsAbove (directory : String) : List (List Char) :=
  if directory.isEmpty then []
  else if directory.toList.getLast? == some '/' then (pieces '/' directory.toList).dropLast
  else pieces '/' directory.toList

/-- The three ways in which a name is put behind a directory. -/
theorem join_cases (directory : String) (hname : '/' ∉ name.toList) :
    (directory = "" ∧ join directory name = name ∧ partsAbove directory = []) ∨
    (∃ front, directory.toList = front ++ ['/'] ∧
      (join directory name).toList = front ++ '/' :: name.toList ∧
      partsAbove directory = pieces '/' front) ∨
    (directory ≠ "" ∧ (join directory name).toList = directory.toList ++ '/' :: name.toList ∧
      partsAbove directory = pieces '/' directory.toList) := by
  have hhead : ¬ (name.toList.head? == some '/') = true := by
    rw [beq_iff_eq]
    exact fun h => hname (List.mem_of_mem_head? h)
  by_cases hempty : directory = ""
  · subst hempty
    exact Or.inl ⟨rfl, by rw [join, if_neg hhead]; simp, rfl⟩
  · by_cases hslash : directory.toList.getLast? = some '/'
    · obtain ⟨front, hfront⟩ := List.getLast?_eq_some_iff.1 hslash
      refine Or.inr (Or.inl ⟨front, hfront, ?_, ?_⟩)
      · rw [join, if_neg hhead, if_pos (by simp [hslash]), String.toList_append, hfront,
          List.append_assoc]
        rfl
      · rw [partsAbove, if_neg (by simp [hempty]), if_pos (by simp [hslash]), hfront,
          pieces_append_separator]
        exact List.dropLast_concat
    · refine Or.inr (Or.inr ⟨hempty, ?_, ?_⟩)
      · rw [join, if_neg hhead, if_neg (by simp [hslash, hempty]), String.toList_append,
          String.toList_append, List.append_assoc]
        rfl
      · rw [partsAbove, if_neg (by simp [hempty]), if_neg (by simp [hslash])]

theorem pieces_join (directory : String) (hname : '/' ∉ name.toList) :
    pieces '/' (join directory name).toList = partsAbove directory ++ [name.toList] := by
  rcases join_cases directory hname with ⟨-, hjoin, hparts⟩ | ⟨front, -, hjoin, hparts⟩ |
    ⟨-, hjoin, hparts⟩
  · rw [hjoin, hparts, pieces_of_notMem hname, List.nil_append]
  · rw [hjoin, hparts, pieces_append_separator, pieces_of_notMem hname]
  · rw [hjoin, hparts, pieces_append_separator, pieces_of_notMem hname]

/-! ## A name in a directory -/

theorem names_eq_shown_partsAbove (directory : String) :
    names directory = shown (partsAbove directory) := by
  have hslash : '/' ∉ "".toList := List.not_mem_nil
  rcases join_cases directory hslash with ⟨rfl, -, hparts⟩ | ⟨front, hfront, -, hparts⟩ |
    ⟨-, -, hparts⟩
  · rw [hparts]
    rfl
  · rw [names, hfront, hparts, pieces_append_separator, shown_append]
    exact List.append_nil _
  · rw [names, hparts]

section Join

variable (directory) (hname : '/' ∉ name.toList)

include hname

theorem names_join (hne : name ≠ "") :
    names (join directory name) = names directory ++ [name] := by
  rw [names, pieces_join directory hname, shown_append, ← names_eq_shown_partsAbove]
  simp [shown, hne]

/-- The path of a name goes through the parts of the directory. -/
theorem steps_join (hne : name ≠ "") :
    Tree.steps (join directory name) = names directory ++ [name] := by
  have hlast : ((pieces '/' (join directory name).toList).map String.ofList).getLast? =
      some name := by
    rw [pieces_join directory hname, List.map_append, List.map_singleton, List.getLast?_concat,
      String.ofList_toList]
  rw [← names_join directory hname hne]
  simp only [Tree.steps, hlast, Option.some_beq_some, beq_eq_false_iff_ne.2 hne, Bool.false_and]
  exact if_neg Bool.false_ne_true

theorem start_join : Tree.start (join directory name) here = Tree.start directory here := by
  rw [Tree.start, Tree.start]
  rcases join_cases directory hname with ⟨rfl, hjoin, -⟩ | ⟨front, hfront, hjoin, -⟩ |
    ⟨hdirectory, hjoin, -⟩
  · have hhead : ¬ (name.toList.head? == some '/') = true := by
      rw [beq_iff_eq]
      exact fun h => hname (List.mem_of_mem_head? h)
    rw [hjoin, if_neg hhead]
    rfl
  · rw [hjoin, hfront, List.head?_append, List.head?_append]
    rfl
  · rw [hjoin, List.head?_append_of_ne_nil _ (by simpa using hdirectory)]

end Join

/-- A path is followed from the root when the first part of it is empty. -/
theorem head?_eq_slash_iff (directory : String) :
    directory.toList.head? = some '/' ↔ (partsAbove directory).head? = some [] := by
  have hslash : '/' ∉ "".toList := List.not_mem_nil
  rcases join_cases directory hslash with ⟨rfl, -, hparts⟩ | ⟨front, hfront, -, hparts⟩ |
    ⟨hdirectory, -, hparts⟩
  · rw [hparts]
    exact iff_of_false nofun nofun
  · rw [hparts, head?_pieces_eq_some_nil_iff, hfront, List.head?_append]
    cases front with
    | nil => exact iff_of_true rfl (Or.inl rfl)
    | cons c front => simp
  · rw [hparts, head?_pieces_eq_some_nil_iff, or_iff_right (by simpa using hdirectory)]

theorem slash_notMem_partsAbove {directory : String} {part : List Char}
    (h : part ∈ partsAbove directory) : '/' ∉ part := by
  have hslash : '/' ∉ "".toList := List.not_mem_nil
  rcases join_cases directory hslash with ⟨-, -, hparts⟩ | ⟨front, -, -, hparts⟩ | ⟨-, -, hparts⟩
  · rw [hparts] at h
    exact absurd h List.not_mem_nil
  · rw [hparts] at h
    exact separator_notMem h
  · rw [hparts] at h
    exact separator_notMem h

/-! ## What a name lies in -/

/-- The path of a directory, as it is found from that of a name in it. -/
def holder (directory : String) : String :=
  match significant (partsAbove directory).reverse with
  | [] => ""
  | [[]] => "/"
  | parts => joinWith "/" (parts.reverse.map String.ofList)

/-- Only parts that mean nothing are left out, and never the first one. -/
theorem exists_significant (parts : List (List Char)) :
    ∃ dropped, parts = dropped ++ significant parts ∧
      (∀ part ∈ dropped, part = [] ∨ part = ['.']) ∧
      (significant parts).getLast? = parts.getLast? := by
  fun_induction significant parts with
  | case1 => exact ⟨[], rfl, nofun, rfl⟩
  | case2 first => exact ⟨[], rfl, nofun, rfl⟩
  | case3 part parts hparts hmeans ih =>
    obtain ⟨dropped, heq, hdropped, hlast⟩ := ih
    refine ⟨part :: dropped, by rw [List.cons_append, ← heq], ?_, ?_⟩
    · rw [List.forall_mem_cons]
      exact ⟨by simpa using hmeans, hdropped⟩
    · rw [hlast, List.getLast?_cons_of_ne_nil hparts]
  | case4 part parts hparts hmeans => exact ⟨[], rfl, nofun, rfl⟩

theorem significant_ne_nil {parts : List (List Char)} (h : parts ≠ []) :
    significant parts ≠ [] := by
  obtain ⟨dropped, -, -, hlast⟩ := exists_significant parts
  intro hnil
  rw [hnil, eq_comm] at hlast
  exact h (List.getLast?_eq_none_iff.1 hlast)

theorem significant_cons {part : List Char} (hempty : part ≠ []) (hdot : part ≠ ['.'])
    (parts : List (List Char)) : significant (part :: parts) = part :: parts := by
  cases parts with
  | nil => rfl
  | cons next parts => exact if_neg (by simp [hempty, hdot])

/-- A name in a directory lies in the same path whatever it is. -/
theorem parent?_join (directory : String) (hname : '/' ∉ name.toList) (hne : name ≠ "")
    (hdot : name ≠ ".") : parent? (join directory name) = some (holder directory) := by
  have hempty : name.toList ≠ [] := by simpa using hne
  have hdot' : name.toList ≠ ['.'] := fun h => hdot (String.toList_inj.1 h)
  rw [parent?, partsFromEnd, pieces_join directory hname, List.reverse_concat,
    significant_cons hempty hdot', holder]
  rcases (partsAbove directory).reverse with _ | ⟨part, parts⟩
  · exact if_neg (by simpa using hempty)
  · have hparts := significant_ne_nil (List.cons_ne_nil part parts)
    dsimp only
    split
    · next hroot => rw [hroot]
    · next hroot =>
      split
      · next hnil => exact absurd hnil hparts
      · next hroot' => exact absurd hroot' hroot
      · rfl

/-- The path that a name lies in is empty, is the root, or has the parts that mean something. -/
theorem holder_cases (directory : String) :
    (partsAbove directory = [] ∧ holder directory = "") ∨
    (significant (partsAbove directory).reverse = [[]] ∧ holder directory = "/") ∨
    (significant (partsAbove directory).reverse ≠ [[]] ∧
      pieces '/' (holder directory).toList =
        (significant (partsAbove directory).reverse).reverse) := by
  rw [holder]
  split
  · next hnil =>
    refine Or.inl ⟨?_, rfl⟩
    by_contra hne
    exact significant_ne_nil (by simpa using hne) hnil
  · next hroot => exact Or.inr (Or.inl ⟨hroot, rfl⟩)
  · next hnil hroot =>
    refine Or.inr (Or.inr ⟨hroot, ?_⟩)
    obtain ⟨dropped, heq, -, -⟩ := exists_significant (partsAbove directory).reverse
    have hslash : ∀ part ∈ (significant (partsAbove directory).reverse).reverse, '/' ∉ part := by
      intro part hpart
      have hmem : part ∈ partsAbove directory := by
        rw [← List.mem_reverse, heq]
        exact List.mem_append_right _ (List.mem_reverse.1 hpart)
      exact slash_notMem_partsAbove hmem
    have hjoin : (joinWith "/" ((significant (partsAbove directory).reverse).reverse.map
        String.ofList)).toList =
          ['/'].intercalate (significant (partsAbove directory).reverse).reverse := by
      rw [joinWith, String.toList_intercalate, List.map_map]
      simp
    rw [hjoin, pieces_intercalate (by simpa using hnil) hslash]

/-- Following the two differs in single dots at most. -/
theorem exists_names_eq (directory : String) :
    ∃ dots, names directory = names (holder directory) ++ dots ∧ ∀ dot ∈ dots, dot = "." := by
  obtain ⟨dropped, heq, hdropped, -⟩ := exists_significant (partsAbove directory).reverse
  have hparts : partsAbove directory =
      (significant (partsAbove directory).reverse).reverse ++ dropped.reverse := by
    rw [← List.reverse_append, ← heq, List.reverse_reverse]
  have hholder : names (holder directory) =
      shown (significant (partsAbove directory).reverse).reverse := by
    rcases holder_cases directory with ⟨hnil, hholder⟩ | ⟨hroot, hholder⟩ | ⟨-, hholder⟩
    · rw [hholder, hnil]
      rfl
    · rw [hholder, hroot]
      rfl
    · rw [names, hholder]
  refine ⟨shown dropped.reverse, ?_, ?_⟩
  · rw [hholder, ← shown_append, ← hparts, names_eq_shown_partsAbove]
  · intro dot hdot
    obtain ⟨hmem, hne⟩ := List.mem_filter.1 hdot
    obtain ⟨part, hpart, rfl⟩ := List.mem_map.1 hmem
    rcases hdropped part (List.mem_reverse.1 hpart) with rfl | rfl
    · exact absurd hne (by decide)
    · rfl

theorem start_holder (directory : String) (here : Location) :
    Tree.start (holder directory) here = Tree.start directory here := by
  obtain ⟨-, -, -, hlast⟩ := exists_significant (partsAbove directory).reverse
  rw [List.getLast?_reverse] at hlast
  have hhead : (holder directory).toList.head? = some '/' ↔ directory.toList.head? = some '/' := by
    rw [head?_eq_slash_iff directory, ← hlast]
    rcases holder_cases directory with ⟨hnil, hholder⟩ | ⟨hroot, hholder⟩ | ⟨hroot, hholder⟩
    · rw [hholder, hnil]
      exact iff_of_false nofun nofun
    · rw [hholder, hroot]
      exact iff_of_true rfl rfl
    · have hempty : (holder directory).toList ≠ [] := by
        intro hempty
        rw [hempty, eq_comm] at hholder
        exact hroot (List.reverse_eq_iff.1 hholder)
      rw [← List.head?_reverse, ← hholder, head?_pieces_eq_some_nil_iff, or_iff_right hempty]
  rw [Tree.start, Tree.start]
  exact if_congr (beq_iff_eq.trans (hhead.trans beq_iff_eq.symm)) rfl rfl

end PropertyIndex.Path
