import Mathlib.Data.List.Sort
import Mathlib.Data.String.Basic
import PropertyIndex.Batch.Discovery
import PropertyIndex.Proofs.Run
import PropertyIndex.Proofs.TreeNode

/-!
# The pairs in a directory

What is found in a directory follows from which of its entries are contracts or specs, whatever the
order in which they are listed.

* `splitName_eq_iff`: the two halves of a file name.
* `mem_stemsOf`, `filePath?_eq_some_iff`: the names of files, and where a file of a name is.
* `mem_pairs_iff`, `mem_unpaired_iff`: who is found, with `pairwise_pairs` and `pairwise_unpaired`
  for the order.
* `ofEntries_congr`: what is found depends on the contracts and specs alone.
* `discover_run`: what is found is told by the entries that a directory lists.
* `Findings.IsPartition`, `discover_isPartition`: what is found in a directory of a tree.
-/

namespace PropertyIndex

open Text

/-! ## File names -/

namespace Path

variable {name stem extension : String}

theorem splitName_of_notMem (h : '.' ∉ name.toList) : splitName name = (name, none) := by
  have hafter : name.toList.reverse.takeWhile (fun c => c != '.') = name.toList.reverse := by
    rw [List.takeWhile_eq_self_iff]
    intro c hc
    rw [bne_iff_ne]
    rintro rfl
    exact h (List.mem_reverse.1 hc)
  rw [splitName, hafter, List.reverse_reverse, Nat.sub_self, List.take_zero]
  rfl

/-- A name is cut at its last dot, unless nothing is in front of it. -/
theorem splitName_append (h : '.' ∉ extension.toList) : splitName (stem ++ "." ++ extension) =
    if stem = "" then (stem ++ "." ++ extension, none) else (stem, some extension) := by
  have hchars : (stem ++ "." ++ extension).toList = stem.toList ++ '.' :: extension.toList := by
    rw [String.toList_append, String.toList_append, List.append_assoc]
    rfl
  have hafter : (stem ++ "." ++ extension).toList.reverse.takeWhile (fun c => c != '.') =
      extension.toList.reverse := by
    rw [hchars, List.reverse_append, List.reverse_cons, List.append_assoc]
    refine takeWhile_run (fun c hc => ?_) rfl
    rw [bne_iff_ne]
    rintro rfl
    exact h (List.mem_reverse.1 hc)
  have hbefore : (stem.toList ++ '.' :: extension.toList).take
      ((stem.toList ++ '.' :: extension.toList).length - extension.toList.length) =
        stem.toList ++ ['.'] := by
    rw [List.append_cons, List.length_append, Nat.add_sub_cancel, List.take_left]
  rw [splitName, hafter, List.reverse_reverse, hchars, hbefore, List.dropLast_concat]
  simp

/-- A name has an ending when it has a dot that is not its first character.  The ending is what
follows the last dot. -/
theorem splitName_eq_iff : splitName name = (stem, some extension) ↔
    stem ≠ "" ∧ '.' ∉ extension.toList ∧ name = stem ++ "." ++ extension := by
  constructor
  · intro h
    by_cases hdot : '.' ∈ name.toList
    · obtain ⟨after, before, hreverse, hafter⟩ :=
        List.eq_append_cons_of_mem (List.mem_reverse.2 hdot)
      have hname : name = String.ofList before.reverse ++ "." ++ String.ofList after.reverse := by
        rw [← String.toList_inj, ← List.reverse_inj, hreverse]
        simp
      have hdot' : '.' ∉ (String.ofList after.reverse).toList := by
        rwa [String.toList_ofList, List.mem_reverse]
      rw [hname, splitName_append hdot'] at h
      split_ifs at h with hstem
      · exact absurd (Prod.mk.inj h).2 nofun
      · obtain ⟨rfl, hextension⟩ := Prod.mk.inj h
        obtain rfl := Option.some_inj.1 hextension
        exact ⟨hstem, hdot', hname⟩
    · rw [splitName_of_notMem hdot] at h
      exact absurd (Prod.mk.inj h).2 nofun
  · rintro ⟨hstem, hdot, rfl⟩
    rw [splitName_append hdot, if_neg hstem]

end Path

/-! ## What is found -/

section Found

variable {directory stem extension path : String} {names others : List String}

theorem mem_fileNames {name : String} {entries : List Entry} :
    name ∈ fileNames entries ↔ ⟨name, true⟩ ∈ entries := by
  rw [fileNames, List.mem_map]
  constructor
  · rintro ⟨⟨_, isFile⟩, hmem, rfl⟩
    obtain ⟨hentry, rfl : isFile = true⟩ := List.mem_filter.1 hmem
    exact hentry
  · exact fun h => ⟨_, List.mem_filter.2 ⟨h, rfl⟩, rfl⟩

/-- The file with a name and an ending is among those that are listed.  Without a name in front of
it, a dot does not begin an ending. -/
def Lists (names : List String) (stem extension : String) : Prop :=
  stem ≠ "" ∧ stem ++ "." ++ extension ∈ names

theorem mem_stemsOf_of_lists (hextension : '.' ∉ extension.toList)
    (h : Lists names stem extension) : stem ∈ (stemsOf names).toList := by
  have hsplit : Path.splitName (stem ++ "." ++ extension) = (stem, some extension) :=
    Path.splitName_eq_iff.2 ⟨h.1, hextension, rfl⟩
  rw [stemsOf, NameSet.mem_ofList, List.mem_map]
  refine ⟨_, List.mem_filter.2 ⟨h.2, ?_⟩, ?_⟩
  · rw [hsplit]
    rfl
  · rw [hsplit]

/-- A file with a name and an ending is found where it is, if it is there. -/
theorem filePath?_eq_some_iff (hextension : '.' ∉ extension.toList) :
    filePath? directory names stem extension = some path ↔
      Lists names stem extension ∧ path = Path.join directory (stem ++ "." ++ extension) := by
  have hsplit (name : String) : (Path.splitName name == (stem, some extension)) = true ↔
      stem ≠ "" ∧ name = stem ++ "." ++ extension := by
    rw [beq_iff_eq, Path.splitName_eq_iff]
    exact ⟨fun h => ⟨h.1, h.2.2⟩, fun h => ⟨h.1, hextension, h.2⟩⟩
  rw [filePath?, Option.map_eq_some_iff]
  constructor
  · rintro ⟨name, hname, rfl⟩
    have hfound := List.find?_some hname
    obtain ⟨hstem, rfl⟩ := (hsplit name).1 hfound
    exact ⟨⟨hstem, List.mem_of_find?_eq_some hname⟩, rfl⟩
  · rintro ⟨⟨hstem, hmem⟩, rfl⟩
    rcases hname : names.find? fun name => Path.splitName name == (stem, some extension) with
      _ | name
    · exact absurd ((hsplit _).2 ⟨hstem, rfl⟩) (List.find?_eq_none.1 hname _ hmem)
    · have hfound := List.find?_some hname
      exact ⟨name, rfl, by rw [((hsplit name).1 hfound).2]⟩

theorem filePath?_eq_none_iff (directory : String) (hextension : '.' ∉ extension.toList) :
    filePath? directory names stem extension = none ↔ ¬Lists names stem extension := by
  rw [Option.eq_none_iff_forall_ne_some]
  constructor
  · exact fun h hfile => h _ ((filePath?_eq_some_iff hextension).2 ⟨hfile, rfl⟩)
  · exact fun h path hpath => h ((filePath?_eq_some_iff hextension).1 hpath).1

theorem dot_notMem_contractExtension : '.' ∉ contractExtension.toList := by decide

theorem dot_notMem_specExtension : '.' ∉ specExtension.toList := by decide

end Found

namespace Findings

variable {directory : String} {entries others : List Entry}

theorem mem_pairs_iff {pair : FilePair} : pair ∈ (ofEntries directory entries).pairs ↔
    Lists (fileNames entries) pair.name contractExtension ∧
      Lists (fileNames entries) pair.name specExtension ∧
      pair.contract = Path.join directory (pair.name ++ "." ++ contractExtension) ∧
      pair.spec = Path.join directory (pair.name ++ "." ++ specExtension) := by
  have hpair (stem : String) : pairOf? directory (fileNames entries) stem = some pair ↔
      ∃ contract spec,
        filePath? directory (fileNames entries) stem contractExtension = some contract ∧
        filePath? directory (fileNames entries) stem specExtension = some spec ∧
        ⟨stem, contract, spec⟩ = pair := by
    simp only [pairOf?, bind, Option.bind_eq_some_iff, pure, Option.some_inj, exists_and_left]
  simp only [ofEntries, List.mem_filterMap, hpair,
    filePath?_eq_some_iff dot_notMem_contractExtension,
    filePath?_eq_some_iff dot_notMem_specExtension]
  constructor
  · rintro ⟨stem, -, contract, spec, ⟨hcontract, rfl⟩, ⟨hspec, rfl⟩, rfl⟩
    exact ⟨hcontract, hspec, rfl, rfl⟩
  · rintro ⟨hcontract, hspec, hpath, hpath'⟩
    exact ⟨pair.name, mem_stemsOf_of_lists dot_notMem_contractExtension hcontract, _, _,
      ⟨hcontract, hpath⟩, ⟨hspec, hpath'⟩, rfl⟩

theorem mem_unpaired_iff {unpaired : Unpaired} :
    unpaired ∈ (ofEntries directory entries).unpaired ↔
      (Lists (fileNames entries) unpaired.name contractExtension ∧
        ¬Lists (fileNames entries) unpaired.name specExtension ∧
        unpaired.missing = "." ++ specExtension) ∨
      (¬Lists (fileNames entries) unpaired.name contractExtension ∧
        Lists (fileNames entries) unpaired.name specExtension ∧
        unpaired.missing = "." ++ contractExtension) := by
  have hunpaired (stem : String) : unpairedOf? directory (fileNames entries) stem = some unpaired ↔
      (Lists (fileNames entries) stem contractExtension ∧
        ¬Lists (fileNames entries) stem specExtension ∧ ⟨stem, "." ++ specExtension⟩ = unpaired) ∨
      (¬Lists (fileNames entries) stem contractExtension ∧
        Lists (fileNames entries) stem specExtension ∧
        ⟨stem, "." ++ contractExtension⟩ = unpaired) := by
    rw [← filePath?_eq_none_iff directory dot_notMem_contractExtension,
      ← filePath?_eq_none_iff directory dot_notMem_specExtension]
    have hhas (extension : String) (hdot : '.' ∉ extension.toList) :
        Lists (fileNames entries) stem extension ↔
          ¬filePath? directory (fileNames entries) stem extension = none := by
      rw [filePath?_eq_none_iff directory hdot, not_not]
    rw [hhas _ dot_notMem_contractExtension, hhas _ dot_notMem_specExtension, unpairedOf?]
    rcases filePath? directory (fileNames entries) stem contractExtension with _ | contract <;>
      rcases filePath? directory (fileNames entries) stem specExtension with _ | spec <;> simp
  simp only [ofEntries, List.mem_filterMap, hunpaired]
  constructor
  · rintro ⟨stem, -, ⟨hcontract, hspec, rfl⟩ | ⟨hcontract, hspec, rfl⟩⟩
    · exact Or.inl ⟨hcontract, hspec, rfl⟩
    · exact Or.inr ⟨hcontract, hspec, rfl⟩
  · rintro (⟨hcontract, hspec, hmissing⟩ | ⟨hcontract, hspec, hmissing⟩)
    · exact ⟨unpaired.name, mem_stemsOf_of_lists dot_notMem_contractExtension hcontract,
        Or.inl ⟨hcontract, hspec, congrArg _ hmissing.symm⟩⟩
    · exact ⟨unpaired.name, mem_stemsOf_of_lists dot_notMem_specExtension hspec,
        Or.inr ⟨hcontract, hspec, congrArg _ hmissing.symm⟩⟩

/-- What is found for ascending names comes in the order of the names. -/
theorem pairwise_filterMap {α : Type} {find? : String → Option α} {name : α → String}
    (hname : ∀ stem x, find? stem = some x → name x = stem) (stems : NameSet) :
    (stems.toList.filterMap find?).Pairwise fun a b => name a < name b := by
  rw [List.pairwise_filterMap]
  refine stems.ascending.imp fun hlt a ha b hb => ?_
  rw [hname _ a ha, hname _ b hb]
  exact hlt

theorem pairwise_pairs (directory : String) (entries : List Entry) :
    (ofEntries directory entries).pairs.Pairwise fun a b => a.name < b.name := by
  refine pairwise_filterMap (fun stem pair hpair => ?_) _
  simp only [pairOf?, bind, Option.bind_eq_some_iff, pure, Option.some_inj] at hpair
  obtain ⟨contract, -, spec, -, rfl⟩ := hpair
  rfl

theorem pairwise_unpaired (directory : String) (entries : List Entry) :
    (ofEntries directory entries).unpaired.Pairwise fun a b => a.name < b.name := by
  refine pairwise_filterMap (fun stem unpaired hunpaired => ?_) _
  rw [unpairedOf?] at hunpaired
  split at hunpaired
  · obtain rfl := Option.some_inj.1 hunpaired
    rfl
  · obtain rfl := Option.some_inj.1 hunpaired
    rfl
  · exact absurd hunpaired nofun

/-- What is found depends on the contracts and the specs among the entries alone. -/
theorem ofEntries_congr
    (h : ∀ stem extension, extension = contractExtension ∨ extension = specExtension →
      (Lists (fileNames entries) stem extension ↔ Lists (fileNames others) stem extension)) :
    ofEntries directory entries = ofEntries directory others := by
  have hirrefl (α : Type) (name : α → String) : Std.Irrefl fun a b => name a < name b :=
    ⟨fun _ => String.lt_irrefl _⟩
  have hcontract (stem : String) := h stem contractExtension (Or.inl rfl)
  have hspec (stem : String) := h stem specExtension (Or.inr rfl)
  have hpairs : (ofEntries directory entries).pairs = (ofEntries directory others).pairs := by
    have := hirrefl _ FilePair.name
    refine (pairwise_pairs directory entries).eq_of_mem_iff (pairwise_pairs directory others) ?_
    intro pair
    rw [mem_pairs_iff, mem_pairs_iff, hcontract, hspec]
  have hunpaired : (ofEntries directory entries).unpaired =
      (ofEntries directory others).unpaired := by
    have := hirrefl _ Unpaired.name
    refine (pairwise_unpaired directory entries).eq_of_mem_iff (pairwise_unpaired directory others)
      ?_
    intro unpaired
    rw [mem_unpaired_iff, mem_unpaired_iff, hcontract, hspec]
  exact congrArg₂ Findings.mk hpairs hunpaired

end Findings

/-! ## Directories of a tree -/

/-- A regular file with a name and an ending stands directly at a place of a tree.  Without a name
in front of it, a dot does not begin an ending. -/
def Tree.HasFile (tree : Tree) (location : Location) (stem extension : String) : Prop :=
  stem ≠ "" ∧ ∃ content,
    tree.node? ((stem ++ "." ++ extension) :: location) = some (.file content)

/-- Every name with a contract or a spec in a directory is found once: as a pair when both are
there, and as an unpaired name otherwise. -/
structure Findings.IsPartition (findings : Findings) (tree : Tree) (directory : String)
    (location : Location) : Prop where
  mem_pairs : ∀ pair, pair ∈ findings.pairs ↔
    tree.HasFile location pair.name "sol" ∧ tree.HasFile location pair.name "spec" ∧
      pair.contract = Path.join directory (pair.name ++ ".sol") ∧
      pair.spec = Path.join directory (pair.name ++ ".spec")
  mem_unpaired : ∀ unpaired, unpaired ∈ findings.unpaired ↔
    (tree.HasFile location unpaired.name "sol" ∧ ¬tree.HasFile location unpaired.name "spec" ∧
      unpaired.missing = ".spec") ∨
    (¬tree.HasFile location unpaired.name "sol" ∧ tree.HasFile location unpaired.name "spec" ∧
      unpaired.missing = ".sol")
  pairs_ascending : findings.pairs.Pairwise fun a b => a.name < b.name
  unpaired_ascending : findings.unpaired.Pairwise fun a b => a.name < b.name

namespace Tree

variable {tree : Tree} {directory : String} {location : Location} {entries : List Entry}

theorem lists_iff_hasFile (h : entries.Perm (tree.entriesAt location)) (stem extension : String) :
    Lists (fileNames entries) stem extension ↔ tree.HasFile location stem extension := by
  rw [Lists, mem_fileNames, h.mem_iff, isFile_mem_entriesAt]
  rfl

theorem isPartition_ofEntries (h : entries.Perm (tree.entriesAt location)) :
    (Findings.ofEntries directory entries).IsPartition tree directory location where
  mem_pairs pair := by
    rw [Findings.mem_pairs_iff, lists_iff_hasFile h, lists_iff_hasFile h, String.append_assoc,
      String.append_assoc]
    rfl
  mem_unpaired unpaired := by
    rw [Findings.mem_unpaired_iff, lists_iff_hasFile h, lists_iff_hasFile h]
    rfl
  pairs_ascending := Findings.pairwise_pairs directory entries
  unpaired_ascending := Findings.pairwise_unpaired directory entries

theorem list_of_locate (hlocate : tree.locate directory = .ok location)
    (hdirectory : tree.node? location = some .directory) :
    tree.list directory = .ok (tree.entriesAt location) := by
  simp only [list, hlocate, bind, Except.bind, hdirectory]

end Tree

/-- What is found is told by the entries that a directory lists. -/
theorem discover_run {tree : Tree} {directory : String} {entries : List Entry}
    (hlist : tree.list directory = .ok entries) (notes : List Note) :
    ((discover directory : Noting (StateM Tree) Findings).run notes).run tree =
      ((Findings.ofEntries directory entries,
        notes ++ (Findings.ofEntries directory entries).unpaired.map Unpaired.note), tree) := by
  have hrun : (Storage.list directory : StateM Tree (Except Fault (List Entry))).run tree =
      (.ok entries, tree) := congrArg (Prod.mk · tree) hlist
  rw [discover, StateT.run_bind, StateT.run_lift, StateT.run_bind, StateT.run_bind, hrun]
  rfl

/-- In a directory of a tree, every name that has a contract or a spec is found, and nothing else
is.  The order in which the directory lists its entries makes no difference. -/
theorem discover_isPartition (tree : Tree) (directory : String) (location : Location)
    (hlocate : tree.locate directory = .ok location)
    (hdirectory : tree.node? location = some .directory) :
    ∃ findings : Findings,
      (∀ notes, ((discover directory : Noting (StateM Tree) Findings).run notes).run tree =
        ((findings, notes ++ findings.unpaired.map Unpaired.note), tree)) ∧
      (∀ entries : List Entry, entries.Perm (tree.entriesAt location) →
        Findings.ofEntries directory entries = findings) ∧
      findings.IsPartition tree directory location := by
  refine ⟨Findings.ofEntries directory (tree.entriesAt location), fun notes => ?_,
    fun entries hperm => Findings.ofEntries_congr fun stem extension _ => ?_,
    Tree.isPartition_ofEntries (List.Perm.refl _)⟩
  · exact discover_run (Tree.list_of_locate hlocate hdirectory) notes
  · rw [Tree.lists_iff_hasFile hperm, Tree.lists_iff_hasFile (List.Perm.refl _)]

/-- A directory with a pair, two unpaired names, and entries of all kinds that do not count. -/
def mixedFiles : Tree :=
  [(["in", "work"], Tree.Node.directory), (["Token.spec", "in", "work"], .file (.text "")),
    (["b.v2.spec", "in", "work"], .file (.text "")), (["Token.sol", "in", "work"], .file .binary),
    ([".sol", "in", "work"], .file (.text "")), (["a.sol", "in", "work"], .file (.text "")),
    (["a.spec", "in", "work"], .directory), (["b.v2.sol", "in", "work"], .link "Token.sol"),
    (["a.spec", "a.spec", "in", "work"], .file (.text "")),
    (["Token.json", "in", "work"], .file (.text ""))].foldl
      (fun tree (location, node) => tree.put location node) Tree.empty

theorem discover_isPartition_mixedFiles :
    mixedFiles.locate "in" = .ok ["in", "work"] ∧
      mixedFiles.node? ["in", "work"] = some .directory ∧
      ∃ findings : Findings, findings.pairs = [⟨"Token", "in/Token.sol", "in/Token.spec"⟩] ∧
        findings.unpaired = [⟨"a", ".spec"⟩, ⟨"b.v2", ".sol"⟩] ∧
        findings.IsPartition mixedFiles "in" ["in", "work"] := by
  have hlocate : mixedFiles.locate "in" = .ok ["in", "work"] := by decide +kernel
  have hdirectory : mixedFiles.node? ["in", "work"] = some .directory := by decide +kernel
  obtain ⟨findings, -, horder, hpartition⟩ :=
    discover_isPartition mixedFiles "in" ["in", "work"] hlocate hdirectory
  have hfound := horder _ (List.Perm.refl _)
  refine ⟨hlocate, hdirectory, findings, ?_, ?_, hpartition⟩
  · rw [← hfound]
    decide +kernel
  · rw [← hfound]
    decide +kernel

end PropertyIndex
