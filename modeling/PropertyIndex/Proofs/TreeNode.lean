import Mathlib.Data.List.Nodup
import PropertyIndex.Storage.Tree

/-!
# What stands where in a tree

* `node?_eq_some_iff`: the nodes of a tree by their places.
* `node?_put_self`, `node?_put_of_ne`, `put_eq_self`: the tree with something else at one place.
* `isFile_mem_entriesAt`: the regular files that a directory lists.
-/

namespace PropertyIndex.Tree

variable {tree : Tree} {location place : Location} {node : Node}

theorem node?_eq_some_iff (h : place ≠ []) :
    tree.node? place = some node ↔ (place, node) ∈ tree.nodes := by
  rw [node?, if_neg (by simpa using h), lookup_eq_some_iff_mem tree.distinct]

theorem node?_put_self (h : location ≠ []) :
    (tree.put location node).node? location = some node := by
  rw [node?, if_neg (by simpa using h), put, lookup_putByKey, if_pos BEq.rfl]

theorem node?_put_of_ne (h : place ≠ location) :
    (tree.put location node).node? place = tree.node? place := by
  have hkey : ¬(location == place) = true := by simpa using h.symm
  rw [node?, node?, put, lookup_putByKey, if_neg hkey]

/-- Nothing changes where a node is put into its own place. -/
theorem put_eq_self (hne : location ≠ []) (h : tree.node? location = some node) :
    tree.put location node = tree := by
  have hmem := (node?_eq_some_iff hne).1 h
  simp only [put, putByKey_of_mem tree.distinct hmem]

/-- A directory lists the files that stand directly in it as regular files. -/
theorem isFile_mem_entriesAt {name : String} : ⟨name, true⟩ ∈ tree.entriesAt location ↔
    ∃ content, tree.node? (name :: location) = some (.file content) := by
  rw [entriesAt, List.mem_filterMap]
  constructor
  · rintro ⟨⟨_ | ⟨first, above⟩, node⟩, hmem, hentry⟩
    · exact absurd hentry nofun
    · simp only at hentry
      split_ifs at hentry with habove
      obtain ⟨rfl, hfile⟩ := Entry.mk.inj (Option.some_inj.1 hentry)
      obtain rfl : above = location := by simpa using habove
      cases node with
      | file content => exact ⟨content, (node?_eq_some_iff (List.cons_ne_nil _ _)).2 hmem⟩
      | directory => exact absurd hfile nofun
      | link target => exact absurd hfile nofun
  · rintro ⟨content, hnode⟩
    exact ⟨_, (node?_eq_some_iff (List.cons_ne_nil _ _)).1 hnode, by simp⟩

end PropertyIndex.Tree
