/-!
# Sets of names

A finite set of names, held as the list of its members in strictly ascending order of code
points.  Two sets with the same members are therefore equal.

* `NameSet.insert`, `NameSet.ofList`: building a set.
* `NameSet.mem_insert`, `NameSet.mem_ofList`: the members of what was built.
-/

namespace PropertyIndex.Text

/-- A name put into its place in an ascending list, unless it is there already. -/
def insertName (name : String) : List String → List String
  | [] => [name]
  | other :: names =>
    if name < other then name :: other :: names
    else if name = other then other :: names
    else other :: insertName name names

theorem mem_insertName {name x : String} {names : List String} :
    x ∈ insertName name names ↔ x = name ∨ x ∈ names := by
  induction names with
  | nil => simp [insertName]
  | cons other names ih =>
    unfold insertName
    split
    · simp
    · split
      · next h => subst h; simp
      · simp only [List.mem_cons, ih]
        grind

theorem pairwise_insertName (name : String) {names : List String}
    (h : names.Pairwise (· < ·)) : (insertName name names).Pairwise (· < ·) := by
  induction names with
  | nil => simp [insertName]
  | cons other names ih =>
    rw [List.pairwise_cons] at h
    unfold insertName
    split
    · next hlt =>
      refine List.pairwise_cons.2 ⟨fun x hx => ?_, List.pairwise_cons.2 h⟩
      rcases List.mem_cons.1 hx with rfl | hx
      · exact hlt
      · exact String.lt_trans hlt (h.1 x hx)
    · split
      · exact List.pairwise_cons.2 h
      · refine List.pairwise_cons.2 ⟨fun x hx => ?_, ih h.2⟩
        rcases mem_insertName.1 hx with rfl | hx
        · grind
        · exact h.1 x hx

/-- A finite set of names. -/
structure NameSet where
  /-- The members in ascending order. -/
  toList : List String
  ascending : toList.Pairwise (· < ·)

namespace NameSet

/-- The set without members. -/
def empty : NameSet :=
  ⟨[], List.Pairwise.nil⟩

/-- A set with one more name. -/
def insert (set : NameSet) (name : String) : NameSet :=
  ⟨insertName name set.toList, pairwise_insertName name set.ascending⟩

/-- The set of the names of a list. -/
def ofList (names : List String) : NameSet :=
  names.foldl insert empty

/-- Whether a name is a member. -/
def contains (set : NameSet) (name : String) : Bool :=
  set.toList.contains name

/-- The number of members. -/
def size (set : NameSet) : Nat :=
  set.toList.length

/-- Whether there is no member. -/
def isEmpty (set : NameSet) : Bool :=
  set.toList.isEmpty

theorem mem_insert {set : NameSet} {name x : String} :
    x ∈ (set.insert name).toList ↔ x = name ∨ x ∈ set.toList :=
  mem_insertName

theorem mem_foldl_insert {names : List String} {set : NameSet} {x : String} :
    x ∈ (names.foldl insert set).toList ↔ x ∈ names ∨ x ∈ set.toList := by
  induction names generalizing set with
  | nil => simp
  | cons name names ih =>
    rw [List.foldl_cons, ih, mem_insert, List.mem_cons]
    grind

theorem mem_ofList {names : List String} {x : String} :
    x ∈ (ofList names).toList ↔ x ∈ names := by
  rw [ofList, mem_foldl_insert]
  simp [empty]

end NameSet

end PropertyIndex.Text
