import PropertyIndex.Proofs.BlockExtent
import PropertyIndex.Proofs.FinishedBlocks

/-!
# The cells of a block

The offsets of a block tell which cells of its text belong to it.  The first ones show the keyword
of the block, as a whole word.

* `Block.HasCells`, `Block.HasCells.unique`: the cells of a block, in front of it and behind it.
* `occurrenceAt_of_mem_occurrencesFrom`: what is found is a place.
* `exists_hasCells`: the cells of the blocks of a scan.
-/

namespace PropertyIndex.Source

open Text

/-- A block takes up some cells of a text, with others in front of it and behind it. -/
structure Block.HasCells (text : String) (block : Block) (front cells back : List Cell) :
    Prop where
  eq : mask text.toList = front ++ (cells ++ back)
  start_eq : block.start = width (source front)
  stop_eq : block.stop = width (source (front ++ cells))
  text_eq : block.text = String.ofList (source cells)

section Cells

variable {text : String} {block : Block} {front front' cells cells' back back' : List Cell}

theorem eq_of_width_eq {first second whole : List Cell} (hfirst : first <+: whole)
    (hsecond : second <+: whole) (hwidth : width (source first) = width (source second)) :
    first = second :=
  (prefix_of_width_le hfirst hsecond (Nat.le_of_eq hwidth)).eq_of_length_le
    (prefix_of_width_le hsecond hfirst (Nat.le_of_eq hwidth.symm)).length_le

/-- The cells of a block are determined by its offsets. -/
theorem Block.HasCells.unique (h : block.HasCells text front cells back)
    (hother : block.HasCells text front' cells' back') : front = front' ∧ cells = cells' := by
  have hfront : front = front' := by
    refine eq_of_width_eq ⟨_, h.eq.symm⟩ ⟨_, hother.eq.symm⟩ ?_
    rw [← h.start_eq, hother.start_eq]
  have hcells : front ++ cells = front' ++ cells' := by
    refine @eq_of_width_eq _ _ (mask text.toList) ⟨back, ?_⟩ ⟨back', ?_⟩ ?_
    · rw [h.eq, List.append_assoc]
    · rw [hother.eq, List.append_assoc]
    · rw [← h.stop_eq, hother.stop_eq]
  rw [hfront] at hcells
  exact ⟨hfront, List.append_cancel_left hcells⟩

end Cells

section Scan

variable {extent : Extent} {keyword text : String} {block : Block}

/-- What the search finds is a place. -/
theorem occurrenceAt_of_mem_occurrencesFrom {keyword : List Char} {before cells : List Cell}
    {place : Occurrence} (hkeyword : IsKeyword keyword)
    (h : place ∈ occurrencesFrom keyword before 0 false cells) :
    occurrenceAt keyword place.before (place.header ++ place.rest) = some place := by
  induction before, cells using search_induction hkeyword with
  | nil before =>
    rw [occurrencesFrom_nil hkeyword] at h
    exact absurd h List.not_mem_nil
  | pass before cell cells hnone ih =>
    rw [occurrencesFrom_cons hnone] at h
    exact ih h
  | found other hother ih =>
    rw [occurrencesFrom_of_some hkeyword hother] at h
    rcases List.mem_cons.1 h with rfl | hmem
    · exact hother
    · exact ih hmem

/-- A block of a scan begins with its keyword, which is a whole word of the masked copy. -/
theorem exists_hasCells (hkeyword : IsKeyword keyword.toList)
    (h : block ∈ scan extent keyword text) :
    ∃ front word more back, block.HasCells text front (word ++ more) back ∧
      visible word = keyword.toList ∧
      StandsAlone (shownText front) (shownText (more ++ back)) := by
  obtain ⟨place, hplace, hblock⟩ := List.mem_filterMap.1 h
  obtain ⟨⟨taken, terminated⟩, htaken, rfl⟩ := Option.map_eq_some_iff.1 hblock
  obtain ⟨hcells, -⟩ := eq_of_mem_occurrences hkeyword hplace
  obtain ⟨back, hcut⟩ := isCut_block? htaken
  obtain ⟨word, behind, hheader, hword, halone, hfound⟩ :=
    exists_of_occurrenceAt hkeyword (occurrenceAt_of_mem_occurrencesFrom hkeyword hplace)
  obtain ⟨more, hmore⟩ : ∃ more, place.header = word ++ more := by
    rw [hfound]
    exact ⟨_, List.append_assoc _ _ _⟩
  have hbehind : behind = more ++ taken ++ back := by
    rw [hmore, hcut.eq, List.append_assoc] at hheader
    rw [List.append_assoc]
    exact (List.append_cancel_left hheader).symm
  refine ⟨place.before.reverse, word, more ++ taken, back, ?_, hword, ?_⟩
  · rw [← List.append_assoc word, ← hmore]
    refine ⟨?_, rfl, ?_, rfl⟩
    · rw [hcells, hcut.eq, List.append_assoc]
    · rw [source_append, width_append]
  · rw [← hbehind]
    exact standsAlone_iff.2 halone

end Scan

end PropertyIndex.Source
