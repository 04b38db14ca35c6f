import PropertyIndex.Proofs.ReturnedCells

/-!
# Blocks of a text with carriage returns

A scan goes through a text with carriage returns side by side with the scan of the text without
them.  A keyword is found in one exactly when it is found in the other, and a block that begins
there takes up corresponding cells, so the blocks of one text give those of the other.

* `Occurrence.IsReturned`, `occurrenceAt_returned`, `occurrencesFrom_returned`: corresponding
  places, at the front of cells and in all of them.
* `throughClose_returned`, `splitHeader_returned`, `statementFrom_returned`: the readings that end a
  block.
* `Block.withReturns`, `scan_textWithReturns`: the blocks of a text with carriage returns.
-/

namespace PropertyIndex.Source

open Text

/-! ## The search for a keyword -/

section Search

variable {keyword : List Char} {before before' cells others : List Cell}

theorem unseen_identCell : Unseen Cell.IsFeed IsReturn fun cell => isIdentChar cell.shown :=
  unseen_shown (by decide) (by decide) (by decide)

/-- A word is split off from both lists of cells or from none. -/
theorem splitWord_returned {word : List Char} (hword : ∀ c ∈ word, isIdentChar c = true)
    (h : ReturnedCells cells others) :
    Option.Rel (fun split split' => split'.1 = split.1 ∧ ReturnedCells split.2 split'.2)
      (splitWord word cells) (splitWord word others) := by
  have hident : ∀ taken : List Cell, visible taken = word →
      ∀ cell ∈ taken, isIdentChar cell.shown = true := by
    rintro taken rfl cell hcell
    exact hword _ (List.mem_map_of_mem hcell)
  rcases hcells : splitWord word cells with _ | ⟨taken, rest⟩
  · rcases hothers : splitWord word others with _ | ⟨taken, rest⟩
    · exact .none
    · obtain ⟨rfl, hvisible⟩ := (splitWord_eq_some hword).1 hothers
      obtain ⟨rest', rfl, -⟩ := h.of_append unseen_identCell (hident taken hvisible)
      rw [(splitWord_eq_some hword).2 ⟨rfl, hvisible⟩] at hcells
      exact absurd hcells (Option.some_ne_none _)
  · obtain ⟨rfl, hvisible⟩ := (splitWord_eq_some hword).1 hcells
    obtain ⟨rest', rfl, hrest⟩ := h.exists_word_append unseen_identCell (hident taken hvisible)
    rw [(splitWord_eq_some hword).2 ⟨rfl, hvisible⟩]
    exact .some ⟨rfl, hrest⟩

/-- Two places of a keyword, the second among cells with carriage returns. -/
structure Occurrence.IsReturned (place other : Occurrence) : Prop where
  name_eq : other.name = place.name
  before : ReturnedCells place.before.reverse other.before.reverse
  header : ReturnedCells place.header other.header
  rest : ReturnedCells place.rest other.rest

/-- At a keyword, the places among both lists of cells correspond to each other. -/
theorem isReturned_place (hbefore : ReturnedCells before.reverse before'.reverse)
    {word behind behind' : List Cell} (hword : ReturnedCells word word)
    (h : ReturnedCells behind behind') :
    (place before word (behind.takeWhile fun cell => isBlank cell.shown)
      (behind.dropWhile fun cell => isBlank cell.shown)).IsReturned
      (place before' word (behind'.takeWhile fun cell => isBlank cell.shown)
        (behind'.dropWhile fun cell => isBlank cell.shown)) := by
  have hblank : Blind Cell.IsFeed IsReturn fun cell => isBlank cell.shown :=
    blind_shown (by decide) (by decide)
  have hafter := h.dropWhile hblank
  have hname := hafter.takeWhile_eq unseen_identCell
  constructor
  · show String.ofList (source _) = String.ofList (source _)
    rw [hname]
  · exact hbefore
  · exact (hword.append (h.takeWhile hblank)).append (hafter.takeWhile unseen_identCell.blind)
  · exact hafter.dropWhile unseen_identCell.blind

/-- A keyword is at the front of both lists of cells or of none. -/
theorem occurrenceAt_returned (hkeyword : IsKeyword keyword)
    (hbefore : ReturnedCells before.reverse before'.reverse) (h : ReturnedCells cells others) :
    Option.Rel Occurrence.IsReturned (occurrenceAt keyword before cells)
      (occurrenceAt keyword before' others) := by
  rcases rel_cases (splitWord_returned hkeyword.ident h) with
    ⟨hcells, hothers⟩ | ⟨⟨word, behind⟩, ⟨word', behind'⟩, hcells, hothers, rfl, hbehind⟩
  · rw [occurrenceAt, hcells, occurrenceAt, hothers]
    exact .none
  · obtain ⟨rfl, hword⟩ := (splitWord_eq_some hkeyword.ident).1 hcells
    obtain ⟨rfl, -⟩ := (splitWord_eq_some hkeyword.ident).1 hothers
    have hleft : (visible before').head?.any isWordChar =
        (visible before).head?.any isWordChar := by
      have hlast := hbefore.getLast?_eq
      rw [List.getLast?_reverse, List.getLast?_reverse] at hlast
      rw [head?_visible_any, head?_visible_any, hlast]
    have hright : (visible behind').head?.any isWordChar =
        (visible behind).head?.any isWordChar := by
      rw [head?_visible_any, head?_visible_any]
      exact hbehind.head?_any_eq (blind_shown (by decide) (by decide))
    rw [occurrenceAt_append hkeyword hword, occurrenceAt_append hkeyword hword, hleft, hright]
    split_ifs
    · exact .none
    · refine .some (isReturned_place hbefore (Padded.self fun cell hcell hfeed => ?_) hbehind)
      have hident := hkeyword.ident cell.shown (hword ▸ List.mem_map_of_mem hcell)
      rw [Cell.shown_of_feed hfeed] at hident
      exact Bool.noConfusion hident

/-- No keyword begins with a character that no identifier has. -/
theorem occurrenceAt_of_not_ident (hkeyword : IsKeyword keyword) {cell : Cell}
    (h : isIdentChar cell.shown = false) : occurrenceAt keyword before (cell :: cells) = none := by
  refine occurrenceAt_eq_none hkeyword fun after hafter _ => ?_
  obtain ⟨first, rest, hcons⟩ := List.exists_cons_of_ne_nil hkeyword.ne_nil
  have hfirst := hkeyword.ident first (hcons ▸ List.mem_cons_self)
  rw [hcons] at hafter
  rw [← (List.cons.inj hafter).1, h] at hfirst
  exact Bool.noConfusion hfirst

theorem reverse_cons_returned {cell : Cell} (hbefore : ReturnedCells before.reverse before'.reverse)
    (hcell : ¬cell.IsFeed) : ReturnedCells (cell :: before).reverse (cell :: before').reverse := by
  rw [List.reverse_cons, List.reverse_cons]
  exact hbefore.append (.keep hcell .nil)

theorem reverse_feed_returned {feed : Cell} {part : Part}
    (hbefore : ReturnedCells before.reverse before'.reverse) (hfeed : feed.IsFeed) :
    ReturnedCells (feed :: before).reverse (feed :: ⟨'\r', part⟩ :: before').reverse := by
  rw [List.reverse_cons, List.reverse_cons, List.reverse_cons, List.append_assoc]
  exact hbefore.append (returnedCells_feed hfeed part .nil)

/-- The search finds corresponding places. -/
theorem occurrencesFrom_returned (hkeyword : IsKeyword keyword)
    (hbefore : ReturnedCells before.reverse before'.reverse) (h : ReturnedCells cells others) :
    List.Forall₂ Occurrence.IsReturned (occurrencesFrom keyword before 0 false cells)
      (occurrencesFrom keyword before' 0 false others) := by
  induction before, cells using search_induction hkeyword generalizing before' others with
  | nil before =>
    cases h
    rw [occurrencesFrom_nil hkeyword, occurrencesFrom_nil hkeyword]
    exact .nil
  | pass before cell cells hcells ih =>
    have hothers : occurrenceAt keyword before' others = none := by
      rcases rel_cases (occurrenceAt_returned hkeyword hbefore h) with
        ⟨-, hothers⟩ | ⟨_, _, hplace, -, -⟩
      · exact hothers
      · rw [hcells] at hplace
        exact absurd hplace.symm (Option.some_ne_none _)
    rw [occurrencesFrom_cons hcells]
    cases h with
    | keep hcell hrest =>
      rw [occurrencesFrom_cons hothers]
      exact ih (reverse_cons_returned hbefore hcell) hrest
    | @pad _ pad _ others hfeed hpad hrest =>
      obtain ⟨part, rfl⟩ := hpad
      have hident : isIdentChar cell.shown = false := unseen_identCell.of_isBreak cell hfeed
      rw [List.singleton_append] at hothers ⊢
      rw [occurrencesFrom_cons hothers,
        occurrencesFrom_cons (occurrenceAt_of_not_ident hkeyword hident)]
      exact ih (reverse_feed_returned hbefore hfeed) hrest
  | found place hcells ih =>
    rcases rel_cases (occurrenceAt_returned hkeyword hbefore h) with
      ⟨hnone, -⟩ | ⟨_, other, hplace, hothers, hreturned⟩
    · rw [hcells] at hnone
      exact absurd hnone (Option.some_ne_none _)
    · rw [hcells] at hplace
      obtain rfl := Option.some_inj.1 hplace
      obtain ⟨rfl, rfl⟩ := eq_of_occurrenceAt hkeyword hothers
      rw [occurrencesFrom_of_some hkeyword hcells, occurrencesFrom_of_some hkeyword hothers]
      refine .cons hreturned (ih ?_ hreturned.rest)
      rw [List.reverse_append, List.reverse_reverse, List.reverse_append, List.reverse_reverse]
      exact hreturned.before.append hreturned.header

end Search

/-! ## The end of a block -/

section End

variable {seen seen' cells others : List Cell}

/-- What two readings of cells have found. -/
def IsReturnedPair (found other : List Cell × List Cell) : Prop :=
  ReturnedCells found.1 other.1 ∧ ReturnedCells found.2 other.2

theorem isAsciiBlank_feed {cell : Cell} (h : cell.IsFeed) : isAsciiBlank cell.shown = true := by
  rw [Cell.shown_of_feed h]
  rfl

theorem isAsciiBlank_return (part : Part) :
    isAsciiBlank (⟨'\r', part⟩ : Cell).shown = true := by
  rcases Cell.shown_of_return part with h | h
  · rw [h]
    rfl
  · rw [h]
    rfl

/-- The search for a closing brace passes over blanks. -/
theorem throughClose_cons_blank {cell : Cell} (h : isAsciiBlank cell.shown = true) (depth : Nat) :
    throughClose depth (cell :: cells) = (throughClose depth cells).map (cell :: ·) := by
  obtain ⟨hsign, -⟩ := plain_of_isAsciiBlank h
  exact throughClose_cons_of_ne (fun hc => hsign (Or.inr (Or.inr (Or.inl hc))))
    fun hc => hsign (Or.inr (Or.inr (Or.inr hc)))

theorem throughClose_returned (h : ReturnedCells cells others) (depth : Nat) :
    Option.Rel ReturnedCells (throughClose depth cells) (throughClose depth others) := by
  induction h generalizing depth with
  | nil => exact .none
  | keep hcell _ ih =>
    have honward : ∀ depth, Option.Rel ReturnedCells _ _ := fun depth =>
      rel_map (ih depth) fun _ _ hmore => Padded.keep hcell hmore
    rw [throughClose, throughClose]
    split_ifs
    · exact honward _
    · exact .some (.keep hcell .nil)
    · exact honward _
    · exact honward _
  | pad hfeed hpad _ ih =>
    obtain ⟨part, rfl⟩ := hpad
    rw [List.singleton_append, throughClose_cons_blank (isAsciiBlank_feed hfeed),
      throughClose_cons_blank (isAsciiBlank_return part),
      throughClose_cons_blank (isAsciiBlank_feed hfeed), Option.map_map]
    exact rel_map (ih depth) fun _ _ hmore => returnedCells_feed hfeed part hmore

/-- Blanks at line ends do not decide whether a text ends in a word. -/
theorem endsInWord_respaced {word text other : List Char} (h : Respaced text other)
    (hword : ∀ c ∈ word, isIdentChar c = true) (hne : word ≠ []) :
    EndsInWord word other ↔ EndsInWord word text := by
  refine h.exists_word_iff unseen_isIdentChar hword hne ?_ ?_
  · intro front front' hfront
    rw [hfront.getLast?_eq]
  · intro back back' hback
    rw [hback.all_eq blind_isAsciiBlank]

/-- A header ends in the word `filtered` with and without carriage returns. -/
theorem endsFiltered_returned (hseen : ReturnedCells seen.reverse seen'.reverse) :
    endsFiltered seen' = endsFiltered seen := by
  have hends := endsInWord_respaced (visible_returned hseen) filtered_ident (by decide)
  rw [← endsFiltered_iff, ← endsFiltered_iff, List.reverse_reverse, List.reverse_reverse] at hends
  exact Bool.eq_iff_iff.2 hends

/-- The search for a body takes blanks along. -/
theorem splitHeader_cons_blank {cell : Cell} (h : isAsciiBlank cell.shown = true) (depth : Nat) :
    splitHeader seen depth (cell :: cells) =
      (splitHeader (cell :: seen) depth cells).map (prepend [cell]) := by
  obtain ⟨hsign, hsemicolon⟩ := plain_of_isAsciiBlank h
  have hopen : cell.shown ≠ '{' := fun hc => hsign (Or.inr (Or.inr (Or.inl hc)))
  cases depth with
  | zero =>
    refine @splitHeader_append_outside seen [cell] cells fun c hc => ?_
    rw [List.mem_singleton.1 hc]
    exact ⟨hsemicolon, hopen⟩
  | succ opened =>
    exact splitHeader_cons_inside_of_ne hopen fun hc => hsign (Or.inr (Or.inr (Or.inr hc)))

theorem splitHeader_returned (h : ReturnedCells cells others)
    (hseen : ReturnedCells seen.reverse seen'.reverse) (depth : Nat) :
    Option.Rel IsReturnedPair (splitHeader seen depth cells) (splitHeader seen' depth others) := by
  induction h generalizing seen seen' depth with
  | nil => exact .none
  | @keep cell cells others hcell hrest ih =>
    have honward : ∀ depth,
        Option.Rel IsReturnedPair ((splitHeader (cell :: seen) depth cells).map (prepend [cell]))
          ((splitHeader (cell :: seen') depth others).map (prepend [cell])) := fun depth =>
      rel_map (ih (reverse_cons_returned hseen hcell) depth) fun _ _ hmore =>
        ⟨.keep hcell hmore.1, hmore.2⟩
    have hclose : (throughClose 1 others).isSome = (throughClose 1 cells).isSome := by
      rcases rel_cases (throughClose_returned hrest 1) with ⟨hx, hy⟩ | ⟨_, _, hx, hy, -⟩
      · rw [hx, hy]
      · rw [hx, hy]
        rfl
    cases depth with
    | succ opened =>
      rw [splitHeader, splitHeader]
      split_ifs
      · exact honward _
      · exact honward _
      · exact honward _
    | zero =>
      rw [splitHeader, splitHeader, endsFiltered_returned hseen, hclose]
      split_ifs
      · exact .none
      · exact honward _
      · exact .some ⟨.nil, .keep hcell hrest⟩
      · exact honward _
  | @pad feed pad cells others hfeed hpad _ ih =>
    obtain ⟨part, rfl⟩ := hpad
    rw [List.singleton_append, splitHeader_cons_blank (isAsciiBlank_feed hfeed),
      splitHeader_cons_blank (isAsciiBlank_return part),
      splitHeader_cons_blank (isAsciiBlank_feed hfeed), map_prepend_append]
    exact rel_map (ih (reverse_feed_returned hseen hfeed) depth) fun _ _ hmore =>
      ⟨returnedCells_feed hfeed part hmore.1, hmore.2⟩

/-- The cells of a block, with the answer whether it comes to an end. -/
def IsReturnedBlock (found other : List Cell × Bool) : Prop :=
  ReturnedCells found.1 other.1 ∧ other.2 = found.2

theorem bodyBlock?_returned (h : ReturnedCells cells others) :
    Option.Rel IsReturnedBlock (bodyBlock? cells) (bodyBlock? others) := by
  refine rel_map (splitHeader_returned h .nil 0) ?_
  rintro ⟨header, body⟩ ⟨header', body'⟩ ⟨hheader, hbody⟩
  rcases rel_cases (throughClose_returned hbody 0) with ⟨hx, hy⟩ | ⟨group, group', hx, hy, hgroup⟩
  · simp only [hx, hy]
    exact ⟨hheader.append hbody, rfl⟩
  · simp only [hx, hy]
    exact ⟨hheader.append hgroup, rfl⟩

/-- A group goes on a statement with and without carriage returns. -/
theorem continuesWithGroup_returned (h : ReturnedCells cells others) :
    continuesWithGroup others = continuesWithGroup cells := by
  have hbrace : Blind (· = '\n') IsGap (· == '{') := blind_respaced (by decide) (by decide)
  have hshown := (visible_returned h).dropWhile blind_isAsciiBlank
  have hhead : ∀ text : List Char, (text.head? == some '{') = text.head?.any (· == '{') := by
    intro text
    cases text with
    | nil => rfl
    | cons c text => rfl
  rw [continuesWithGroup, continuesWithGroup, ← visible, ← visible, hhead, hhead,
    hshown.head?_any_eq hbrace]
  rcases rel_cases (hshown.isPrefixOf? unseen_isIdentChar filtered_ident) with
    ⟨hx, hy⟩ | ⟨_, _, hx, hy, hbehind⟩
  · rw [hx, hy]
  · simp only [hx, hy, hbehind.head?_any_eq unseen_isIdentChar.blind]

/-- The reading of a statement takes blanks along. -/
theorem statementFrom_cons_blank {cell : Cell} (h : isAsciiBlank cell.shown = true) (depth : Nat) :
    statementFrom depth (cell :: cells) = prepend [cell] (statementFrom depth cells) := by
  obtain ⟨hsign, hsemicolon⟩ := plain_of_isAsciiBlank h
  exact statementFrom_cons_of_not_isSign hsign (Or.inr hsemicolon)

theorem statementFrom_returned (h : ReturnedCells cells others) (depth : Nat) :
    IsReturnedBlock (statementFrom depth cells) (statementFrom depth others) := by
  induction h generalizing depth with
  | nil => exact ⟨.nil, rfl⟩
  | @keep cell cells others hcell hrest ih =>
    have honward : ∀ depth, IsReturnedBlock (prepend [cell] (statementFrom depth cells))
        (prepend [cell] (statementFrom depth others)) := fun depth =>
      ⟨.keep hcell (ih depth).1, (ih depth).2⟩
    have hstop : IsReturnedBlock ([cell], true) ([cell], true) := ⟨.keep hcell .nil, rfl⟩
    rw [statementFrom, statementFrom, continuesWithGroup_returned hrest]
    split_ifs
    · exact honward _
    · exact honward _
    · exact hstop
    · exact honward _
    · exact hstop
    · exact honward _
  | pad hfeed hpad _ ih =>
    obtain ⟨part, rfl⟩ := hpad
    rw [List.singleton_append, statementFrom_cons_blank (isAsciiBlank_feed hfeed),
      statementFrom_cons_blank (isAsciiBlank_return part),
      statementFrom_cons_blank (isAsciiBlank_feed hfeed), prepend_append]
    exact ⟨returnedCells_feed hfeed part (ih depth).1, (ih depth).2⟩

theorem block?_returned (h : ReturnedCells cells others) (extent : Extent) :
    Option.Rel IsReturnedBlock (extent.block? cells) (extent.block? others) := by
  cases extent with
  | body => exact bodyBlock?_returned h
  | statement => exact .some (statementFrom_returned h 0)

end End

/-! ## Blocks -/

/-- A block as it stands in the same text with a carriage return in front of each line feed. -/
def Block.withReturns (block : Block) : Block :=
  { block with
    start := block.start + (block.startLine - 1)
    stop := block.stop + (block.startLine - 1) + block.text.toList.count '\n'
    text := String.ofList (Text.withReturns block.text.toList) }

/-- The blocks at corresponding places. -/
theorem Occurrence.IsReturned.block? {place other : Occurrence} (h : place.IsReturned other)
    (extent : Extent) : Option.Rel (fun block block' => block' = block.withReturns)
      (place.block? extent) (other.block? extent) := by
  refine rel_map (block?_returned h.rest extent) ?_
  rintro ⟨taken, terminated⟩ ⟨taken', terminated'⟩ ⟨htaken, rfl⟩
  have hbefore := source_returned h.before
  have htext := source_returned (h.header.append htaken)
  simp only [hbefore, htext, h.name_eq, Block.withReturns, String.toList_ofList, width_withReturns,
    lineNumber, List.count_append, count_withReturns, count_dropLast_withReturns,
    Nat.add_sub_cancel, Block.mk.injEq, true_and, and_true]
  omega

/-- A text with a carriage return in front of each line feed. -/
def textWithReturns (text : String) : String :=
  String.ofList (Text.withReturns text.toList)

/-- A scan finds the same blocks in a text with carriage returns. -/
theorem scan_textWithReturns (extent : Extent) {keyword text : String}
    (hkeyword : IsKeyword keyword.toList) (htext : HasPlainLineEnds text.toList) :
    scan extent keyword (textWithReturns text) =
      (scan extent keyword text).map Block.withReturns := by
  have hcells : ReturnedCells (mask text.toList) (mask (Text.withReturns text.toList)) :=
    returnedCells_maskFrom htext trivial
  have hplaces : List.Forall₂ Occurrence.IsReturned (occurrences keyword.toList (mask text.toList))
      (occurrences keyword.toList (mask (Text.withReturns text.toList))) :=
    occurrencesFrom_returned hkeyword .nil hcells
  have hblock : ∀ place other, Occurrence.IsReturned place other →
      Option.Rel (fun block block' => block' = block.withReturns) (place.block? extent)
        (other.block? extent) := fun _ _ h => h.block? extent
  have hblocks := List.rel_filterMap hblock hplaces
  rw [scan, scan, textWithReturns, String.toList_ofList, ← List.forall₂_eq_eq_eq,
    List.forall₂_map_right_iff]
  exact hblocks.flip

end PropertyIndex.Source
