import PropertyIndex.Proofs.ClosedGroup
import PropertyIndex.Proofs.Identifier
import PropertyIndex.Proofs.Run

/-!
# Where a block ends

A block is cut exactly when its groups are nested.  The body of a rule is the first group that the
word `filtered` does not introduce, and a statement ends with the first group behind which neither
a group nor that word follows.

* `EndsInWord`, `endsFiltered_iff`: a header that the word `filtered` ends.
* `IsGroup`: a brace group with nested groups inside.
* `bodyBlock?_body`, `bodyBlock?_clause`: a block with a body, without and with a clause.
* `statementFrom_group`: a statement up to a group.
-/

namespace PropertyIndex.Source

open Text

/-! ## The word in front of a clause -/

theorem filtered_ident : ∀ c ∈ "filtered".toList, isIdentChar c = true :=
  List.all_eq_true.1 (by decide)

/-- A text ends in a word, except for blanks, and no identifier runs into the word. -/
def EndsInWord (word text : List Char) : Prop :=
  ∃ before blanks, text = before ++ word ++ blanks ∧ before.getLast?.any isIdentChar = false ∧
    blanks.all isAsciiBlank = true

instance (word text : List Char) : Decidable (EndsInWord word text) :=
  decidable_of_iff _ exists_split_iff

/-- A word that what cells show ends in also ends the masked copy. -/
theorem endsInWord_shownText {word : List Char} {cells : List Cell}
    (hword : ∀ c ∈ word, isIdentChar c = true) (h : EndsInWord word (visible cells)) :
    EndsInWord word (shownText cells) := by
  obtain ⟨before, blanks, htext, hbefore, hblanks⟩ := h
  have hspace : ∀ c ∈ word, c ≠ ' ' := fun c hc => ne_space_of_isIdentChar (hword c hc)
  obtain ⟨front, back, hshown, rfl, rfl⟩ := shownText_of_visible hspace htext
  refine ⟨shownText front, shownText back, hshown, ?_, ?_⟩
  · rw [getLast?_shownText]
    exact hbefore
  · rw [List.all_eq_true] at hblanks ⊢
    exact fun c hc => hblanks c (mem_shownText.1 hc)

/-- A word that the masked copy ends in is one that cells show. -/
theorem endsInWord_visible {word : List Char} {cells : List Cell} (hne : word ≠ [])
    (hword : ∀ c ∈ word, isIdentChar c = true) (h : EndsInWord word (shownText cells)) :
    EndsInWord word (visible cells) := by
  obtain ⟨before, blanks, htext, hbefore, hblanks⟩ := h
  have hspace : ∀ c ∈ word, c ≠ ' ' := fun c hc => ne_space_of_isIdentChar (hword c hc)
  obtain ⟨front, middle, back, rfl, rfl, rfl, rfl⟩ := exists_cells_of_shownText hne hspace htext
  refine ⟨visible front, visible back, ?_, ?_, ?_⟩
  · rw [visible_append, visible_append]
  · rw [← getLast?_shownText]
    exact hbefore
  · rw [List.all_eq_true] at hblanks ⊢
    exact fun c hc => hblanks c (mem_shownText.2 hc)

section Clause

variable {cells seen blanks word : List Cell}

theorem visible_reverse (cells : List Cell) : visible cells.reverse = (visible cells).reverse :=
  List.map_reverse

theorem endsFiltered_eq (seen : List Cell) : endsFiltered seen =
    ("filtered".toList.reverse.isPrefixOf? ((visible seen).dropWhile isAsciiBlank)).any
      fun before => !before.head?.any isIdentChar := by
  rw [endsFiltered, ← visible]
  cases "filtered".toList.reverse.isPrefixOf? ((visible seen).dropWhile isAsciiBlank) with
  | none => rfl
  | some before => rfl

/-- The header that a reading has seen ends in the word `filtered`. -/
theorem endsFiltered_iff :
    endsFiltered cells.reverse = true ↔ EndsInWord "filtered".toList (visible cells) := by
  rw [endsFiltered_eq, visible_reverse, Option.any_eq_true]
  constructor
  · rintro ⟨before, hbefore, hident⟩
    rw [List.isPrefixOf?_eq_some_iff_append_eq] at hbefore
    rw [Bool.not_eq_true'] at hident
    refine ⟨before.reverse, ((visible cells).reverse.takeWhile isAsciiBlank).reverse, ?_, ?_, ?_⟩
    · rw [← List.reverse_inj, List.reverse_append, List.reverse_append, List.reverse_reverse,
        List.reverse_reverse, hbefore, List.takeWhile_append_dropWhile]
    · rw [List.getLast?_reverse]
      exact hident
    · rw [List.all_eq_true]
      intro c hc
      exact List.mem_takeWhile_imp (List.mem_reverse.1 hc)
  · rintro ⟨before, blanks, htext, hident, hblanks⟩
    refine ⟨before.reverse, ?_, ?_⟩
    · rw [List.isPrefixOf?_eq_some_iff_append_eq, htext, List.reverse_append, List.reverse_append,
        dropWhile_run]
      · exact fun c hc => List.all_eq_true.1 hblanks c (List.mem_reverse.1 hc)
      · rfl
    · rw [List.head?_reverse, hident]
      rfl

/-- Blanks at the end of a header do not count. -/
theorem endsFiltered_append_blank (hblanks : ∀ c ∈ visible blanks, isAsciiBlank c = true) :
    endsFiltered (blanks.reverse ++ seen) = endsFiltered seen := by
  have hreverse : ∀ c ∈ visible blanks.reverse, isAsciiBlank c = true := by
    intro c hc
    rw [visible_reverse, List.mem_reverse] at hc
    exact hblanks c hc
  rw [endsFiltered_eq, endsFiltered_eq, visible_append, List.dropWhile_append_of_pos hreverse]

/-- The word is at the end of a header when nothing runs into it. -/
theorem endsFiltered_word (hword : visible word = "filtered".toList)
    (hseen : (visible seen).head?.any isIdentChar = false) :
    endsFiltered (word.reverse ++ seen) = true := by
  rw [endsFiltered_eq, visible_append, visible_reverse, hword, dropWhile_eq_self rfl,
    List.isPrefixOf?_eq_some_iff_append_eq.2 rfl, Option.any_some, hseen]
  rfl

end Clause

/-! ## Brace groups -/

/-- The cells of a brace group with nested groups inside. -/
def IsGroup (group : List Cell) : Prop :=
  ∃ opening inner closing, group = opening :: (inner ++ [closing]) ∧ opening.shown = '{' ∧
    closing.shown = '}' ∧ nestedWithin [] (visible inner) = true

section Groups

variable {header clause lead group seen rest : List Cell}

theorem throughClose_inner {inner : List Cell} {closing : Cell} (hclose : closing.shown = '}')
    (hinner : nestedWithin [] (visible inner) = true) :
    throughClose 1 (inner ++ (closing :: rest)) = some (inner ++ [closing]) := by
  have hlast : throughClose 1 (closing :: rest) = some [closing] := by
    rw [throughClose, hclose]
    rfl
  have hpass := @throughClose_append inner (closing :: rest) [] 1 hinner (Nat.le_refl 1)
  rw [hlast] at hpass
  exact hpass

/-- The search for the closing brace finds the one that belongs to the group. -/
theorem throughClose_group (hgroup : IsGroup group) :
    throughClose 0 (group ++ rest) = some group := by
  obtain ⟨opening, inner, closing, rfl, hopen, hclose, hinner⟩ := hgroup
  rw [List.cons_append, List.append_assoc, throughClose_cons_open hopen, List.singleton_append,
    throughClose_inner hclose hinner]
  rfl

/-- The group behind a header without a clause is the body. -/
theorem splitHeader_body (hgroup : IsGroup group) (hseen : endsFiltered seen = false) :
    splitHeader seen 0 (group ++ rest) = some ([], group ++ rest) := by
  obtain ⟨opening, inner, closing, rfl, hopen, -, -⟩ := hgroup
  rw [List.cons_append, splitHeader, hopen, hseen]
  rfl

/-- The group that the word `filtered` introduces belongs to the header. -/
theorem splitHeader_clause (hgroup : IsGroup group) (hseen : endsFiltered seen = true) :
    splitHeader seen 0 (group ++ rest) =
      (splitHeader (group.reverse ++ seen) 0 rest).map (prepend group) := by
  have hclose := @throughClose_group group rest hgroup
  obtain ⟨opening, inner, closing, rfl, hopen, -, -⟩ := hgroup
  exact splitHeader_group (congrArg some hopen) hseen hclose

/-- The last brace of a group ends no header. -/
theorem endsFiltered_group (hgroup : IsGroup group) :
    endsFiltered (group.reverse ++ seen) = false := by
  obtain ⟨opening, inner, closing, rfl, -, hclose, -⟩ := hgroup
  rw [endsFiltered_eq, List.reverse_cons, List.reverse_append, List.append_assoc]
  show (List.isPrefixOf? _ ((closing.shown :: visible _).dropWhile isAsciiBlank)).any _ = false
  rw [hclose]
  rfl

/-- A group either ends a statement or another one follows it. -/
theorem statementFrom_group (hgroup : IsGroup group) : statementFrom 0 (group ++ rest) =
    if continuesWithGroup rest = false then (group, true)
    else prepend group (statementFrom 0 rest) := by
  obtain ⟨opening, inner, closing, rfl, hopen, hclose, hinner⟩ := hgroup
  have hinside := @statementFrom_append inner (closing :: rest) [] 1 hinner
    (Or.inl (Nat.le_refl 1))
  rw [List.cons_append, List.append_assoc, List.singleton_append,
    statementFrom_cons_open (Or.inr hopen)]
  refine (congrArg (prepend [opening]) hinside).trans ?_
  rw [statementFrom_cons_brace hclose, prepend_append]
  by_cases hrest : continuesWithGroup rest = false
  · rw [if_pos ⟨rfl, hrest⟩, if_pos hrest]
    rfl
  · rw [if_neg fun h => hrest h.2, if_neg hrest, prepend_append]
    rfl

/-! ## Blocks -/

/-- A blank is neither a sign nor a semicolon. -/
theorem plain_of_isAsciiBlank {c : Char} (h : isAsciiBlank c = true) : ¬IsSign c ∧ c ≠ ';' := by
  constructor
  · rintro (rfl | rfl | rfl | rfl) <;> exact Bool.noConfusion h
  · rintro rfl
    exact Bool.noConfusion h

theorem plain_of_isIdentChar {c : Char} (h : isIdentChar c = true) : ¬IsSign c ∧ c ≠ ';' := by
  constructor
  · rintro (rfl | rfl | rfl | rfl) <;> exact Bool.noConfusion h
  · rintro rfl
    exact Bool.noConfusion h

theorem ne_of_isAsciiBlank {c : Char} (h : isAsciiBlank c = true) : c ≠ ';' ∧ c ≠ '{' :=
  ⟨(plain_of_isAsciiBlank h).2, fun hbrace =>
    (plain_of_isAsciiBlank h).1 (Or.inr (Or.inr (Or.inl hbrace)))⟩

theorem bodyBlock?_of_splitHeader {cells body : List Cell}
    (hsplit : splitHeader [] 0 cells = some (header, body))
    (hclose : throughClose 0 body = some group) :
    bodyBlock? cells = some (header ++ group, true) := by
  rw [bodyBlock?, hsplit, Option.map_some]
  simp only [hclose]

/-- A block with a body ends with the group behind its header. -/
theorem bodyBlock?_body (hheader : ∀ c ∈ visible header, c ≠ ';' ∧ c ≠ '{')
    (hends : endsFiltered header.reverse = false) (hgroup : IsGroup group) :
    bodyBlock? (header ++ group ++ rest) = some (header ++ group, true) := by
  have hsplit : splitHeader [] 0 (header ++ group ++ rest) = some (header, group ++ rest) := by
    rw [List.append_assoc, splitHeader_append_outside hheader, List.append_nil,
      splitHeader_body hgroup hends, Option.map_some, prepend, List.append_nil]
  exact bodyBlock?_of_splitHeader hsplit (throughClose_group hgroup)

/-- A block with a clause in front of its body ends with the group behind the clause. -/
theorem bodyBlock?_clause (hheader : ∀ c ∈ visible header, c ≠ ';' ∧ c ≠ '{')
    (hends : endsFiltered header.reverse = true) (hclause : IsGroup clause)
    (hlead : ∀ c ∈ visible lead, isAsciiBlank c = true) (hgroup : IsGroup group) :
    bodyBlock? (header ++ (clause ++ (lead ++ group)) ++ rest) =
      some (header ++ (clause ++ (lead ++ group)), true) := by
  have hbody : endsFiltered (lead.reverse ++ (clause.reverse ++ header.reverse)) = false := by
    rw [endsFiltered_append_blank hlead, endsFiltered_group hclause]
  have hsplit : splitHeader [] 0 (header ++ (clause ++ (lead ++ group)) ++ rest) =
      some (header ++ (clause ++ lead), group ++ rest) := by
    rw [List.append_assoc, List.append_assoc, List.append_assoc,
      splitHeader_append_outside hheader, List.append_nil, splitHeader_clause hclause hends,
      splitHeader_append_outside fun c hc => ne_of_isAsciiBlank (hlead c hc),
      splitHeader_body hgroup hbody, Option.map_some, Option.map_some, Option.map_some,
      prepend_append, prepend_append, prepend, List.append_nil, List.append_assoc]
  rw [bodyBlock?_of_splitHeader hsplit (throughClose_group hgroup), List.append_assoc,
    List.append_assoc]

/-! ## What follows a group -/

theorem continuesWithGroup_append_blank (hlead : ∀ c ∈ visible lead, isAsciiBlank c = true) :
    continuesWithGroup (lead ++ rest) = continuesWithGroup rest := by
  rw [continuesWithGroup, continuesWithGroup, ← visible, ← visible, visible_append,
    List.dropWhile_append_of_pos hlead]

theorem continuesWithGroup_group (hgroup : IsGroup group) :
    continuesWithGroup (group ++ rest) = true := by
  obtain ⟨opening, inner, closing, rfl, hopen, -, -⟩ := hgroup
  rw [continuesWithGroup, List.cons_append, List.map_cons, hopen]
  rfl

theorem continuesWithGroup_word {word : List Cell} (hword : visible word = "filtered".toList)
    (hrest : (visible rest).head?.any isIdentChar = false) :
    continuesWithGroup (word ++ rest) = true := by
  rw [continuesWithGroup, ← visible, visible_append, hword, dropWhile_eq_self rfl,
    List.isPrefixOf?_eq_some_iff_append_eq.2 rfl]
  show (_ || !(visible rest).head?.any isIdentChar) = true
  rw [hrest, Bool.not_false, Bool.or_true]

/-- Nothing goes on where neither a brace nor the first letter of the word is next. -/
theorem continuesWithGroup_eq_false
    (h : ∀ c ∈ (visible rest).head?, isAsciiBlank c = false ∧ c ≠ '{' ∧ c ≠ 'f') :
    continuesWithGroup rest = false := by
  cases rest with
  | nil => rfl
  | cons cell rest =>
    obtain ⟨hblank, hbrace, hletter⟩ := h cell.shown rfl
    have hword : "filtered".toList.isPrefixOf? (cell.shown :: visible rest) = none := by
      refine if_neg ?_
      rw [beq_iff_eq]
      exact hletter.symm
    have hnext : ((cell.shown :: visible rest).head? == some '{') = false := by
      rw [beq_eq_false_iff_ne]
      exact fun hhead => hbrace (Option.some.inj hhead)
    have hstay : (cell.shown :: visible rest).dropWhile isAsciiBlank = cell.shown :: visible rest :=
      dropWhile_eq_self hblank
    rw [continuesWithGroup, List.map_cons, ← visible, hstay, hnext, hword]
    rfl

end Groups

end PropertyIndex.Source
