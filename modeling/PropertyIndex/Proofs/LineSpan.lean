import PropertyIndex.Proofs.Identifier

/-!
# Lines of a stretch of text

The lines of a text are its pieces between line feeds, without the carriage returns in front of the
line feeds.  Where a text is cut out of a longer one, both cuts go through a piece; the pieces
between them belong to both texts.

* `linesOfPieces_append`, `lines_concat`: the lines of pieces, and of a text with its last
  character.
* `length_lines`: a text has a line for each line feed in front of its last character, and one
  more.
* `exists_lines_eq`, `getElem?_lines`: the lines of a stretch among those of the text around it.
-/

namespace PropertyIndex.Text

/-! ## Lines -/

theorem dropCarriageReturn_append {front back : List Char} (h : back ≠ []) :
    dropCarriageReturn (front ++ back) = front ++ dropCarriageReturn back := by
  rw [dropCarriageReturn, dropCarriageReturn, List.getLast?_append_of_ne_nil _ h,
    List.dropLast_append_of_ne_nil h]
  split_ifs <;> rfl

/-- Pieces in front of others are ended by line feeds. -/
theorem linesOfPieces_append (init : List (List Char)) {rest : List (List Char)} (h : rest ≠ []) :
    linesOfPieces (init ++ rest) = init.map dropCarriageReturn ++ linesOfPieces rest := by
  induction init with
  | nil => rfl
  | cons piece init ih =>
    obtain ⟨next, more, hmore⟩ :=
      List.exists_cons_of_ne_nil (List.append_ne_nil_of_right_ne_nil init h)
    rw [List.cons_append, List.map_cons, List.cons_append, ← ih, hmore]
    rfl

section Concat

variable {text : List Char} {init : List (List Char)} {last : List Char}

/-- The last line of a text, by its last character. -/
theorem lines_concat (h : pieces '\n' text = init ++ [last]) (c : Char) :
    lines (text ++ [c]) = init.map dropCarriageReturn ++
      [if c = '\n' then dropCarriageReturn last else last ++ [c]] := by
  by_cases hc : c = '\n'
  · subst hc
    have hpieces : pieces '\n' (text ++ ['\n']) = (init ++ [last]) ++ [[]] := by
      rw [pieces_append_of_eq h (show pieces '\n' ['\n'] = [] :: [[]] from rfl), List.append_nil,
        List.append_assoc]
      rfl
    rw [lines, hpieces, linesOfPieces_append _ (List.cons_ne_nil _ _), List.map_append, if_pos rfl]
    exact List.append_nil _
  · have hsingle : pieces '\n' [c] = [[c]] := by
      rw [pieces, if_neg (by rwa [beq_iff_eq])]
      rfl
    have hline : linesOfPieces [last ++ [c]] = [last ++ [c]] := by
      rw [linesOfPieces, if_neg]
      rw [List.isEmpty_iff]
      exact List.append_ne_nil_of_right_ne_nil _ (List.cons_ne_nil _ _)
    rw [lines, pieces_append_of_eq h hsingle, linesOfPieces_append _ (List.cons_ne_nil _ _), hline,
      if_neg hc]

/-- A text has a line for each line feed in front of its last character, and one more. -/
theorem length_lines {text : List Char} (h : text ≠ []) :
    (lines text).length = text.dropLast.count '\n' + 1 := by
  obtain ⟨text, c, rfl⟩ := (List.eq_nil_or_concat' text).resolve_left h
  obtain ⟨init, last, hpieces, hlength⟩ := exists_pieces_eq_concat '\n' text
  rw [lines_concat hpieces, List.length_append, List.length_map, List.dropLast_concat, hlength]
  rfl

end Concat

/-- A piece that goes on behind a character of its line begins with all up to that character, with
and without its carriage return. -/
theorem prefix_linesOfPieces {last next : List Char} {c : Char} {rest : List (List Char)}
    (hc : rest = [] ∨ c ≠ '\r') :
    ∃ whole below, linesOfPieces ((last ++ c :: next) :: rest) = whole :: below ∧
      last ++ [c] <+: whole := by
  have hprefix : last ++ [c] <+: last ++ c :: next := ⟨next, List.append_assoc _ _ _⟩
  cases rest with
  | nil =>
    refine ⟨_, [], ?_, hprefix⟩
    rw [linesOfPieces, if_neg]
    rw [List.isEmpty_iff]
    exact List.append_ne_nil_of_right_ne_nil _ (List.cons_ne_nil _ _)
  | cons piece rest =>
    refine ⟨_, _, rfl, ?_⟩
    have hne : c ≠ '\r' := hc.resolve_left (List.cons_ne_nil _ _)
    rw [dropCarriageReturn_append (List.cons_ne_nil _ _), List.prefix_append_right_inj]
    cases next with
    | nil =>
      rw [dropCarriageReturn, if_neg]
      rw [List.getLast?_singleton, beq_iff_eq, Option.some_inj]
      exact hne
    | cons d next =>
      rw [show c :: d :: next = [c] ++ d :: next from rfl,
        dropCarriageReturn_append (List.cons_ne_nil _ _)]
      exact List.prefix_append _ _

/-- The first piece of a stretch ends the piece that it was cut from, with and without their
carriage return. -/
theorem suffix_dropCarriageReturn (front back : List Char) :
    dropCarriageReturn back <:+ dropCarriageReturn (front ++ back) := by
  rcases eq_or_ne back [] with rfl | hne
  · exact List.nil_suffix
  · rw [dropCarriageReturn_append hne]
    exact List.suffix_append _ _

/-- A stretch of several lines shares with the text around it all lines but its first and its last
one, which are parts of theirs.  This asks that the stretch goes up to the end of the text or does
not end inside a line end. -/
theorem exists_lines_eq {front middle back : List Char} (hlines : 0 < middle.dropLast.count '\n')
    (hend : back = [] ∨ ∀ c, middle.getLast? = some c → c ≠ '\n' ∧ c ≠ '\r') :
    ∃ above first firstWhole inner last lastWhole below,
      lines (front ++ middle ++ back) = above ++ firstWhole :: (inner ++ lastWhole :: below) ∧
      lines middle = first :: (inner ++ [last]) ∧ above.length = front.count '\n' ∧
      first <:+ firstWhole ∧ last <+: lastWhole := by
  have hne : middle ≠ [] := by
    rintro rfl
    exact absurd hlines (by decide)
  obtain ⟨init, c, rfl⟩ := (List.eq_nil_or_concat' middle).resolve_left hne
  rw [List.dropLast_concat] at hlines
  rw [List.getLast?_concat] at hend
  obtain ⟨several, last, hinit, hseveral⟩ := exists_pieces_eq_concat '\n' init
  obtain ⟨piece, inner, rfl⟩ : ∃ piece inner, several = piece :: inner :=
    List.exists_cons_of_length_pos (hseveral ▸ hlines)
  obtain ⟨above, lowest, hfront, habove⟩ := exists_pieces_eq_concat '\n' front
  have hseam : pieces '\n' (front ++ init) = (above ++ (lowest ++ piece) :: inner) ++ [last] := by
    rw [pieces_append_of_eq hfront hinit, List.append_assoc]
    rfl
  -- The last line is closed by its own line feed, or it goes on behind the stretch.
  by_cases hc : c = '\n'
  · obtain rfl : back = [] := hend.resolve_right fun h => (h c rfl).1 hc
    refine ⟨above.map dropCarriageReturn, dropCarriageReturn piece,
      dropCarriageReturn (lowest ++ piece), inner.map dropCarriageReturn, dropCarriageReturn last,
      dropCarriageReturn last, [], ?_, ?_, ?_, suffix_dropCarriageReturn _ _, List.prefix_refl _⟩
    · rw [List.append_nil, ← List.append_assoc, lines_concat hseam, if_pos hc, List.map_append,
        List.map_cons, List.append_assoc, List.cons_append]
    · rw [lines_concat hinit, if_pos hc, List.map_cons, List.cons_append]
    · rw [List.length_map, habove]
  · obtain ⟨next, rest, hback⟩ := List.exists_cons_of_ne_nil (pieces_ne_nil '\n' back)
    have hnext : pieces '\n' (c :: back) = (c :: next) :: rest := by
      rw [pieces, if_neg (by rwa [beq_iff_eq]), hback]
    have hreturn : rest = [] ∨ c ≠ '\r' := by
      refine hend.imp ?_ fun h => (h c rfl).2
      rintro rfl
      exact (List.cons.inj hback).2.symm
    obtain ⟨lastWhole, below, hbelow, hprefix⟩ := @prefix_linesOfPieces last next c rest hreturn
    refine ⟨above.map dropCarriageReturn, dropCarriageReturn piece,
      dropCarriageReturn (lowest ++ piece), inner.map dropCarriageReturn, last ++ [c], lastWhole,
      below, ?_, ?_, ?_, suffix_dropCarriageReturn _ _, hprefix⟩
    · rw [← List.append_assoc, List.append_assoc (front ++ init), List.singleton_append, lines,
        pieces_append_of_eq hseam hnext, linesOfPieces_append _ (List.cons_ne_nil _ _), hbelow,
        List.map_append, List.map_cons, List.append_assoc, List.cons_append]
    · rw [lines_concat hinit, if_neg hc, List.map_cons, List.cons_append]
    · rw [List.length_map, habove]

/-- The lines of a stretch of several lines, by their numbers in the text around it. -/
theorem getElem?_lines {front middle back : List Char} (hlines : 0 < middle.dropLast.count '\n')
    (hend : back = [] ∨ ∀ c, middle.getLast? = some c → c ≠ '\n' ∧ c ≠ '\r') :
    (∃ line whole, (lines middle)[0]? = some line ∧
        (lines (front ++ middle ++ back))[front.count '\n']? = some whole ∧ line <:+ whole) ∧
      (∃ line whole, (lines middle)[middle.dropLast.count '\n']? = some line ∧
        (lines (front ++ middle ++ back))[front.count '\n' + middle.dropLast.count '\n']? =
          some whole ∧ line <+: whole) ∧
      ∀ k, 0 < k → k < middle.dropLast.count '\n' →
        (lines middle)[k]? = (lines (front ++ middle ++ back))[front.count '\n' + k]? := by
  obtain ⟨above, first, firstWhole, inner, last, lastWhole, below, hwhole, hmiddle, habove, hfirst,
    hlast⟩ := exists_lines_eq hlines hend
  have hne : middle ≠ [] := by
    rintro rfl
    exact absurd hlines (by decide)
  have hinner : middle.dropLast.count '\n' = inner.length + 1 := by
    have hlength := length_lines hne
    rw [hmiddle, List.length_cons, List.length_append, List.length_singleton] at hlength
    exact (Nat.succ.inj hlength).symm
  have hbehind (k : Nat) :
      (above ++ firstWhole :: (inner ++ lastWhole :: below))[above.length + k]? =
        (firstWhole :: (inner ++ lastWhole :: below))[k]? := by
    rw [List.getElem?_append_right (Nat.le_add_right _ _), Nat.add_sub_cancel_left]
  rw [hwhole, hmiddle, ← habove, hinner]
  refine ⟨⟨first, firstWhole, rfl, hbehind 0, hfirst⟩, ⟨last, lastWhole, ?_, ?_, hlast⟩, ?_⟩
  · rw [List.getElem?_cons_succ, List.getElem?_concat_length]
  · rw [hbehind, List.getElem?_cons_succ, List.getElem?_append_right (Nat.le_refl _), Nat.sub_self]
    rfl
  · rintro (_ | k) hpos hlt
    · exact absurd hpos (Nat.lt_irrefl 0)
    · have hk : k < inner.length := Nat.lt_of_succ_lt_succ hlt
      rw [hbehind, List.getElem?_cons_succ, List.getElem?_cons_succ, List.getElem?_append_left hk,
        List.getElem?_append_left hk]

end PropertyIndex.Text
