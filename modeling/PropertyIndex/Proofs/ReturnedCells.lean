import PropertyIndex.Proofs.BlockEnd
import PropertyIndex.Proofs.BlockPosition
import PropertyIndex.Proofs.LineEnd

/-!
# Cells with carriage returns

A carriage return in front of a line feed belongs to the code, the literal or the comment in front
of it, and the masking of the rest goes on as without it.  Only a backslash at the end of a line
could take it away from its line feed.

* `ReturnedCells`: cells of which some have a carriage return in front of their line feeds.
* `returnedCells_maskFrom`: the cells of a text with carriage returns.
* `blind_shown`, `unseen_shown`: tests on what cells show.
* `source_returned`, `visible_returned`, `shownText_returned`: the texts that such cells stand for.
-/

namespace PropertyIndex.Source

open Text

/-! ## Masking -/

/-- A line feed in any part of a text. -/
def Cell.IsFeed (cell : Cell) : Prop :=
  cell.char = '\n'

theorem Cell.isFeed (part : Part) : (⟨'\n', part⟩ : Cell).IsFeed :=
  rfl

/-- A single carriage return in any part of a text. -/
def IsReturn (cells : List Cell) : Prop :=
  ∃ part, cells = [⟨'\r', part⟩]

/-- The second list of cells has a carriage return in front of each line feed.  It belongs to what
is in front of it, so in a comment or in a literal it is hidden. -/
abbrev ReturnedCells : List Cell → List Cell → Prop :=
  Padded Cell.IsFeed IsReturn

theorem returnedCells_feed {cells others : List Cell} {feed : Cell} (hfeed : feed.IsFeed)
    (part : Part) (h : ReturnedCells cells others) :
    ReturnedCells (feed :: cells) (⟨'\r', part⟩ :: feed :: others) :=
  @Padded.pad _ _ _ feed [⟨'\r', part⟩] _ _ hfeed ⟨part, rfl⟩ h

/-- Carriage returns make no difference to what a region does with the text in front of them. -/
def Region.IsBlindTo (text : List Char) : Region → Prop
  | .literal quote => quote ≠ '\r'
  | .escaped quote => quote ≠ '\r' ∧ text.head? ≠ some '\n'
  | _ => True

/-- A sign of two characters is in a text with carriage returns only if it is there without. -/
theorem not_sign_withReturns {c first second : Char} {text : List Char} (hsecond : second ≠ '\r')
    (h : ∀ more, c = first → text = second :: more → False) (more : List Char) (hc : c = first)
    (hmore : withReturns text = second :: more) : False := by
  cases text with
  | nil => exact absurd hmore.symm (List.cons_ne_nil _ _)
  | cons d text =>
    by_cases hd : d = '\n'
    · subst hd
      rw [withReturns_feed] at hmore
      exact hsecond (List.cons.inj hmore).1.symm
    · rw [withReturns_cons hd] at hmore
      obtain ⟨rfl, -⟩ := List.cons.inj hmore
      exact h text hc rfl

theorem returnedCells_cons {cells others : List Cell} {c : Char} (hc : c ≠ '\n') (part : Part)
    (h : ReturnedCells cells others) : ReturnedCells (⟨c, part⟩ :: cells) (⟨c, part⟩ :: others) :=
  .keep hc h

/-- Outside of literals every text is read alike. -/
theorem isBlindTo_code (c : Char) {text : List Char} :
    Region.IsBlindTo text (if c == '"' || c == '\'' then .literal c else .code) := by
  split_ifs with h
  · rw [Bool.or_eq_true, beq_iff_eq, beq_iff_eq] at h
    rintro rfl
    exact absurd h (by decide)
  · exact trivial

theorem maskFrom_blockComment_cons {c : Char} (hc : c ≠ '*') (text : List Char) :
    maskFrom .blockComment (c :: text) = ⟨c, .comment⟩ :: maskFrom .blockComment text := by
  rw [maskFrom]
  exact fun _ hstar => absurd hstar hc

/-- A carriage return in front of a line feed belongs to its region and leaves it open. -/
theorem exists_maskFrom_return {region : Region} {text : List Char}
    (h : region.IsBlindTo ('\n' :: text)) :
    ∃ part, ∀ more, maskFrom region ('\r' :: '\n' :: more) =
      ⟨'\r', part⟩ :: maskFrom region ('\n' :: more) := by
  cases region with
  | code =>
    have hreturn : IsPlain '\r' := by decide
    exact ⟨.code, fun more => (maskFrom_code_cons hreturn _).1⟩
  | literal quote =>
    have hreturn : ¬('\r' == quote || '\r' == '\n') = true := by
      rw [Bool.or_eq_true, beq_iff_eq, not_or]
      exact ⟨h.symm, by decide⟩
    refine ⟨.literal, fun more => ?_⟩
    rw [maskFrom, if_neg hreturn, if_neg (by decide)]
  | escaped quote => exact absurd rfl h.2
  | lineComment =>
    refine ⟨.comment, fun more => ?_⟩
    rw [maskFrom, if_neg (by decide)]
  | blockComment => exact ⟨.comment, fun more => maskFrom_blockComment_cons (by decide) _⟩

/-- A line feed is masked as it is without the carriage return in front of it. -/
theorem returnedCells_maskFrom_feed {region next : Region} {text : List Char} {part : Part}
    (hregion : region.IsBlindTo ('\n' :: text))
    (hfeed : ∀ more, maskFrom region ('\n' :: more) = ⟨'\n', part⟩ :: maskFrom next more)
    (hrest : ReturnedCells (maskFrom next text) (maskFrom next (withReturns text))) :
    ReturnedCells (⟨'\n', part⟩ :: maskFrom next text)
      (maskFrom region (withReturns ('\n' :: text))) := by
  obtain ⟨behind, hreturn⟩ := exists_maskFrom_return hregion
  rw [withReturns_feed, hreturn, hfeed]
  exact returnedCells_feed (Cell.isFeed _) _ hrest

/-- A text with carriage returns is masked as it is without them. -/
theorem returnedCells_maskFrom {region : Region} {text : List Char}
    (htext : HasPlainLineEnds text) (hregion : region.IsBlindTo text) :
    ReturnedCells (maskFrom region text) (maskFrom region (withReturns text)) := by
  fun_induction maskFrom region text with
  | case1 region =>
    rw [withReturns, maskFrom]
    exact .nil
  -- A sign of two characters begins or ends a comment.
  | case2 text ih | case3 text ih | case10 text ih =>
    rw [withReturns_cons (by decide), withReturns_cons (by decide), maskFrom]
    have hrest := ih htext.of_cons.of_cons trivial
    exact returnedCells_cons (by decide) _ (returnedCells_cons (by decide) _ hrest)
  | case4 c text hline hblock ih =>
    have hrest := ih htext.of_cons (isBlindTo_code c)
    by_cases hc : c = '\n'
    · subst hc
      have hfeed : IsPlain '\n' := by decide
      exact returnedCells_maskFrom_feed hregion (fun _ => (maskFrom_code_cons hfeed _).1) hrest
    · rw [withReturns_cons hc, maskFrom]
      · exact returnedCells_cons hc _ hrest
      · exact not_sign_withReturns (by decide) hline
      · exact not_sign_withReturns (by decide) hblock
  | case5 quote c text h ih =>
    have hrest := ih htext.of_cons trivial
    by_cases hc : c = '\n'
    · subst hc
      exact returnedCells_maskFrom_feed hregion (fun _ => by rw [maskFrom, if_pos h]) hrest
    · rw [withReturns_cons hc, maskFrom, if_pos h]
      exact returnedCells_cons hc _ hrest
  | case6 quote c text h ih =>
    have hc : c ≠ '\n' := by
      rintro rfl
      exact h (by simp)
    have hnext : (if c == '\\' then Region.escaped quote else .literal quote).IsBlindTo text := by
      split_ifs with hescape
      · refine ⟨hregion, fun hfeed => htext.no_escape ?_⟩
        obtain ⟨more, rfl⟩ := List.head?_eq_some_iff.1 hfeed
        rw [beq_iff_eq.1 hescape]
        exact ⟨[], more, rfl⟩
      · exact hregion
    rw [withReturns_cons hc, maskFrom, if_neg h]
    exact returnedCells_cons hc _ (ih htext.of_cons hnext)
  | case7 quote c text ih =>
    have hc : c ≠ '\n' := fun hfeed => hregion.2 (congrArg some hfeed)
    rw [withReturns_cons hc, maskFrom]
    exact returnedCells_cons hc _ (ih htext.of_cons hregion.1)
  | case8 c text h ih =>
    obtain rfl := beq_iff_eq.1 h
    exact returnedCells_maskFrom_feed hregion (fun _ => by rw [maskFrom, if_pos h])
      (ih htext.of_cons trivial)
  | case9 c text h ih =>
    have hc : c ≠ '\n' := by rwa [beq_iff_eq] at h
    rw [withReturns_cons hc, maskFrom, if_neg h]
    exact returnedCells_cons hc _ (ih htext.of_cons trivial)
  | case11 c text hend ih =>
    have hrest := ih htext.of_cons trivial
    by_cases hc : c = '\n'
    · subst hc
      exact returnedCells_maskFrom_feed hregion (maskFrom_blockComment_cons (by decide)) hrest
    · rw [withReturns_cons hc, maskFrom]
      · exact returnedCells_cons hc _ hrest
      · exact not_sign_withReturns (by decide) hend

/-! ## What cells show -/

theorem Cell.shown_of_feed {cell : Cell} (h : cell.char = '\n') : cell.shown = '\n' := by
  rw [Cell.shown, Cell.shows, h]
  exact if_pos (Bool.or_true _)

theorem Cell.shown_of_return (part : Part) :
    (⟨'\r', part⟩ : Cell).shown = '\r' ∨ (⟨'\r', part⟩ : Cell).shown = ' ' := by
  cases part with
  | code => exact Or.inl rfl
  | literal => exact Or.inr rfl
  | comment => exact Or.inr rfl

theorem Cell.shown_ne_feed {cell : Cell} (h : cell.char ≠ '\n') : cell.shown ≠ '\n' := by
  rw [Cell.shown]
  split_ifs
  · exact h
  · decide

section Tests

variable {q : Char → Bool}

/-- A test on what cells show does not see carriage returns when it does not tell the three blanks
apart that may be shown at a line end. -/
theorem blind_shown (hreturn : q '\r' = q '\n') (hspace : q ' ' = q '\n') :
    Blind Cell.IsFeed IsReturn fun cell => q cell.shown := by
  rintro pad x ⟨part, rfl⟩ hx y hy
  show q y.shown = q x.shown
  rw [List.mem_singleton.1 hy, Cell.shown_of_feed hx]
  rcases Cell.shown_of_return part with hshown | hshown
  · rw [hshown, hreturn]
  · rw [hshown, hspace]

theorem unseen_shown (hfeed : q '\n' = false) (hreturn : q '\r' = false)
    (hspace : q ' ' = false) : Unseen Cell.IsFeed IsReturn fun cell => q cell.shown where
  of_isBreak := fun x hx => by rw [Cell.shown_of_feed hx, hfeed]
  of_isPad := by
    rintro pad ⟨part, rfl⟩ y hy
    show q y.shown = false
    rw [List.mem_singleton.1 hy]
    rcases Cell.shown_of_return part with hshown | hshown
    · rw [hshown, hreturn]
    · rw [hshown, hspace]

end Tests

section Shown

variable {cells others : List Cell}

/-- The cells hold a text with carriage returns. -/
theorem source_returned (h : ReturnedCells cells others) :
    source others = withReturns (source cells) := by
  refine eq_withReturns (h.map (fun _ hx => hx) (fun _ hx => hx) ?_)
  rintro pad ⟨part, rfl⟩
  rfl

theorem visible_returned (h : ReturnedCells cells others) :
    Respaced (visible cells) (visible others) := by
  refine h.map (fun _ hx => Cell.shown_ne_feed hx) (fun _ hx => Cell.shown_of_feed hx) ?_
  rintro pad ⟨part, rfl⟩ c hc
  rw [List.mem_singleton.1 hc]
  exact Cell.shown_of_return part

/-- The masked copies differ by blanks in front of line feeds. -/
theorem shownText_returned (h : ReturnedCells cells others) :
    Respaced (shownText cells) (shownText others) := by
  refine h.flatMap ?_ ?_ ?_
  · intro cell hcell c hc
    have hshown : c = cell.shown := by
      rcases cell.shownText_eq with ⟨n, htext, hshown⟩ | htext
      · rw [htext] at hc
        rw [hshown, (List.mem_replicate.1 hc).2]
      · rw [htext] at hc
        exact List.mem_singleton.1 hc
    rw [hshown]
    exact Cell.shown_ne_feed hcell
  · intro cell hcell
    refine ⟨'\n', ?_, rfl⟩
    rw [Cell.shownText, Cell.shows, hcell]
    exact if_pos (Bool.or_true _)
  · rintro pad ⟨part, rfl⟩ c hc
    have hshown : c ∈ visible [⟨'\r', part⟩] := mem_shownText.1 hc
    rw [List.mem_singleton.1 hshown]
    exact Cell.shown_of_return part

end Shown

end PropertyIndex.Source
