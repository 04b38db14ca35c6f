import PropertyIndex.Proofs.LineSpan
import PropertyIndex.Proofs.Padding

/-!
# The two kinds of line end

A text with line feeds at its line ends, and the same text with a carriage return in front of each
of them.  The lines of the two are the same, and so are the numbers of lines.

* `withReturns`: the text with carriage returns.
* `HasPlainLineEnds`: a text for which the two are the same source text.
* `padded_withReturns`, `eq_withReturns`: carriage returns as padding.
* `count_withReturns`, `width_withReturns`, `lines_withReturns`: what carriage returns change.
* `Respaced`: the same for a masked copy, in which a carriage return may be hidden.
-/

namespace PropertyIndex.Text

/-- A text with a carriage return put in front of every line feed. -/
def withReturns : List Char → List Char
  | [] => []
  | c :: text => if c = '\n' then '\r' :: '\n' :: withReturns text else c :: withReturns text

/-- A text without carriage returns, in which no backslash stands in front of a line feed.  A
backslash of a string literal would protect a carriage return that comes between the two, but not
the line feed. -/
structure HasPlainLineEnds (text : List Char) : Prop where
  no_return : '\r' ∉ text
  no_escape : ¬['\\', '\n'] <:+: text

instance (text : List Char) : Decidable (HasPlainLineEnds text) :=
  decidable_of_iff ('\r' ∉ text ∧ ¬['\\', '\n'] <:+: text)
    ⟨fun h => ⟨h.1, h.2⟩, fun h => ⟨h.no_return, h.no_escape⟩⟩

theorem HasPlainLineEnds.of_cons {c : Char} {text : List Char}
    (h : HasPlainLineEnds (c :: text)) : HasPlainLineEnds text where
  no_return := fun hmem => h.no_return (List.mem_cons_of_mem _ hmem)
  no_escape := fun hinfix => h.no_escape (List.infix_cons hinfix)

/-- A carriage return as the padding of a line feed. -/
abbrev Returned : List Char → List Char → Prop :=
  Padded (· = '\n') (· = ['\r'])

theorem withReturns_feed (text : List Char) :
    withReturns ('\n' :: text) = '\r' :: '\n' :: withReturns text :=
  if_pos rfl

theorem withReturns_cons {c : Char} (h : c ≠ '\n') (text : List Char) :
    withReturns (c :: text) = c :: withReturns text :=
  if_neg h

theorem returned_withReturns (text : List Char) : Returned text (withReturns text) := by
  induction text with
  | nil => exact .nil
  | cons c text ih =>
    by_cases hc : c = '\n'
    · subst hc
      rw [withReturns_feed]
      exact @Padded.pad _ _ (· = ['\r']) '\n' ['\r'] _ _ rfl rfl ih
    · rw [withReturns_cons hc]
      exact .keep hc ih

theorem eq_withReturns {text padded : List Char} (h : Returned text padded) :
    padded = withReturns text := by
  induction h with
  | nil => rfl
  | keep hc _ ih => rw [withReturns_cons hc, ih]
  | pad hc hpad _ ih =>
    subst hc hpad
    rw [withReturns_feed, ih]
    rfl

theorem withReturns_append (front back : List Char) :
    withReturns (front ++ back) = withReturns front ++ withReturns back :=
  (eq_withReturns ((returned_withReturns front).append (returned_withReturns back))).symm

/-! ## Counts -/

/-- Carriage returns do not change the number of line feeds. -/
theorem count_withReturns (text : List Char) : (withReturns text).count '\n' = text.count '\n' := by
  induction text with
  | nil => rfl
  | cons c text ih =>
    by_cases hc : c = '\n'
    · subst hc
      rw [withReturns_feed, List.count_cons_of_ne (by decide), List.count_cons_self,
        List.count_cons_self, ih]
    · rw [withReturns_cons hc, List.count_cons_of_ne hc, List.count_cons_of_ne hc, ih]

/-- Without the last character as well. -/
theorem count_dropLast_withReturns (text : List Char) :
    (withReturns text).dropLast.count '\n' = text.dropLast.count '\n' := by
  rcases List.eq_nil_or_concat' text with rfl | ⟨init, c, rfl⟩
  · rfl
  · rw [withReturns_append, List.dropLast_concat]
    by_cases hc : c = '\n'
    · subst hc
      show (withReturns init ++ ['\r', '\n']).dropLast.count '\n' = _
      rw [List.dropLast_append_of_ne_nil (List.cons_ne_nil _ _), List.count_append,
        count_withReturns]
      rfl
    · rw [withReturns_cons hc]
      show (withReturns init ++ [c]).dropLast.count '\n' = _
      rw [List.dropLast_concat, count_withReturns]

/-- Each carriage return takes up one byte. -/
theorem width_withReturns (text : List Char) :
    width (withReturns text) = width text + text.count '\n' := by
  induction text with
  | nil => rfl
  | cons c text ih =>
    by_cases hc : c = '\n'
    · subst hc
      have hreturn : '\r'.utf8Size = 1 := by decide
      rw [withReturns_feed, List.count_cons_self, width, width, width, ih, hreturn]
      omega
    · rw [withReturns_cons hc, List.count_cons_of_ne hc, width, width, ih, Nat.add_assoc]

/-! ## Lines -/

/-- Pieces with a carriage return at the end of each but the last one. -/
def returnPieces : List (List Char) → List (List Char)
  | [] => []
  | [last] => [last]
  | piece :: rest => (piece ++ ['\r']) :: returnPieces rest

theorem pieces_withReturns (text : List Char) :
    pieces '\n' (withReturns text) = returnPieces (pieces '\n' text) := by
  induction text with
  | nil => rfl
  | cons c text ih =>
    obtain ⟨first, rest, hpieces⟩ := List.exists_cons_of_ne_nil (pieces_ne_nil '\n' text)
    rw [hpieces] at ih
    by_cases hc : c = '\n'
    · subst hc
      simp only [withReturns_feed, pieces, ih, hpieces]
      rfl
    · have hne : (c == '\n') = false := beq_eq_false_iff_ne.2 hc
      cases rest with
      | nil =>
        simp only [withReturns_cons hc, pieces, hne, ih, hpieces]
        rfl
      | cons next rest =>
        simp only [withReturns_cons hc, pieces, hne, ih, hpieces]
        rfl

theorem dropCarriageReturn_concat (piece : List Char) :
    dropCarriageReturn (piece ++ ['\r']) = piece := by
  rw [dropCarriageReturn, List.getLast?_concat, List.dropLast_concat]
  rfl

theorem dropCarriageReturn_of_notMem {piece : List Char} (h : '\r' ∉ piece) :
    dropCarriageReturn piece = piece := by
  refine if_neg ?_
  rw [beq_iff_eq]
  exact fun hlast => h (List.mem_of_getLast? hlast)

theorem linesOfPieces_returnPieces {pieces : List (List Char)}
    (h : ∀ piece ∈ pieces, '\r' ∉ piece) :
    linesOfPieces (returnPieces pieces) = linesOfPieces pieces := by
  induction pieces with
  | nil => rfl
  | cons piece rest ih =>
    obtain ⟨hpiece, hrest⟩ := List.forall_mem_cons.1 h
    cases rest with
    | nil => rfl
    | cons next rest =>
      have hne : returnPieces (next :: rest) ≠ [] := by
        cases rest with
        | nil => exact List.cons_ne_nil _ _
        | cons => exact List.cons_ne_nil _ _
      obtain ⟨first, more, hmore⟩ := List.exists_cons_of_ne_nil hne
      have hlines : linesOfPieces (returnPieces (piece :: next :: rest)) =
          dropCarriageReturn (piece ++ ['\r']) :: linesOfPieces (returnPieces (next :: rest)) := by
        show linesOfPieces ((piece ++ ['\r']) :: returnPieces (next :: rest)) = _
        rw [hmore]
        rfl
      rw [hlines, ih hrest, dropCarriageReturn_concat]
      show piece :: _ = dropCarriageReturn piece :: _
      rw [dropCarriageReturn_of_notMem hpiece]

/-- Carriage returns at the line ends do not change the lines of a text that has no others. -/
theorem lines_withReturns {text : List Char} (h : '\r' ∉ text) :
    lines (withReturns text) = lines text := by
  rw [lines, pieces_withReturns]
  exact linesOfPieces_returnPieces fun piece hpiece hmem => h (mem_of_mem_pieces hpiece hmem)

/-! ## Blanks at line ends -/

/-- Blanks as a masked copy may show them in front of a line feed. -/
def IsGap (text : List Char) : Prop :=
  ∀ c ∈ text, c = '\r' ∨ c = ' '

/-- The second text has blanks in front of its line feeds. -/
abbrev Respaced : List Char → List Char → Prop :=
  Padded (· = '\n') IsGap

theorem unseen_respaced {q : Char → Bool} (hfeed : q '\n' = false) (hreturn : q '\r' = false)
    (hspace : q ' ' = false) : Unseen (· = '\n') IsGap q where
  of_isBreak := fun x hx => by rw [hx, hfeed]
  of_isPad := by
    intro pad hpad y hy
    rcases hpad y hy with rfl | rfl
    · exact hreturn
    · exact hspace

theorem blind_respaced {q : Char → Bool} (hreturn : q '\r' = q '\n')
    (hspace : q ' ' = q '\n') : Blind (· = '\n') IsGap q := by
  rintro pad x hpad rfl y hy
  rcases hpad y hy with rfl | rfl
  · exact hreturn
  · exact hspace

theorem unseen_isIdentChar : Unseen (· = '\n') IsGap isIdentChar :=
  unseen_respaced (by decide) (by decide) (by decide)

theorem blind_isBlank : Blind (· = '\n') IsGap isBlank :=
  blind_respaced (by decide) (by decide)

theorem blind_isAsciiBlank : Blind (· = '\n') IsGap isAsciiBlank :=
  blind_respaced (by decide) (by decide)

/-- Carriage returns are blanks in front of line feeds. -/
theorem respaced_withReturns (text : List Char) : Respaced text (withReturns text) := by
  refine (returned_withReturns text).mono ?_
  rintro pad rfl c hc
  exact Or.inl (List.mem_singleton.1 hc)

end PropertyIndex.Text
