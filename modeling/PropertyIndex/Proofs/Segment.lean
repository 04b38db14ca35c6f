import Mathlib.Data.List.Infix
import PropertyIndex.Proofs.Masking

/-!
# Masking a text segment by segment

A source text is a sequence of segments: code, comments and string literals.  The reading that
masks it tracks four regions with signs that mean something else in each of them, and yet it is
back in code at every seam, so each segment shows the same wherever it stands.

* `IsCode`, `LiteralUnit`, `Segment`: the segments, with what each of them may hold.
* `textOf`, `EndsLines`: the text of a sequence, in which every line comment ends with its line.
* `Segment.shownAs`: what a segment is to show, said without the reading.
* `mask_segment_append`: one segment in front of any text.
* `masked_textOf`: the masked copy of a sequence.
-/

namespace PropertyIndex.Source

open Text

/-! ## Segments -/

/-- Code in which no comment and no string literal begins, also not together with what follows. -/
structure IsCode (text : List Char) : Prop where
  no_quote : ∀ c ∈ text, c ≠ '"' ∧ c ≠ '\''
  no_line : ¬ ['/', '/'] <:+: text
  no_block : ¬ ['/', '*'] <:+: text
  last : text.getLast? ≠ some '/'

instance (text : List Char) : Decidable (IsCode text) :=
  have := List.decidableBAll (fun c => c ≠ '"' ∧ c ≠ '\'') text
  decidable_of_iff ((∀ c ∈ text, c ≠ '"' ∧ c ≠ '\'') ∧ ¬ ['/', '/'] <:+: text ∧
      ¬ ['/', '*'] <:+: text ∧ text.getLast? ≠ some '/')
    ⟨fun h => ⟨h.1, h.2.1, h.2.2.1, h.2.2.2⟩,
      fun h => ⟨h.no_quote, h.no_line, h.no_block, h.last⟩⟩

/-- A unit of the inside of a string literal: a backslash with any character behind it, or a
character that ends neither the literal nor its line. -/
inductive LiteralUnit (quote : Char) where
  | escape (c : Char)
  | plain (c : Char) (h : c ≠ quote ∧ c ≠ '\\' ∧ c ≠ '\n')

/-- The characters of a unit. -/
def LiteralUnit.text {quote : Char} : LiteralUnit quote → List Char
  | .escape c => ['\\', c]
  | .plain c _ => [c]

/-- A segment of a source text. -/
inductive Segment where
  | code (text : List Char) (h : IsCode text)
  | lineComment (text : List Char) (h : '\n' ∉ text)
  | blockComment (text : List Char) (h : ¬ ['*', '/'] <:+: text)
  | literal (quote : Char) (h : quote = '"' ∨ quote = '\'') (inside : List (LiteralUnit quote))

namespace Segment

/-- The characters of a segment, its signs included. -/
def text : Segment → List Char
  | code text _ => text
  | lineComment text _ => '/' :: '/' :: text
  | blockComment text _ => '/' :: '*' :: (text ++ ['*', '/'])
  | literal quote _ inside => quote :: (inside.flatMap LiteralUnit.text ++ [quote])

end Segment

/-- The text of a sequence of segments. -/
def textOf (segments : List Segment) : List Char :=
  segments.flatMap Segment.text

/-- Behind every line comment the text is at its end or a line feed follows. -/
def EndsLines : List Segment → Prop
  | [] => True
  | .lineComment _ _ :: segments =>
    (textOf segments = [] ∨ (textOf segments).head? = some '\n') ∧ EndsLines segments
  | _ :: segments => EndsLines segments

/-! ## What segments show -/

/-- A text with each byte made a space, except for line feeds. -/
def blanked (text : List Char) : List Char :=
  text.flatMap fun c => if c = '\n' then ['\n'] else List.replicate c.utf8Size ' '

/-- What a segment shows: code is left as it is, comments are blanked, and string literals are
blanked between their quotes. -/
def Segment.shownAs : Segment → List Char
  | code text _ => text
  | lineComment text _ => blanked ('/' :: '/' :: text)
  | blockComment text _ => blanked ('/' :: '*' :: (text ++ ['*', '/']))
  | literal quote _ inside => quote :: (blanked (inside.flatMap LiteralUnit.text) ++ [quote])

/-- The cells of a text that belongs to one part. -/
def cellsOf (part : Part) (text : List Char) : List Cell :=
  text.map (⟨·, part⟩)

theorem shownText_cellsOf_code (text : List Char) : shownText (cellsOf .code text) = text := by
  induction text with
  | nil => rfl
  | cons c text ih => exact congrArg (c :: ·) ih

theorem visible_cellsOf_code (text : List Char) : visible (cellsOf .code text) = text := by
  rw [cellsOf, visible, List.map_map]
  exact List.map_id text

theorem source_cellsOf (part : Part) (text : List Char) : source (cellsOf part text) = text := by
  rw [cellsOf, source, List.map_map]
  exact List.map_id text

/-- Outside the code a text shows line feeds and otherwise blanks. -/
theorem shownText_cellsOf {part : Part} (h : part ≠ .code) (text : List Char) :
    shownText (cellsOf part text) = blanked text := by
  induction text with
  | nil => rfl
  | cons c text ih =>
    have hcell : (Cell.mk c part).shownText =
        if c = '\n' then ['\n'] else List.replicate c.utf8Size ' ' := by
      have hshows : (Cell.mk c part).shows = (c == '\n') := by
        rw [Cell.shows, beq_false_of_ne h, Bool.false_or]
      rw [Cell.shownText, hshows]
      by_cases hc : c = '\n'
      · subst hc
        rfl
      · rw [if_neg (by rwa [beq_iff_eq]), if_neg hc]
    show (Cell.mk c part).shownText ++ shownText (cellsOf part text) = _
    rw [hcell, ih, blanked, blanked, List.flatMap_cons]

/-- The cells of a segment. -/
def Segment.cells : Segment → List Cell
  | code text _ => cellsOf .code text
  | lineComment text _ => cellsOf .comment ('/' :: '/' :: text)
  | blockComment text _ => cellsOf .comment ('/' :: '*' :: (text ++ ['*', '/']))
  | literal quote _ inside =>
    ⟨quote, .code⟩ :: (cellsOf .literal (inside.flatMap LiteralUnit.text) ++ [⟨quote, .code⟩])

theorem Segment.shownText_cells (segment : Segment) :
    Source.shownText segment.cells = segment.shownAs := by
  cases segment with
  | code text h => exact shownText_cellsOf_code text
  | lineComment text h => exact shownText_cellsOf (by decide) _
  | blockComment text h => exact shownText_cellsOf (by decide) _
  | literal quote h inside =>
    show quote :: Source.shownText (cellsOf .literal _ ++ [⟨quote, .code⟩]) = _
    rw [shownText_append, shownText_cellsOf (by decide)]
    rfl

/-! ## Reading a segment -/

section Reading

variable {text rest : List Char}

theorem IsCode.tail {c : Char} (h : IsCode (c :: text)) : IsCode text where
  no_quote := fun d hd => h.no_quote d (List.mem_cons_of_mem _ hd)
  no_line := fun hpart => h.no_line (hpart.trans (List.infix_cons (List.infix_refl text)))
  no_block := fun hpart => h.no_block (hpart.trans (List.infix_cons (List.infix_refl text)))
  last := getLast?_ne_of_cons h.last

/-- Code is read as code.  Its slashes have their neighbours inside it. -/
theorem maskFrom_code_append (h : IsCode text) :
    maskFrom .code (text ++ rest) = cellsOf .code text ++ maskFrom .code rest := by
  induction text with
  | nil => rfl
  | cons c text ih =>
    have hquote : ¬(c == '"' || c == '\'') = true := by
      rw [Bool.or_eq_true, beq_iff_eq, beq_iff_eq, not_or]
      exact h.no_quote c List.mem_cons_self
    have hline : ∀ more, c = '/' → text = '/' :: more → False := by
      rintro more rfl rfl
      exact h.no_line ⟨[], more, rfl⟩
    have hblock : ∀ more, c = '/' → text = '*' :: more → False := by
      rintro more rfl rfl
      exact h.no_block ⟨[], more, rfl⟩
    have hne : c = '/' → text ≠ [] := by
      rintro rfl rfl
      exact h.last rfl
    have hline' := neighbour_append hline hne rest
    have hblock' := neighbour_append hblock hne rest
    rw [List.cons_append, maskFrom, if_neg hquote, ih h.tail]
    · rfl
    all_goals assumption

/-- A line comment is read up to the end of its line. -/
theorem maskFrom_lineComment_append (h : '\n' ∉ text)
    (hrest : rest = [] ∨ rest.head? = some '\n') :
    maskFrom .lineComment (text ++ rest) = cellsOf .comment text ++ maskFrom .code rest := by
  induction text with
  | nil =>
    rcases hrest with rfl | hhead
    · rfl
    · obtain ⟨more, rfl⟩ := List.head?_eq_some_iff.1 hhead
      have hfeed : IsPlain '\n' := by decide
      show maskFrom .lineComment ('\n' :: more) = maskFrom .code ('\n' :: more)
      rw [(maskFrom_code_cons hfeed more).1]
      rfl
  | cons c text ih =>
    rw [List.mem_cons, not_or] at h
    obtain ⟨hc, htext⟩ := h
    rw [List.cons_append, maskFrom, if_neg (by rw [beq_iff_eq]; exact Ne.symm hc), ih htext]
    rfl

/-- A block comment is read up to the first sign that closes it, which is the one behind it. -/
theorem maskFrom_blockComment_append (h : ¬ ['*', '/'] <:+: text) :
    maskFrom .blockComment (text ++ '*' :: '/' :: rest) =
      cellsOf .comment (text ++ ['*', '/']) ++ maskFrom .code rest := by
  induction text with
  | nil => rfl
  | cons c text ih =>
    have hopen : ∀ more, c = '*' → text ++ '*' :: '/' :: rest = '/' :: more → False := by
      rintro more rfl hmore
      cases text with
      | nil => exact absurd (List.cons.inj hmore).1 (by decide)
      | cons d text =>
        obtain rfl := (List.cons.inj hmore).1
        exact h ⟨[], text, rfl⟩
    have htext : ¬ ['*', '/'] <:+: text := fun hpart =>
      h (hpart.trans (List.infix_cons (List.infix_refl text)))
    rw [List.cons_append, maskFrom, ih htext]
    · rfl
    · exact hopen

/-- A string literal is read up to its quote, since every other quote in it is escaped. -/
theorem maskFrom_literal_append {quote : Char} (hquote : quote = '"' ∨ quote = '\'')
    (inside : List (LiteralUnit quote)) :
    maskFrom (.literal quote) (inside.flatMap LiteralUnit.text ++ quote :: rest) =
      cellsOf .literal (inside.flatMap LiteralUnit.text) ++
        ⟨quote, .code⟩ :: maskFrom .code rest := by
  induction inside with
  | nil =>
    rw [List.flatMap_nil, List.nil_append, maskFrom, beq_self_eq_true, Bool.true_or, if_pos rfl]
    rfl
  | cons unit inside ih =>
    rw [List.flatMap_cons, List.append_assoc]
    cases unit with
    | escape c =>
      have hends : ¬('\\' == quote || '\\' == '\n') = true := by
        rcases hquote with rfl | rfl <;> decide
      rw [LiteralUnit.text, List.cons_append, List.cons_append, List.nil_append, maskFrom,
        if_neg hends, if_pos (beq_self_eq_true _), maskFrom, ih]
      rfl
    | plain c hc =>
      obtain ⟨hne, hslash, hfeed⟩ := hc
      have hends : ¬(c == quote || c == '\n') = true := by
        rw [Bool.or_eq_true, beq_iff_eq, beq_iff_eq, not_or]
        exact ⟨hne, hfeed⟩
      rw [LiteralUnit.text, List.cons_append, List.nil_append, maskFrom, if_neg hends,
        if_neg (by rwa [beq_iff_eq]), ih]
      rfl

/-- A segment is read in the same way in front of every text, except that a line has to end behind
a line comment. -/
theorem mask_segment_append (segment : Segment)
    (hrest : ∀ text h, segment = .lineComment text h → rest = [] ∨ rest.head? = some '\n') :
    mask (segment.text ++ rest) = segment.cells ++ mask rest := by
  cases segment with
  | code text h => exact maskFrom_code_append h
  | lineComment text h =>
    show maskFrom .code ('/' :: '/' :: (text ++ rest)) = _
    rw [maskFrom, maskFrom_lineComment_append h (hrest text h rfl)]
    rfl
  | blockComment text h =>
    show maskFrom .code ('/' :: '*' :: (text ++ ['*', '/'] ++ rest)) = _
    rw [maskFrom, List.append_assoc]
    exact congrArg (fun cells => _ :: _ :: cells) (maskFrom_blockComment_append h)
  | literal quote h inside =>
    have hquote : (quote == '"' || quote == '\'') = true := by
      rcases h with rfl | rfl <;> decide
    have hslash : ∀ more : List Char, quote = '/' → False := by
      rintro - rfl
      exact absurd h (by decide)
    show maskFrom .code (quote :: (inside.flatMap LiteralUnit.text ++ [quote] ++ rest)) = _
    rw [maskFrom, if_pos hquote, List.append_assoc, List.singleton_append,
      maskFrom_literal_append h inside]
    · show _ = ⟨quote, .code⟩ :: (cellsOf .literal _ ++ [⟨quote, .code⟩]) ++ mask rest
      rw [List.cons_append, List.append_assoc]
      rfl
    · exact fun more hc _ => hslash more hc
    · exact fun more hc _ => hslash more hc

end Reading

/-! ## Sequences of segments -/

theorem EndsLines.head {segment : Segment} {segments : List Segment}
    (h : EndsLines (segment :: segments)) :
    ∀ text hfeed, segment = .lineComment text hfeed →
      textOf segments = [] ∨ (textOf segments).head? = some '\n' := by
  rintro text hfeed rfl
  exact h.1

theorem EndsLines.tail {segment : Segment} {segments : List Segment}
    (h : EndsLines (segment :: segments)) : EndsLines segments := by
  cases segment with
  | lineComment text hfeed => exact h.2
  | code text hcode => exact h
  | blockComment text hclose => exact h
  | literal quote hquote inside => exact h

/-- The masked copy of a sequence of segments is made of what they show one by one: the code as it
is, the comments blanked, and the string literals blanked between their quotes. -/
theorem masked_textOf (segments : List Segment) (h : EndsLines segments) :
    masked (textOf segments) = segments.flatMap Segment.shownAs := by
  induction segments with
  | nil => rfl
  | cons segment segments ih =>
    have hseam : mask (segment.text ++ textOf segments) = segment.cells ++ mask (textOf segments) :=
      mask_segment_append segment h.head
    calc masked (textOf (segment :: segments))
        = shownText (segment.cells ++ mask (textOf segments)) := by
          rw [← hseam, masked, textOf, List.flatMap_cons, textOf]
      _ = segment.shownAs ++ masked (textOf segments) := by
          rw [shownText_append, segment.shownText_cells, masked]
      _ = (segment :: segments).flatMap Segment.shownAs := by
          rw [ih h.tail, List.flatMap_cons]

/-- Signs of each kind inside segments of the others: a literal with comment signs, an escaped
quote, an escaped line feed and a character of two bytes, comments that end in stars and slashes,
and a line comment with a quote and an opening sign. -/
def tangledSegments : List Segment :=
  [.code "a / b*".toList (by decide),
   .literal '"' (.inl rfl)
    [.plain '/' (by decide), .plain '*' (by decide), .escape '"', .escape '\n',
     .plain 'é' (by decide), .escape '\\'],
   .blockComment "/".toList (by decide),
   .blockComment "*\n'*".toList (by decide),
   .lineComment " it's /*".toList (by decide),
   .code "\nb".toList (by decide),
   .literal '\'' (.inr rfl) [.plain '"' (by decide)],
   .lineComment [] (by decide)]

theorem masked_textOf_tangledSegments :
    EndsLines tangledSegments ∧
      textOf tangledSegments =
        "a / b*\"/*\\\"\\\né\\\\\"/*/*//**\n'**/// it's /*\nb'\"'//".toList ∧
      masked (textOf tangledSegments) =
        "a / b*\"     \n    \"        \n              \nb' '  ".toList := by
  have hlines : EndsLines tangledSegments := ⟨Or.inr rfl, Or.inl rfl, trivial⟩
  exact ⟨hlines, by decide, (masked_textOf tangledSegments hlines).trans (by decide)⟩

end PropertyIndex.Source
