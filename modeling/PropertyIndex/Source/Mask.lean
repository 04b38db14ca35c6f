import PropertyIndex.Text.Line

/-!
# The masked copy of a source text

Keywords and delimiters count only in code, not in comments and not inside string literals.  A
source text is therefore read once into cells: each cell is one character together with the part
of the text that it belongs to.  Characters outside the code show as spaces, one for each byte, and
line feeds always show, so the masked copy has the offsets and the lines of the text itself.

* `Part`, `Cell`: a character and the part of the text that it belongs to.
* `Region`: what the reading is inside of.
* `mask`: the cells of a text.
* `source`, `shownText`: the text and the masked copy that cells stand for.
-/

namespace PropertyIndex.Source

open Text

/-- What a character of a source text belongs to. -/
inductive Part where
  /-- The code.  The quotes of a string literal are code. -/
  | code
  /-- The inside of a string literal. -/
  | literal
  /-- A comment, its signs included. -/
  | comment
  deriving DecidableEq, Repr

/-- A character of a source text, with the part that it belongs to. -/
structure Cell where
  char : Char
  part : Part
  deriving DecidableEq, Repr

namespace Cell

/-- Whether a cell shows the character that it holds.  A line feed always does. -/
def shows (cell : Cell) : Bool :=
  cell.part == .code || cell.char == '\n'

/-- The character that a cell shows. -/
def shown (cell : Cell) : Char :=
  if cell.shows then cell.char else ' '

/-- The characters that a cell puts into the masked copy: a hidden one gives a space for each of
its bytes. -/
def shownText (cell : Cell) : List Char :=
  if cell.shows then [cell.char] else List.replicate cell.char.utf8Size ' '

end Cell

/-- The text that cells hold. -/
def source (cells : List Cell) : List Char :=
  cells.map Cell.char

/-- The masked copy that cells show. -/
def shownText (cells : List Cell) : List Char :=
  cells.flatMap Cell.shownText

/-- What a place in a source text is inside of. -/
inductive Region where
  /-- Code, where every character counts. -/
  | code
  /-- A string literal that the given quote opened. -/
  | literal (quote : Char)
  /-- The character after a backslash in such a literal. -/
  | escaped (quote : Char)
  /-- A comment that ends with its line. -/
  | lineComment
  /-- A comment that ends with its own closing sign. -/
  | blockComment
  deriving DecidableEq, Repr

/-- The cells of a text that begins inside a region.  A string literal ends at its quote or with
its line; its quotes stay visible, so that the reading of the masked copy is the same again. -/
def maskFrom : Region → List Char → List Cell
  | _, [] => []
  | .code, '/' :: '/' :: text =>
    ⟨'/', .comment⟩ :: ⟨'/', .comment⟩ :: maskFrom .lineComment text
  | .code, '/' :: '*' :: text =>
    ⟨'/', .comment⟩ :: ⟨'*', .comment⟩ :: maskFrom .blockComment text
  | .code, c :: text =>
    ⟨c, .code⟩ :: maskFrom (if c == '"' || c == '\'' then .literal c else .code) text
  | .literal quote, c :: text =>
    if c == quote || c == '\n' then ⟨c, .code⟩ :: maskFrom .code text
    else ⟨c, .literal⟩ :: maskFrom (if c == '\\' then .escaped quote else .literal quote) text
  | .escaped quote, c :: text =>
    ⟨c, .literal⟩ :: maskFrom (.literal quote) text
  | .lineComment, c :: text =>
    if c == '\n' then ⟨c, .code⟩ :: maskFrom .code text
    else ⟨c, .comment⟩ :: maskFrom .lineComment text
  | .blockComment, '*' :: '/' :: text =>
    ⟨'*', .comment⟩ :: ⟨'/', .comment⟩ :: maskFrom .code text
  | .blockComment, c :: text =>
    ⟨c, .comment⟩ :: maskFrom .blockComment text

/-- The cells of a source text. -/
def mask (text : List Char) : List Cell :=
  maskFrom .code text

/-- Masking keeps every character of the text. -/
theorem source_maskFrom (region : Region) (text : List Char) :
    source (maskFrom region text) = text := by
  fun_induction maskFrom region text <;> simp_all [source]

/-- The cells of a text hold the text. -/
@[simp] theorem source_mask (text : List Char) : source (mask text) = text :=
  source_maskFrom .code text

end PropertyIndex.Source
