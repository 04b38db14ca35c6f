/-!
# Lines and pieces

* `pieces`: a text cut at every occurrence of a separator.
* `lines`: the lines of a text.  A final line feed opens no further line, and a carriage return
  before a line feed belongs to the line end.
* `lineNumber`: the number of the line on which a stretch of text ends.
* `joinLines`: lines put together with line feeds.
* `width`: the length of a text in bytes of its UTF-8 form.
* `beforeOffset`: the characters that begin before a byte offset.
-/

namespace PropertyIndex.Text

/-- A text cut at every occurrence of a separator; there is always at least one piece. -/
def pieces (separator : Char) : List Char → List (List Char)
  | [] => [[]]
  | c :: text =>
    if c == separator then [] :: pieces separator text
    else
      match pieces separator text with
      | [] => [[c]]
      | first :: rest => (c :: first) :: rest

/-- A line without the carriage return that ends it, if there is one. -/
def dropCarriageReturn (line : List Char) : List Char :=
  if line.getLast? == some '\r' then line.dropLast else line

/-- The lines among the pieces between line feeds.  All but the last piece were ended by a line
feed; the last one is a line only if something is on it. -/
def linesOfPieces : List (List Char) → List (List Char)
  | [] => []
  | [last] => if last.isEmpty then [] else [last]
  | piece :: rest => dropCarriageReturn piece :: linesOfPieces rest

/-- The lines of a text. -/
def lines (text : List Char) : List (List Char) :=
  linesOfPieces (pieces '\n' text)

/-- The number of the line on which a character stands that has `before` in front of it, counting
from one. -/
def lineNumber (before : List Char) : Nat :=
  before.count '\n' + 1

/-- The length of a text in bytes of its UTF-8 form. -/
def width : List Char → Nat
  | [] => 0
  | c :: text => c.utf8Size + width text

/-- The characters of a text that begin before a byte offset. -/
def beforeOffset : Nat → List Char → List Char
  | _, [] => []
  | 0, _ :: _ => []
  | offset, c :: text => c :: beforeOffset (offset - c.utf8Size) text

/-- The number of the line at a byte offset of a text; an offset past the end counts as the end. -/
def lineAt (text : List Char) (offset : Nat) : Nat :=
  lineNumber (beforeOffset offset text)

/-- Texts put together with a separator between neighbours. -/
def joinWith (separator : String) (texts : List String) : String :=
  separator.intercalate texts

/-- Lines put together with line feeds. -/
def joinLines (texts : List String) : String :=
  joinWith "\n" texts

end PropertyIndex.Text
