import PropertyIndex.Text.Identifier
import PropertyIndex.Text.Replace

/-!
# The normal form of code for retrieval

Code that is stored for retrieval and code that is asked for go through the same normal form:
comments and directives are taken out, and every stretch of white space becomes one space.

* `blockComment?`, `lineNoise?`: the stretches that are taken out.
* `normalize`: the normal form.
-/

namespace PropertyIndex.Text

/-- What follows a block comment at the front of a text, if the comment is closed. -/
def blockComment? (text : List Char) : Option (List Char) :=
  ("/*".toList.isPrefixOf? text).bind (afterFirst? "*/".toList)

/-- What follows a line comment at the front of a text; the line feed is not part of it. -/
def lineComment? (text : List Char) : Option (List Char) :=
  ("//".toList.isPrefixOf? text).map fun comment => comment.dropWhile fun c => c != '\n'

/-- What follows a directive at the front of a text: a word, blanks and all up to a semicolon. -/
def directive? (word : String) (text : List Char) : Option (List Char) := do
  let behind ← word.toList.isPrefixOf? text
  let rest ← afterBlanks? behind
  afterFirst? [';'] rest

/-- What follows a line comment or a directive at the front of a text. -/
def lineNoise? (text : List Char) : Option (List Char) :=
  (lineComment? text).or ((directive? "import" text).or (directive? "pragma" text))

/-- A text without the blanks at its ends. -/
def trim (text : List Char) : List Char :=
  ((text.dropWhile isBlank).reverse.dropWhile isBlank).reverse

/-- The normal form of a text. -/
def normalize (text : List Char) : List Char :=
  let uncommented := replace blockComment? [] text
  let quiet := replace lineNoise? [' '] uncommented
  trim (replace afterBlanks? [' '] quiet)

end PropertyIndex.Text
