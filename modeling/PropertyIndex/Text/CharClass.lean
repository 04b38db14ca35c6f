import PropertyIndex.Text.Alphabetic
import PropertyIndex.Text.Number
import PropertyIndex.Text.Mark

/-!
# Character classes

The classes by which texts are cut into words.

* `isBlank`: white space, the Unicode property `White_Space`.
* `isAsciiBlank`: the blanks of source layout.
* `isIdentStart`, `isIdentChar`: the characters of a contract-language identifier, which is ASCII.
* `isDottedChar`: the same with the dot that joins qualified names.
* `isAlphanumeric`, `isNameChar`: letters and numbers of any script, without and with the
  underscore.
* `isWordChar`: the characters between which no word boundary lies.
* `isWordBoundary`: whether a word begins or ends between two neighbours.
-/

namespace PropertyIndex.Text

/-- White space of any script. -/
def isBlank (c : Char) : Bool :=
  let n := c.toNat
  (0x09 ≤ n && n ≤ 0x0D) || n == 0x20 || n == 0x85 || n == 0xA0 || n == 0x1680 ||
    (0x2000 ≤ n && n ≤ 0x200A) || n == 0x2028 || n == 0x2029 || n == 0x202F || n == 0x205F ||
    n == 0x3000

/-- A space, tab, line feed, form feed or carriage return. -/
def isAsciiBlank (c : Char) : Bool :=
  c == ' ' || c == '\t' || c == '\n' || c == '\x0c' || c == '\r'

/-- A space or a tab. -/
def isIndent (c : Char) : Bool :=
  c == ' ' || c == '\t'

/-- An ASCII letter or the underscore. -/
def isIdentStart (c : Char) : Bool :=
  c.isAlpha || c == '_'

/-- An ASCII letter, an ASCII digit or the underscore. -/
def isIdentChar (c : Char) : Bool :=
  c.isAlphanum || c == '_'

/-- A character of a qualified name: an identifier character or a dot. -/
def isDottedChar (c : Char) : Bool :=
  isIdentChar c || c == '.'

/-- A letter or a number of any script. -/
def isAlphanumeric (c : Char) : Bool :=
  if c.toNat < 128 then c.isAlphanum
  else Range.contains alphabeticRanges c.toNat || Range.contains numberRanges c.toNat

/-- A character that a name of any script may hold. -/
def isNameChar (c : Char) : Bool :=
  isAlphanumeric c || c == '_'

/-- A character that lies inside a word: a letter, a mark, a decimal digit, a connector or a join
control of any script. -/
def isWordChar (c : Char) : Bool :=
  if c.toNat < 128 then isIdentChar c
  else Range.contains alphabeticRanges c.toNat || Range.contains markRanges c.toNat ||
    Range.contains decimalRanges c.toNat || Range.contains connectorRanges c.toNat ||
    Range.contains joinerRanges c.toNat

/-- Whether a word begins or ends between two neighbours, either of which may be missing at an end
of the text. -/
def isWordBoundary (left right : Option Char) : Bool :=
  left.any isWordChar != right.any isWordChar

end PropertyIndex.Text
