import PropertyIndex.Text.Line
import PropertyIndex.Text.Replace

/-!
# Patterns for names

A pattern is a text in which a star stands for any characters.

* `matchesPattern`: whether a name matches a pattern.
-/

namespace PropertyIndex.Text

/-- Whether a text can be cut so that the given parts occur in it in order, with anything in front
of each, and the last one at its end.  Taking the first occurrence of each part leaves the most
room for those behind it. -/
def matchesParts : List (List Char) → List Char → Bool
  | [], text => text.isEmpty
  | [last], text => last.isSuffixOf text
  | part :: parts, text => (afterFirst? part text).any (matchesParts parts)

/-- Whether a name matches a pattern.  Without a star the two have to be equal. -/
def matchesPattern (name pattern : List Char) : Bool :=
  match pieces '*' pattern with
  | [] => name.isEmpty
  | [whole] => name == whole
  | first :: parts => (first.isPrefixOf? name).any (matchesParts parts)

end PropertyIndex.Text
