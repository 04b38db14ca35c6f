import PropertyIndex.Text.CharClass
import PropertyIndex.Text.Line

/-!
# Identifiers

* `isIdentifier`: a name of the contract language.
* `isQualifiedName`: identifiers joined by dots.
* `bareName`: the last part of a qualified name.
* `afterBlanks?`: the text behind blanks, of which one at least is wanted.
-/

namespace PropertyIndex.Text

/-- Whether a text is one identifier. -/
def isIdentifier : List Char → Bool
  | [] => false
  | c :: rest => isIdentStart c && rest.all isIdentChar

/-- Whether a text consists of identifiers joined by dots. -/
def isQualifiedName (text : List Char) : Bool :=
  (pieces '.' text).all isIdentifier

/-- A name without the receiver that qualifies it: what stands behind the last dot. -/
def bareName (name : String) : String :=
  String.ofList ((pieces '.' name.toList).getLast?.getD [])

/-- The text behind the blanks at its front, of which there has to be at least one. -/
def afterBlanks? : List Char → Option (List Char)
  | [] => none
  | c :: text => if isBlank c then some (text.dropWhile isBlank) else none

end PropertyIndex.Text
