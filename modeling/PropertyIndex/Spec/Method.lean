import PropertyIndex.Source.Block
import PropertyIndex.Text.Identifier

/-!
# Declared methods of a spec

A spec declares the contract methods that it speaks of in a `methods` block, one on a line.  An
entry is a name, possibly with the receiver that it is called on, directly before an opening
parenthesis; the word `function` may introduce it.

* `declaredMethod?`: the name that a line declares.
* `methodsOfLines`, `methods`: the declared names of a block and of a spec.
-/

namespace PropertyIndex.Spec

open Text

/-- The words that look like a declared method but belong to the spec language. -/
def builtinPredicates : List String :=
  ["require", "assert"]

/-- The qualified name at the front of a text, if a parenthesis opens directly behind it. -/
def calledName? (text : List Char) : Option (List Char) :=
  let name := text.takeWhile isDottedChar
  if isQualifiedName name && (text.dropWhile isDottedChar).head? == some '(' then some name
  else none

/-- The method name that a line declares. -/
def declaredMethod? (line : List Char) : Option (List Char) :=
  let entry := line.dropWhile isBlank
  let introduced := ("function".toList.isPrefixOf? entry).bind afterBlanks?
  (introduced.bind calledName?).or (calledName? entry)

/-- The methods that the lines of a block declare, each once, in order of first appearance. -/
def methodsOfLines (lines : List (List Char)) : List String :=
  let names := (lines.filterMap declaredMethod?).map String.ofList
  (names.filter fun name => !builtinPredicates.contains name).eraseDups

/-- The blocks of a spec that declare methods. -/
def methodBlocks (spec : String) : List Source.Block :=
  Source.scanBodies "methods" spec

/-- The methods that a spec declares in its first `methods` block. -/
def methods (spec : String) : List String :=
  match methodBlocks spec with
  | [] => []
  | block :: _ => methodsOfLines (Text.lines block.text.toList)

end PropertyIndex.Spec
