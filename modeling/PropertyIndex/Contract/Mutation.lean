import PropertyIndex.Text.Lowercase
import PropertyIndex.Text.NameSet
import PropertyIndex.Text.Identifier
import PropertyIndex.Text.Occurrence

/-!
# Functions that change state

A function counts as changing state when its text assigns to a state variable, or when it calls
another contract and is not marked as a view.  The test is on the text alone.

* `assignmentTarget?`: what stands in front of the first assignment sign of a statement.
* `assignsTo`: whether a text assigns to one of a set of variables.
* `memberCalls`: the names that a text calls on a receiver.
* `modifiesState`: the test.
-/

namespace PropertyIndex.Contract

open Text

/-- The members of other contracts that only read. -/
def readOnlyMembers : List String :=
  ["balanceOf", "totalSupply"]

/-- Whether an equality sign stands at the front of a comparison or an arrow. -/
def opensComparison (behind : List Char) : Bool :=
  behind.head? == some '=' || behind.head? == some '>'

/-- The text in front of an assignment, of which `left` stands before its equality sign, nearest
character first.  A shift that assigns has its sign doubled; a single one compares. -/
def targetBefore? : List Char → Option (List Char)
  | '=' :: _ => none
  | '!' :: _ => none
  | '<' :: '<' :: left => some left.reverse
  | '>' :: '>' :: left => some left.reverse
  | '<' :: _ => none
  | '>' :: _ => none
  | left => some left.reverse

/-- The text in front of the first assignment in the part of a statement that follows `left`. -/
def assignmentTargetFrom? (left : List Char) : List Char → Option (List Char)
  | [] => none
  | c :: text =>
    let later := assignmentTargetFrom? (c :: left) text
    if c == '=' && !opensComparison text then (targetBefore? left).or later else later

/-- The text in front of the first assignment of a statement. -/
def assignmentTarget? (statement : List Char) : Option (List Char) :=
  assignmentTargetFrom? [] statement

/-- Whether a text assigns to one of a set of variables. -/
def assignsTo (state : NameSet) (body : List Char) : Bool :=
  (pieces ';' body).any fun statement =>
    (assignmentTarget? statement).any fun target =>
      state.toList.any fun name => containsWord target name.toList

/-- The name that is called at the front of a text. -/
def calledMember? (text : List Char) : Option (List Char) :=
  let name := text.takeWhile isIdentChar
  if isIdentifier name && (text.dropWhile isIdentChar).head? == some '(' then some name else none

/-- The names that a text calls on a receiver, in order. -/
def memberCalls (body : List Char) : List (List Char) :=
  (sitesOf ['.'] body).filterMap fun site => calledMember? site.right

/-- Whether a text, which is not that of a view, calls a member that may change state. -/
def callsMutatingMember (body : List Char) : Bool :=
  !contains "view".toList (lowercase body) &&
    (memberCalls body).any fun name => !readOnlyMembers.contains (String.ofList name)

/-- Whether the text of a function suggests that it changes state. -/
def modifiesState (body : String) (state : NameSet) : Bool :=
  assignsTo state body.toList || callsMutatingMember body.toList

end PropertyIndex.Contract
