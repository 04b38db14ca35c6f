import PropertyIndex.Text.Casing

/-!
# Lower case

Lower-casing of a whole text by the rules of the Unicode standard.  A character maps to its own
lower-case form, with two exceptions: the dotted capital I becomes two characters, and a capital
sigma takes its final form at the end of a word.

* `lowerChar`: the lower-case form of one character.
* `endsWord`: whether a sigma between two stretches of text stands at the end of a word.
* `lowercase`: the lower-case form of a text.
-/

namespace PropertyIndex.Text

/-- The place of a code point in a run, if it belongs to it. -/
def CaseRun.image? (run : CaseRun) (n : Nat) : Option Nat :=
  if run.first ≤ n && n ≤ run.last && (n - run.first) % run.stride == 0 then
    some (run.lower + (n - run.first))
  else
    none

/-- The lower-case form of a character that has a single one; any other character is its own. -/
def lowerChar (c : Char) : Char :=
  if c.toNat < 128 then c.toLower
  else ((lowercaseRuns.findSome? (·.image? c.toNat)).map Char.ofNat).getD c

/-- A character with letter case. -/
def isCased (c : Char) : Bool :=
  Range.contains casedRanges c.toNat

/-- A character that is passed over when the neighbours of a letter are asked for their case. -/
def isCaseIgnorable (c : Char) : Bool :=
  Range.contains caseIgnorableRanges c.toNat

/-- Whether the first character that is not passed over has letter case. -/
def nextIsCased (text : List Char) : Bool :=
  (text.find? fun c => !isCaseIgnorable c).any isCased

/-- Whether a letter stands at the end of a word: a cased letter comes before it and none after.
The text on the left is given with the nearest character first. -/
def endsWord (left right : List Char) : Bool :=
  nextIsCased left && !nextIsCased right

/-- Lower-cases a text that follows `left`, which is given with the nearest character first. -/
def lowercaseAfter (left : List Char) : List Char → List Char
  | [] => []
  | c :: right =>
    let image :=
      if c == 'Σ' then [if endsWord left right then 'ς' else 'σ']
      else if c == 'İ' then ['i', '\u0307']
      else [lowerChar c]
    image ++ lowercaseAfter (c :: left) right

/-- The lower-case form of a text. -/
def lowercase (text : List Char) : List Char :=
  lowercaseAfter [] text

end PropertyIndex.Text
