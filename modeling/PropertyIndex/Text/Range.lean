/-!
# Ranges of code points

A character class of the Unicode standard is given by its code points, as an ascending list of
closed intervals.  This module holds the membership test that the tables share.

* `Range.contains`: whether a code point lies in one of the intervals.
-/

namespace PropertyIndex.Text

/-- A closed interval of code points, lower end first. -/
abbrev Range := Nat × Nat

namespace Range

/-- Whether a code point lies in one of the intervals.  The intervals ascend, so the search stops
at the first one that begins above the code point. -/
def contains : List Range → Nat → Bool
  | [], _ => false
  | (low, high) :: rest, n => low ≤ n && (n ≤ high || contains rest n)

end Range

end PropertyIndex.Text
