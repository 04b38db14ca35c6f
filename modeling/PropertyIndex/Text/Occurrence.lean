import PropertyIndex.Text.CharClass

/-!
# Occurrences of a word in a text

A search visits the occurrences of a word from the left, and after each one it goes on behind it,
so occurrences that overlap an earlier one are passed over.  Each occurrence is reported with the
text on both of its sides.

* `Site`: a place in a text, as the text on its left and on its right.
* `sitesOf`: the occurrences of a word that do not overlap.
* `contains`: whether a word occurs at all.
* `containsWord`: whether a word occurs as a whole name.
-/

namespace PropertyIndex.Text

/-- A stretch of a text, by what lies on both sides of it.  The left side is given with the
nearest character first. -/
structure Site where
  left : List Char
  right : List Char

/-- The occurrences of a word in the part of a text that follows `left`, after `skip` more
characters have been passed over.  An empty word has none. -/
def sitesFrom (word left : List Char) (skip : Nat) : List Char → List Site
  | [] => []
  | c :: text =>
    match skip with
    | n + 1 => sitesFrom word (c :: left) n text
    | 0 =>
      match word, word.isPrefixOf? (c :: text) with
      | _ :: tail, some right => ⟨left, right⟩ :: sitesFrom word (c :: left) tail.length text
      | _, _ => sitesFrom word (c :: left) 0 text

/-- The occurrences of a word in a text, from the left and without overlap. -/
def sitesOf (word text : List Char) : List Site :=
  sitesFrom word [] 0 text

/-- Whether a word occurs in a text.  The empty word occurs in every text. -/
def contains (word : List Char) : List Char → Bool
  | [] => word.isEmpty
  | c :: text => word.isPrefixOf (c :: text) || contains word text

/-- Whether a site has no name character on either side. -/
def Site.isWholeName (site : Site) : Bool :=
  !site.left.head?.any isNameChar && !site.right.head?.any isNameChar

/-- Whether a word occurs in a text as a whole name. -/
def containsWord (text word : List Char) : Bool :=
  (sitesOf word text).any Site.isWholeName

end PropertyIndex.Text
