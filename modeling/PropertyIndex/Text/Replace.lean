/-!
# Replacing stretches of a text

* `replace`: every stretch that a recogniser finds at the front of what is left, from the left and
  without overlap, gives way to a fixed text.  A recogniser answers with what follows the stretch,
  and a stretch has at least one character.
-/

namespace PropertyIndex.Text

/-- Replaces the recognised stretches in the part of a text behind the next `skip` characters. -/
def replaceFrom (recognise : List Char → Option (List Char)) (image : List Char) (skip : Nat) :
    List Char → List Char
  | [] => []
  | c :: text =>
    match skip with
    | n + 1 => replaceFrom recognise image n text
    | 0 =>
      match recognise (c :: text) with
      | some rest => image ++ replaceFrom recognise image (text.length - rest.length) text
      | none => c :: replaceFrom recognise image 0 text

/-- Replaces the recognised stretches of a text. -/
def replace (recognise : List Char → Option (List Char)) (image text : List Char) : List Char :=
  replaceFrom recognise image 0 text

/-- What follows the first occurrence of a word in a text. -/
def afterFirst? (word : List Char) : List Char → Option (List Char)
  | [] => if word.isEmpty then some [] else none
  | c :: text => (word.isPrefixOf? (c :: text)).or (afterFirst? word text)

end PropertyIndex.Text
