import PropertyIndex.Text.Identifier

/-!
# Declarations of state variables

Three shapes of declaration are recognised, each from the start of a line to its semicolon: a
typed variable, a typed variable with a value, and a mapping.  Everything else, in particular
locals and parameters, which have no visibility, is not a declaration here.

* `afterType?`: what follows a type.
* `blankWords`: the words that blanks separate.
* `plain?`, `valued?`, `mapping?`: the three shapes, each as the declared name and what follows.
* `declarationsIn`: the names that a shape declares in a text.
-/

namespace PropertyIndex.Contract

open Text

/-- Whether a word is a visibility. -/
def isVisibility (word : List Char) : Bool :=
  ["public", "private", "internal"].any fun visibility => visibility.toList == word

/-- Whether a word may stand between a visibility and a name. -/
def isModifier (word : List Char) : Bool :=
  ["constant", "immutable", "override"].any fun modifier => modifier.toList == word

/-! ## Parts of a declaration -/

/-- What follows one array suffix, which has to close on its line. -/
def afterArraySuffix? (text : List Char) : Option (List Char) :=
  match text.dropWhile isIndent with
  | '[' :: inner =>
    match inner.dropWhile fun c => c != ']' && c != '\n' with
    | ']' :: rest => some rest
    | _ => none
  | _ => none

/-- An array suffix takes up characters. -/
theorem length_lt_of_afterArraySuffix? {text rest : List Char}
    (h : afterArraySuffix? text = some rest) : rest.length < text.length := by
  have outer : (text.dropWhile isIndent).length ≤ text.length :=
    (List.dropWhile_sublist isIndent).length_le
  unfold afterArraySuffix? at h
  split at h
  · next inner hinner =>
    have hlen : (inner.dropWhile fun c => c != ']' && c != '\n').length ≤ inner.length :=
      (List.dropWhile_sublist _).length_le
    rw [hinner, List.length_cons] at outer
    split at h
    · next behind hbehind =>
      rw [hbehind, List.length_cons] at hlen
      rw [Option.some.injEq] at h
      subst h
      omega
    · simp at h
  · simp at h

/-- What follows the array suffixes at the front of a text. -/
def afterArraySuffixes (text : List Char) : List Char :=
  match _h : afterArraySuffix? text with
  | some rest => afterArraySuffixes rest
  | none => text
termination_by text.length
decreasing_by exact length_lt_of_afterArraySuffix? ‹_›

/-- What follows a type: a qualified name and its array suffixes. -/
def afterType? : List Char → Option (List Char)
  | [] => none
  | c :: text =>
    if isIdentStart c then some (afterArraySuffixes (text.dropWhile isDottedChar)) else none

theorem length_lt_of_afterBlanks? {text rest : List Char} (h : afterBlanks? text = some rest) :
    rest.length < text.length := by
  cases text with
  | nil => simp [afterBlanks?] at h
  | cons c text =>
    have hlen : (text.dropWhile isBlank).length ≤ text.length :=
      (List.dropWhile_sublist isBlank).length_le
    simp only [afterBlanks?] at h
    split at h
    · rw [Option.some.injEq] at h
      subst h
      rw [List.length_cons]
      omega
    · simp at h

/-- The words at the front of a text, each behind blanks, and what follows them. -/
def blankWords (text : List Char) : List (List Char) × List Char :=
  match _h : afterBlanks? text with
  | none => ([], text)
  | some behind =>
    match behind.takeWhile isIdentChar with
    | [] => ([], text)
    | word =>
      let (words, rest) := blankWords (behind.dropWhile isIdentChar)
      (word :: words, rest)
termination_by text.length
decreasing_by
  have : (behind.dropWhile isIdentChar).length ≤ behind.length :=
    (List.dropWhile_sublist isIdentChar).length_le
  have := length_lt_of_afterBlanks? ‹_›
  omega

/-- The name behind a row of modifiers. -/
def nameAfterModifiers? : List (List Char) → Option (List Char)
  | [] => none
  | [name] => if isIdentifier name then some name else none
  | word :: words => if isModifier word then nameAfterModifiers? words else none

/-- The name that the words behind a type declare. -/
def nameAfterType? (words : List (List Char)) : Option (List Char) :=
  let words := if words.head? == some "payable".toList then words.tail else words
  match words with
  | [] => none
  | visibility :: words => if isVisibility visibility then nameAfterModifiers? words else none

/-- The name that a typed declaration declares, and what follows it. -/
def typedName? (line : List Char) : Option (List Char × List Char) := do
  let behind ← afterType? (line.dropWhile isIndent)
  let (words, rest) := blankWords behind
  let name ← nameAfterType? words
  return (name, rest.dropWhile isBlank)

/-! ## Shapes of a declaration -/

/-- A typed variable without a value. -/
def plain? (line : List Char) : Option (List Char × List Char) := do
  let (name, rest) ← typedName? line
  match rest with
  | ';' :: rest => return (name, rest)
  | _ => none

/-- A typed variable with a value. -/
def valued? (line : List Char) : Option (List Char × List Char) := do
  let (name, rest) ← typedName? line
  match rest with
  | '=' :: c :: value =>
    if c == ';' || c == '=' then none
    else
      match value.dropWhile fun c => c != ';' with
      | ';' :: rest => return (name, rest)
      | _ => none
  | _ => none

/-- A name that a semicolon follows, and what follows that. -/
def endedName? (text : List Char) : Option (List Char × List Char) :=
  let name := text.takeWhile isIdentChar
  if isIdentifier name then
    match (text.dropWhile isIdentChar).dropWhile isBlank with
    | ';' :: rest => some (name, rest)
    | _ => none
  else none

/-- The name behind the types of a mapping, before which a visibility may stand. -/
def mappedName? (text : List Char) : Option (List Char × List Char) :=
  let behind := text.dropWhile isBlank
  let visible :=
    if isVisibility (behind.takeWhile isIdentChar) then
      (afterBlanks? (behind.dropWhile isIdentChar)).bind endedName?
    else none
  visible.or (endedName? behind)

/-- The name behind the first closing parenthesis that a name may follow.  The search ends at a
semicolon. -/
def nameAfterParenthesis? : List Char → Option (List Char × List Char)
  | [] => none
  | c :: text =>
    if c == ';' then none
    else if c == ')' then (mappedName? text).or (nameAfterParenthesis? text)
    else nameAfterParenthesis? text

/-- A mapping. -/
def mapping? (line : List Char) : Option (List Char × List Char) := do
  let behind ← "mapping".toList.isPrefixOf? (line.dropWhile isIndent)
  match behind.dropWhile isBlank with
  | '(' :: inner => nameAfterParenthesis? inner
  | _ => none

/-- The names that a shape declares in the part of a text behind the next `skip` characters.  A
declaration begins at the start of a line, and the search goes on behind it. -/
def declarationsFrom (shape : List Char → Option (List Char × List Char)) (lineStart : Bool)
    (skip : Nat) : List Char → List (List Char)
  | [] => []
  | c :: text =>
    match skip with
    | n + 1 => declarationsFrom shape (c == '\n') n text
    | 0 =>
      match if lineStart then shape (c :: text) else none with
      | some (name, rest) =>
        name :: declarationsFrom shape (c == '\n') (text.length - rest.length) text
      | none => declarationsFrom shape (c == '\n') 0 text

/-- The names that a shape declares in a text. -/
def declarationsIn (shape : List Char → Option (List Char × List Char)) (text : List Char) :
    List (List Char) :=
  declarationsFrom shape true 0 text

end PropertyIndex.Contract
