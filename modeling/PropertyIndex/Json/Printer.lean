import PropertyIndex.Json.Value
import PropertyIndex.Text.Hex

/-!
# Printed JSON

Two layouts are in use.  The compact one has no white space; it is the canonical form that is
hashed.  The other one puts each item and each member on a line of its own, indented by two spaces
for each level; it is the form of stored records and reports.

* `escaped`: the characters that stand for a character in a string literal.
* `quoted`: a string literal.
* `compact`: the compact layout.
* `prettyAt`, `pretty`: the indented layout.
-/

namespace PropertyIndex.Json

open Text (hexDigit)

/-- How a character is written in a string literal.  Quotes, backslashes and control characters
are escaped and nothing else. -/
def escaped (c : Char) : List Char :=
  if c == '"' then ['\\', '"']
  else if c == '\\' then ['\\', '\\']
  else if c == '\n' then ['\\', 'n']
  else if c == '\r' then ['\\', 'r']
  else if c == '\t' then ['\\', 't']
  else if c == '\x08' then ['\\', 'b']
  else if c == '\x0c' then ['\\', 'f']
  else if c.toNat < 32 then
    ['\\', 'u', '0', '0', hexDigit (c.toNat / 16), hexDigit (c.toNat % 16)]
  else [c]

/-- The string literal of a text.  What is no text is written as half a surrogate pair. -/
def quoted : Literal → List Char
  | some text => '"' :: text.toList.flatMap escaped ++ ['"']
  | none => "\"\\ud800\"".toList

/-! ## The compact layout -/

mutual

/-- A value without white space. -/
def compact : Json → List Char
  | null => "null".toList
  | bool true => "true".toList
  | bool false => "false".toList
  | number spelling => spelling.toList
  | string literal => quoted literal
  | array items => '[' :: compactItems items ++ [']']
  | object members => '\x7b' :: compactMembers members ++ ['\x7d']

/-- Items without white space. -/
def compactItems : List Json → List Char
  | [] => []
  | [item] => compact item
  | item :: items => compact item ++ ',' :: compactItems items

/-- Members without white space. -/
def compactMembers : List (Literal × Json) → List Char
  | [] => []
  | [(key, value)] => quoted key ++ ':' :: compact value
  | (key, value) :: members => quoted key ++ ':' :: compact value ++ ',' :: compactMembers members

end

/-! ## The indented layout -/

/-- A new line at a level of indentation. -/
def newLine (level : Nat) : List Char :=
  '\n' :: List.replicate (2 * level) ' '

mutual

/-- A value that begins on a line with the given level of indentation. -/
def prettyAt (level : Nat) : Json → List Char
  | null => "null".toList
  | bool true => "true".toList
  | bool false => "false".toList
  | number spelling => spelling.toList
  | string literal => quoted literal
  | array [] => "[]".toList
  | array (item :: items) =>
    '[' :: newLine (level + 1) ++ prettyAt (level + 1) item ++ prettyItems (level + 1) items ++
      newLine level ++ [']']
  | object [] => "\x7b\x7d".toList
  | object ((key, value) :: members) =>
    '\x7b' :: newLine (level + 1) ++ quoted key ++ ": ".toList ++ prettyAt (level + 1) value ++
      prettyMembers (level + 1) members ++ newLine level ++ ['\x7d']

/-- The items behind the first one of an array. -/
def prettyItems (level : Nat) : List Json → List Char
  | [] => []
  | item :: items => ',' :: newLine level ++ prettyAt level item ++ prettyItems level items

/-- The members behind the first one of an object. -/
def prettyMembers (level : Nat) : List (Literal × Json) → List Char
  | [] => []
  | (key, value) :: members =>
    ',' :: newLine level ++ quoted key ++ ": ".toList ++ prettyAt level value ++
      prettyMembers level members

end

/-- A value in the indented layout. -/
def pretty (value : Json) : List Char :=
  prettyAt 0 value

end PropertyIndex.Json
