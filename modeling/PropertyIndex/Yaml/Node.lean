/-!
# YAML documents

* `Node`: a scalar, a sequence or a mapping.  Of the style of a scalar only this much is kept:
  whether it is plain, that is, written without quotes and not as a block.
* `Cursor`: a place in a text, with its line and column.
* `isAllowedChar`, `normalizeBreaks`: the characters of a document and its line breaks.
-/

namespace PropertyIndex.Yaml

/-- A node of a document. -/
inductive Node where
  | scalar (text : String) (plain : Bool)
  | sequence (items : List Node)
  | mapping (entries : List (Node × Node))

/-- The node that stands where nothing is written. -/
def Node.absent : Node :=
  .scalar "" true

/-- Whether a document may hold a character. -/
def isAllowedChar (c : Char) : Bool :=
  let n := c.toNat
  n == 0x09 || n == 0x0A || n == 0x0D || (0x20 ≤ n && n ≤ 0x7E) || n == 0x85 ||
    (0xA0 ≤ n && n ≤ 0xFFFD && n != 0xFEFF) || 0x10000 ≤ n

/-- A text in which every line break is a line feed. -/
def normalizeBreaks : List Char → List Char
  | [] => []
  | '\r' :: '\n' :: text => '\n' :: normalizeBreaks text
  | c :: text =>
    (if c == '\r' || c == '\u0085' || c == '\u2028' || c == '\u2029' then '\n' else c) ::
      normalizeBreaks text

/-! ## Places in a text -/

/-- A place in a text: what is still ahead, and where it begins. -/
structure Cursor where
  line : Nat
  column : Nat
  rest : List Char

namespace Cursor

/-- The place behind one character. -/
def next (cursor : Cursor) : Cursor :=
  match cursor.rest with
  | [] => cursor
  | '\n' :: rest => ⟨cursor.line + 1, 0, rest⟩
  | _ :: rest => ⟨cursor.line, cursor.column + 1, rest⟩

/-- The place behind a number of characters. -/
def skip (cursor : Cursor) (count : Nat) : Cursor :=
  Nat.repeat Cursor.next count cursor

/-- The character at a place. -/
def head? (cursor : Cursor) : Option Char :=
  cursor.rest.head?

/-- Whether a character is missing, or a space, a tab or a line feed. -/
def isGap : Option Char → Bool
  | none => true
  | some c => c == ' ' || c == '\t' || c == '\n'

/-- Whether a sign stands at a place with a gap behind it. -/
def atSign (cursor : Cursor) (sign : Char) : Bool :=
  match cursor.rest with
  | [] => false
  | c :: rest => c == sign && isGap rest.head?

/-- Whether a marker of three equal signs stands at the beginning of a line. -/
def atMarker (cursor : Cursor) (sign : Char) : Bool :=
  cursor.column == 0 && cursor.rest.take 3 == List.replicate 3 sign &&
    isGap (cursor.rest.drop 3).head?

/-- Whether a document begins or ends at a place. -/
def atDocumentMarker (cursor : Cursor) : Bool :=
  cursor.atMarker '-' || cursor.atMarker '.'

/-- How many characters lie in front of the next token: spaces, line ends and comments, and tabs
except in the indentation of a line. -/
def gapLength (flow tabs comment : Bool) : List Char → Nat
  | [] => 0
  | c :: text =>
    if c == '\n' then gapLength flow flow false text + 1
    else if comment then gapLength flow tabs true text + 1
    else if c == ' ' || (c == '\t' && tabs) then gapLength flow tabs false text + 1
    else if c == '#' then gapLength flow tabs true text + 1
    else 0

/-- The place of the next token.  Inside brackets, tabs may stand anywhere. -/
def toToken (cursor : Cursor) (flow : Bool) : Cursor :=
  cursor.skip (gapLength flow (flow || cursor.column != 0) false cursor.rest)

end Cursor

end PropertyIndex.Yaml
