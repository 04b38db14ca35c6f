import PropertyIndex.Text.Hex
import PropertyIndex.Yaml.Node

/-!
# Scalars of a YAML document

Each kind of scalar is read from the place where it begins, and gives its text with the place
behind it.  Where a scalar goes on over several lines, a single line break counts as a space and
every further one as a line feed.

* `plain?`: a scalar without quotes, to the end of its line or over several lines.
* `singleQuoted?`, `doubleQuoted?`: scalars in quotes.
* `block?`: a scalar whose lines are kept or folded, introduced by a bar or a greater-than sign.
-/

namespace PropertyIndex.Yaml

/-- What a number of line breaks in a row folds to. -/
def folded : Nat → List Char
  | 0 => []
  | 1 => [' ']
  | n + 2 => List.replicate (n + 1) '\n'

/-- Space within a line. -/
def isBlank (c : Char) : Bool :=
  c == ' ' || c == '\t'

/-! ## Plain scalars -/

/-- The signs that have a meaning of their own inside brackets. -/
def isFlowSign (c : Char) : Bool :=
  c == ',' || c == '[' || c == ']' || c == '\x7b' || c == '\x7d'

/-- Whether a plain scalar may begin with the given character in front of another one. -/
def startsPlain (flow : Bool) (c : Char) (following : Option Char) : Bool :=
  if c == '-' then !Cursor.isGap following
  else if c == '?' || c == ':' then !flow && !Cursor.isGap following
  else !Cursor.isGap (some c) && !isFlowSign c && !"#&*!|>'\"%@`".toList.contains c

/-- The characters of a word of a plain scalar.  The word ends at a gap, at a colon in front of a
gap, and inside brackets at a sign of those. -/
def plainWord (flow : Bool) : List Char → List Char
  | [] => []
  | c :: text =>
    if Cursor.isGap (some c) || (c == ':' && Cursor.isGap text.head?) || (flow && isFlowSign c) then
      []
    else c :: plainWord flow text

/-- Whether a colon stands directly in front of a sign that it may not stand in front of. -/
def hasMisplacedColon : List Char → Bool
  | ':' :: c :: text => (isFlowSign c || c == '?') || hasMisplacedColon (c :: text)
  | _ :: text => hasMisplacedColon text
  | [] => false

/-- The words of a plain scalar from a place on, with what stands between them, and the place
behind.  A word behind a line break has to stand at column `least` at least. -/
def plainWords (flow lines : Bool) (least : Nat) : Nat → Cursor → Option (List Char × Cursor)
  | 0, _ => none
  | fuel + 1, cursor =>
    let word := plainWord flow cursor.rest
    let behind := cursor.skip word.length
    if flow && hasMisplacedColon (word ++ behind.rest.take 1) then none
    else
      let blanks := behind.rest.takeWhile isBlank
      let breaks := (behind.rest.drop blanks.length).takeWhile fun c => isBlank c || c == '\n'
      let count := breaks.count '\n'
      let gap := if count == 0 then blanks else folded count
      let next := behind.skip (blanks.length + breaks.length)
      let goesOn := !gap.isEmpty && (count == 0 || (lines && (flow || least ≤ next.column))) &&
        !next.atDocumentMarker && next.head? != some '#' && !(plainWord flow next.rest).isEmpty
      if goesOn then
        (plainWords flow lines least fuel next).map fun (text, rest) => (word ++ gap ++ text, rest)
      else some (word, behind)

/-- A plain scalar; with `lines` it may go on over several lines. -/
def plain? (flow lines : Bool) (least : Nat) (cursor : Cursor) : Option (List Char × Cursor) :=
  match cursor.rest with
  | [] => none
  | c :: text =>
    if startsPlain flow c text.head? then
      plainWords flow lines least (cursor.rest.length + 1) cursor
    else none

/-! ## Scalars in quotes -/

/-- The part of a quoted scalar that a gap stands for, and the place behind it. -/
def quotedGap (cursor : Cursor) : List Char × Cursor :=
  let gap := cursor.rest.takeWhile fun c => isBlank c || c == '\n'
  let count := gap.count '\n'
  (if count == 0 then gap else folded count, cursor.skip gap.length)

/-- What follows the opening quote of a scalar in single quotes, in which a quote is written
twice. -/
def singleQuotedFrom : Nat → Cursor → Option (List Char × Cursor)
  | 0, _ => none
  | fuel + 1, cursor =>
    if cursor.atDocumentMarker then none
    else
      match cursor.rest with
      | [] => none
      | '\'' :: '\'' :: _ =>
        (singleQuotedFrom fuel (cursor.skip 2)).map fun (text, rest) => ('\'' :: text, rest)
      | '\'' :: _ => some ([], cursor.next)
      | c :: _ =>
        if Cursor.isGap (some c) then
          let (gap, behind) := quotedGap cursor
          (singleQuotedFrom fuel behind).map fun (text, rest) => (gap ++ text, rest)
        else (singleQuotedFrom fuel cursor.next).map fun (text, rest) => (c :: text, rest)

/-- A scalar in single quotes. -/
def singleQuoted? (cursor : Cursor) : Option (List Char × Cursor) :=
  singleQuotedFrom (cursor.rest.length + 1) cursor.next

/-- The characters that an escape of one letter stands for. -/
def escapes : List (Char × Char) :=
  [('0', '\x00'), ('a', '\x07'), ('b', '\x08'), ('t', '\t'), ('\t', '\t'), ('n', '\n'),
   ('v', '\x0b'), ('f', '\x0c'), ('r', '\r'), ('e', '\x1b'), (' ', ' '), ('"', '"'), ('/', '/'),
   ('\\', '\\'), ('N', '\u0085'), ('_', '\u00a0'), ('L', '\u2028'), ('P', '\u2029')]

/-- How many hexadecimal digits follow the letter of an escape. -/
def escapeWidth? (c : Char) : Option Nat :=
  if c == 'x' then some 2 else if c == 'u' then some 4 else if c == 'U' then some 8 else none

/-- The character with the code that a number of hexadecimal digits spells. -/
def charOfHex? (width : Nat) (text : List Char) : Option Char := do
  let digits ← (text.take width).mapM Text.hexValue?
  let code := digits.foldl (fun n digit => n * 16 + digit) 0
  if digits.length == width && (code < 0xD800 || (0xE000 ≤ code && code < 0x110000)) then
    some (Char.ofNat code)
  else none

/-- What an escape stands for, and the place behind it.  A line break that is escaped is left
out with the indentation behind it. -/
def escape? (cursor : Cursor) : Option (List Char × Cursor) :=
  match cursor.rest with
  | '\\' :: '\n' :: text =>
    let gap := text.takeWhile fun c => isBlank c || c == '\n'
    let behind := cursor.skip (2 + gap.length)
    some (List.replicate (gap.count '\n') '\n', behind)
  | '\\' :: c :: text =>
    match escapeWidth? c with
    | some width => (charOfHex? width text).map fun d => ([d], cursor.skip (2 + width))
    | none => (escapes.lookup c).map fun d => ([d], cursor.skip 2)
  | _ => none

/-- What follows the opening quote of a scalar in double quotes. -/
def doubleQuotedFrom : Nat → Cursor → Option (List Char × Cursor)
  | 0, _ => none
  | fuel + 1, cursor =>
    if cursor.atDocumentMarker then none
    else
      match cursor.rest with
      | [] => none
      | '"' :: _ => some ([], cursor.next)
      | '\\' :: _ => do
        let (part, behind) ← escape? cursor
        let (text, rest) ← doubleQuotedFrom fuel behind
        return (part ++ text, rest)
      | c :: _ =>
        if Cursor.isGap (some c) then
          let (gap, behind) := quotedGap cursor
          (doubleQuotedFrom fuel behind).map fun (text, rest) => (gap ++ text, rest)
        else (doubleQuotedFrom fuel cursor.next).map fun (text, rest) => (c :: text, rest)

/-- A scalar in double quotes. -/
def doubleQuoted? (cursor : Cursor) : Option (List Char × Cursor) :=
  doubleQuotedFrom (cursor.rest.length + 1) cursor.next

/-! ## Block scalars -/

/-- What a block scalar does with the line breaks at its end. -/
inductive Chomp where
  /-- It keeps one. -/
  | clip
  /-- It keeps none. -/
  | strip
  /-- It keeps all. -/
  | keep
  deriving DecidableEq

/-- The signs behind the one that introduces a block scalar: what happens at the end, and the
indentation if it is given. -/
def blockHeader? : List Char → Option (Chomp × Option Nat)
  | [] => some (.clip, none)
  | ['-'] => some (.strip, none)
  | ['+'] => some (.keep, none)
  | [c, d] =>
    let chomp (sign : Char) : Option Chomp :=
      if sign == '-' then some .strip else if sign == '+' then some .keep else none
    let width (digit : Char) : Option Nat :=
      if digit.isDigit && digit != '0' then some (digit.toNat - '0'.toNat) else none
    match chomp c, width d, chomp d, width c with
    | some chomped, some n, _, _ => some (chomped, some n)
    | _, _, some chomped, some n => some (chomped, some n)
    | _, _, _, _ => none
  | [c] => if c.isDigit && c != '0' then some (.clip, some (c.toNat - '0'.toNat)) else none
  | _ => none

/-- The lines of a text up to the first one that is not blank and not indented enough, each
without its indentation, and the number of characters that they take up. -/
def blockLines (indent : Nat) : Nat → List Char → List (List Char) × Nat
  | 0, _ => ([], 0)
  | _, [] => ([], 0)
  | fuel + 1, text =>
    let line := text.takeWhile fun c => c != '\n'
    let spaces := (line.takeWhile fun c => c == ' ').length
    let behind := text.drop (line.length + 1)
    if indent ≤ spaces || spaces == line.length then
      let marker := indent == 0 && (⟨0, 0, text⟩ : Cursor).atDocumentMarker
      if marker then ([], 0)
      else
        let (lines, count) := blockLines indent fuel behind
        (line.drop indent :: lines, min (line.length + 1) text.length + count)
    else ([], 0)

/-- The indentation of the first line that is not blank, but at least that of the blank lines in
front of it. -/
def detectIndent (least : Nat) : Nat → List Char → Nat
  | 0, _ => least
  | _, [] => least
  | fuel + 1, text =>
    let line := text.takeWhile fun c => c != '\n'
    let spaces := (line.takeWhile fun c => c == ' ').length
    if spaces == line.length then
      detectIndent (max least spaces) fuel (text.drop (line.length + 1))
    else max least spaces

/-- Lines put together by folding: the break between two lines that are neither blank nor
indented further becomes a space. -/
def foldLines : List (List Char) → List Char
  | [] => []
  | line :: lines =>
    let isText (line : List Char) : Bool := line.head?.any fun c => !isBlank c
    let blanks := (lines.takeWhile List.isEmpty).length
    let separator := match lines.drop blanks with
      | [] => []
      | following :: _ =>
        if isText line && isText following then
          if blanks == 0 then [' '] else []
        else ['\n']
    if line.isEmpty then '\n' :: foldLines lines
    else line ++ separator ++ foldLines lines

/-- Lines put together with a line feed behind each but the last. -/
def joinBlock : List (List Char) → List Char
  | [] => []
  | [line] => line
  | line :: lines => line ++ '\n' :: joinBlock lines

/-- A block scalar inside a block of the given least column. -/
def block? (least : Nat) (cursor : Cursor) : Option (List Char × Cursor) :=
  match cursor.rest with
  | [] => none
  | sign :: text => do
    let signs := text.takeWhile fun c => !isBlank c && c != '\n'
    let remark := (text.drop signs.length).takeWhile fun c => c != '\n'
    let (chomp, width) ← blockHeader? signs
    let shown := remark.dropWhile isBlank
    guard (shown.isEmpty || shown.head? == some '#')
    let body := text.drop (signs.length + remark.length + 1)
    let indent := match width with
      | some n => least - 1 + n
      | none => detectIndent (max least 1) (body.length + 1) body
    let (lines, count) := blockLines indent (body.length + 1) body
    let content := (lines.reverse.dropWhile List.isEmpty).reverse
    let trailing := lines.length - content.length
    let joined := if sign == '>' then foldLines content else joinBlock content
    let unended := trailing == 0 && (body.take count).getLast? != some '\n'
    let ended := if content.isEmpty || unended then 0 else 1
    let breaks := match chomp with
      | .strip => 0
      | .clip => ended
      | .keep => ended + trailing
    let behind := cursor.skip (1 + signs.length + remark.length + 1 + count)
    return (joined ++ List.replicate breaks '\n', behind)

end PropertyIndex.Yaml
