import PropertyIndex.Source.Mask
import PropertyIndex.Text.CharClass

/-!
# Keyword blocks of a source text

A block is introduced by a keyword and an optional name, and its extent is found by counting
delimiters.  Everything is decided on the masked copy, and the block is then cut from the text
itself.

* `Extent`: the two rules by which a block ends.
* `Occurrence`, `occurrences`: the places of a keyword with the name that follows it.
* `bodyBlock?`, `statementFrom`: the cells that belong to the block behind such a place.
* `Block`, `scan`: the blocks of a text.

A `filtered` clause in front of a body has a brace group of its own; it belongs to the header.
-/

namespace PropertyIndex.Source

open Text

/-- How the extent of a block is decided once its keyword has been found. -/
inductive Extent where
  /-- From the opening brace of the body to the brace that closes it. -/
  | body
  /-- To the first semicolon outside all groups, or the last of a run of brace groups. -/
  | statement
  deriving DecidableEq, Repr

/-! ## Places of a keyword -/

/-- A keyword in a list of cells, with the blanks and the name behind it.  The cells in front are
given with the nearest one first. -/
structure Occurrence where
  before : List Cell
  header : List Cell
  name : String
  rest : List Cell

/-- The cells that show a word at the front of a list, and the cells behind them. -/
def splitWord : List Char → List Cell → Option (List Cell × List Cell)
  | [], cells => some ([], cells)
  | _ :: _, [] => none
  | c :: word, cell :: cells =>
    (cell.shownText.isPrefixOf? (c :: word)).bind fun remaining =>
      (splitWord remaining cells).map fun (taken, rest) => (cell :: taken, rest)

/-- The keyword at the front of a list of cells, if it stands there as a whole word. -/
def occurrenceAt (keyword : List Char) (before cells : List Cell) : Option Occurrence := do
  let (word, behind) ← splitWord keyword cells
  let last := (word.getLast?.or before.head?).map Cell.shown
  guard (isWordBoundary (before.head?.map Cell.shown) (cells.head?.map Cell.shown))
  guard (isWordBoundary last (behind.head?.map Cell.shown))
  let gap := behind.takeWhile fun cell => isBlank cell.shown
  let afterGap := behind.dropWhile fun cell => isBlank cell.shown
  let name := afterGap.takeWhile fun cell => isIdentChar cell.shown
  let rest := afterGap.dropWhile fun cell => isIdentChar cell.shown
  return ⟨before, word ++ gap ++ name, String.ofList (source name), rest⟩

/-- The places of a keyword in the cells that follow `before`, from the left.  A place begins
behind the place in front of it: `skip` cells still belong to that one.  A place that takes up no
cell is not reported directly behind another one, which `adjacent` tells. -/
def occurrencesFrom (keyword : List Char) (before : List Cell) (skip : Nat) (adjacent : Bool) :
    List Cell → List Occurrence
  | [] =>
    match skip, occurrenceAt keyword before [] with
    | 0, some place => if adjacent then [] else [place]
    | _, _ => []
  | cell :: cells =>
    match skip with
    | n + 1 => occurrencesFrom keyword (cell :: before) n (n == 0) cells
    | 0 =>
      match occurrenceAt keyword before (cell :: cells) with
      | none => occurrencesFrom keyword (cell :: before) 0 false cells
      | some place =>
        match place.header with
        | [] =>
          let later := occurrencesFrom keyword (cell :: before) 0 false cells
          if adjacent then later else place :: later
        | _ :: taken =>
          place :: occurrencesFrom keyword (cell :: before) taken.length taken.isEmpty cells

/-- The places of a keyword in a list of cells, from the left and without overlap. -/
def occurrences (keyword : List Char) (cells : List Cell) : List Occurrence :=
  occurrencesFrom keyword [] 0 false cells

/-! ## The end of a block -/

/-- The cells up to the brace that closes the last of `depth` open groups. -/
def throughClose : Nat → List Cell → Option (List Cell)
  | _, [] => none
  | depth, cell :: cells =>
    if cell.shown == '{' then (throughClose (depth + 1) cells).map (cell :: ·)
    else if cell.shown == '}' then
      if depth ≤ 1 then some [cell] else (throughClose (depth - 1) cells).map (cell :: ·)
    else (throughClose depth cells).map (cell :: ·)

/-- Whether a header, given with the nearest cell first, ends in the word `filtered`. -/
def endsFiltered (header : List Cell) : Bool :=
  match "filtered".toList.reverse.isPrefixOf?
      ((header.map Cell.shown).dropWhile isAsciiBlank) with
  | some before => !before.head?.any isIdentChar
  | none => false

/-- The cells behind a header up to the brace that opens the body, and the cells from there on.
`seen` holds the header so far with the nearest cell first, and `depth` counts the groups of a
`filtered` clause that are open.  Nothing is found when a semicolon or the end comes first. -/
def splitHeader (seen : List Cell) (depth : Nat) : List Cell → Option (List Cell × List Cell)
  | [] => none
  | cell :: cells =>
    let onward (depth : Nat) :=
      (splitHeader (cell :: seen) depth cells).map fun (header, body) => (cell :: header, body)
    match depth with
    | opened + 1 =>
      if cell.shown == '{' then onward (opened + 2)
      else if cell.shown == '}' then onward opened
      else onward (opened + 1)
    | 0 =>
      if cell.shown == ';' then none
      else if cell.shown == '{' then
        if endsFiltered seen && (throughClose 1 cells).isSome then onward 1
        else some ([], cell :: cells)
      else onward 0

/-- The cells of a block with a body, and whether its braces balance; without balance the block
runs to the end.  A declaration without a body gives none. -/
def bodyBlock? (cells : List Cell) : Option (List Cell × Bool) :=
  (splitHeader [] 0 cells).map fun (header, body) =>
    match throughClose 0 body with
    | some group => (header ++ group, true)
    | none => (header ++ body, false)

/-- Whether another brace group follows, either at once or after the word `filtered`. -/
def continuesWithGroup (cells : List Cell) : Bool :=
  let shown := (cells.map Cell.shown).dropWhile isAsciiBlank
  shown.head? == some '{' ||
    match "filtered".toList.isPrefixOf? shown with
    | some behind => !behind.head?.any isIdentChar
    | none => false

/-- The cells of a statement of which `depth` groups are open, and whether it comes to an end;
otherwise it runs to the end of the cells. -/
def statementFrom (depth : Nat) : List Cell → List Cell × Bool
  | [] => ([], false)
  | cell :: cells =>
    let onward (depth : Nat) :=
      let (taken, ended) := statementFrom depth cells
      (cell :: taken, ended)
    if cell.shown == '(' || cell.shown == '{' then onward (depth + 1)
    else if cell.shown == ')' then onward (depth - 1)
    else if cell.shown == '}' then
      if depth ≤ 1 && !continuesWithGroup cells then ([cell], true) else onward (depth - 1)
    else if cell.shown == ';' && depth == 0 then ([cell], true)
    else onward depth

/-- The cells that belong to a block behind its name, and whether the block comes to an end. -/
def Extent.block? : Extent → List Cell → Option (List Cell × Bool)
  | .body, cells => bodyBlock? cells
  | .statement, cells => some (statementFrom 0 cells)

/-! ## Blocks -/

/-- A block of a source text.  Offsets count bytes, `start` is that of the keyword and `stop` the
one behind the last byte; lines count from one. -/
structure Block where
  /-- The name behind the keyword, which may be empty. -/
  name : String
  start : Nat
  stop : Nat
  startLine : Nat
  /-- The line of the last byte. -/
  endLine : Nat
  text : String
  /-- Whether the delimiters balance; otherwise the block runs to the end of the text. -/
  terminated : Bool
  deriving DecidableEq, Repr

/-- The lines of a block. -/
def Block.lines (block : Block) : List String :=
  (Text.lines block.text.toList).map String.ofList

/-- The block at a place of a keyword, if the place introduces one. -/
def Occurrence.block? (place : Occurrence) (extent : Extent) : Option Block :=
  (extent.block? place.rest).map fun (taken, terminated) =>
    let before := source place.before.reverse
    let text := source (place.header ++ taken)
    { name := place.name
      start := width before
      stop := width before + width text
      startLine := lineNumber before
      endLine := lineNumber (before ++ text.dropLast)
      text := String.ofList text
      terminated }

/-- The blocks that a keyword introduces in a text, in the order of their keywords. -/
def scan (extent : Extent) (keyword : String) (text : String) : List Block :=
  (occurrences keyword.toList (mask text.toList)).filterMap (·.block? extent)

/-- The blocks with a body that a keyword introduces in a text. -/
def scanBodies (keyword : String) (text : String) : List Block :=
  scan .body keyword text

end PropertyIndex.Source
