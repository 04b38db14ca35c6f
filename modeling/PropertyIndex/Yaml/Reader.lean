import PropertyIndex.Yaml.Scalar

/-!
# Reading YAML

A text holds one document.  Its blocks are told apart by their columns: a node belongs to a block
if it stands at its least column or further to the right.  Anchors are remembered, so that an alias
reads as the node it names.

* `Reading`: the place that has been reached, and the anchors so far.
* `flowNode`: a node inside brackets.
* `blockNode`, `nodeBehind`: a node of a block, and the one behind the sign that introduces it.
* `read?`: the document of a text.
-/

namespace PropertyIndex.Yaml

/-- The place that has been reached, and the anchored nodes, the latest first. -/
structure State where
  cursor : Cursor
  anchors : List (String × Node)

/-- A reading may fail. -/
abbrev Reading := StateT State Option

namespace Reading

/-- The place that has been reached. -/
def here : Reading Cursor :=
  State.cursor <$> get

/-- Goes on to a place. -/
def goTo (cursor : Cursor) : Reading Unit :=
  modify fun state => { state with cursor }

/-- Goes on to the next token. -/
def toToken (flow : Bool) : Reading Cursor := do
  let cursor := (← here).toToken flow
  goTo cursor
  return cursor

/-- Reads by a function that gives a result with the place behind it. -/
def scan (read : Cursor → Option (α × Cursor)) : Reading α := do
  match read (← here) with
  | some (value, cursor) => do
    goTo cursor
    return value
  | none => failure

/-- Remembers a node under a name, if there is one. -/
def remember (name : Option String) (node : Node) : Reading Unit :=
  match name with
  | some name => modify fun state => { state with anchors := (name, node) :: state.anchors }
  | none => pure ()

/-! ## Properties and aliases -/

/-- A character of the name of an anchor. -/
def isAnchorChar (c : Char) : Bool :=
  c.isAlphanum || c == '-' || c == '_'

/-- Reads the name behind the sign of an anchor or an alias. -/
def name : Reading String := do
  let cursor ← here
  let chars := cursor.next.rest.takeWhile isAnchorChar
  let behind := cursor.skip (chars.length + 1)
  let ends := Cursor.isGap behind.head? ||
    behind.head?.any fun c => "?:,]\x7d%@`".toList.contains c
  if chars.isEmpty || !ends then failure
  goTo behind
  return String.ofList chars

/-- Reads the anchor and the tag in front of a node, in either order, and gives the anchor.  Tags
are not needed and passed over. -/
def properties (flow : Bool) : Nat → Reading (Option String)
  | 0 => return none
  | fuel + 1 => do
    let cursor ← here
    match cursor.head? with
    | some '&' => do
      let anchor ← name
      let behind := (← here).rest.takeWhile isBlank
      goTo ((← here).skip behind.length)
      let _ ← properties flow fuel
      return some anchor
    | some '!' => do
      let tag := cursor.rest.takeWhile fun c =>
        !Cursor.isGap (some c) && !(flow && isFlowSign c)
      let behind := cursor.skip tag.length
      goTo (behind.skip (behind.rest.takeWhile isBlank).length)
      properties flow fuel
    | _ => return none

/-- Reads an alias as the node that it names. -/
def aliased : Reading Node := do
  let wanted ← name
  match (← get).anchors.lookup wanted with
  | some node => return node
  | none => failure

/-- A scalar node without quotes. -/
def plainNode (chars : List Char) : Node :=
  .scalar (String.ofList chars) true

/-- A scalar node with quotes or as a block. -/
def quotedNode (chars : List Char) : Node :=
  .scalar (String.ofList chars) false

/-! ## Nodes inside brackets -/

mutual

/-- Reads a node inside brackets. -/
def flowNode : Nat → Reading Node
  | 0 => failure
  | fuel + 1 => do
    let _ ← toToken true
    let anchor ← properties true 2
    let cursor ← toToken true
    let node ← match cursor.head? with
      | some '[' => do
        goTo cursor.next
        Node.sequence <$> flowItems fuel
      | some '\x7b' => do
        goTo cursor.next
        Node.mapping <$> flowEntries fuel
      | some '"' => quotedNode <$> scan doubleQuoted?
      | some '\'' => quotedNode <$> scan singleQuoted?
      | some '*' => aliased
      | some c =>
        if anchor.isSome && (c == ',' || c == ']' || c == '\x7d' || c == ':') then
          return Node.absent
        else plainNode <$> scan (plain? true true 0)
      | none => failure
    remember anchor node
    return node

/-- Reads the value behind a key inside brackets, if there is one.  A key that no question mark
introduces has to stand on the line of its colon, which is then given. -/
def flowValue (line : Option Nat) : Nat → Reading (Option Node)
  | 0 => failure
  | fuel + 1 => do
    let cursor ← toToken true
    if cursor.head? != some ':' || line.any fun line => line != cursor.line then return none
    goTo cursor.next
    let behind ← toToken true
    if behind.head?.any fun c => c == ',' || c == ']' || c == '\x7d' then return some Node.absent
    else some <$> flowNode fuel

/-- Reads the key behind a question mark inside brackets, which may be missing. -/
def flowKey : Nat → Reading Node
  | 0 => failure
  | fuel + 1 => do
    let cursor ← toToken true
    if cursor.head?.any fun c => c == ':' || c == ',' || c == '\x7d' || c == ']' then
      return Node.absent
    else flowNode fuel

/-- Reads a key inside brackets with the value behind it, and tells whether a question mark
introduces them. -/
def flowPair : Nat → Reading (Node × Option Node × Bool)
  | 0 => failure
  | fuel + 1 => do
    let cursor ← toToken true
    if cursor.head? == some '?' then
      goTo cursor.next
      let key ← flowKey fuel
      return (key, ← flowValue none fuel, true)
    else
      let key ← flowNode fuel
      return (key, ← flowValue (some cursor.line) fuel, false)

/-- Reads the items of a sequence inside brackets, to the closing bracket. -/
def flowItems : Nat → Reading (List Node)
  | 0 => failure
  | fuel + 1 => do
    let cursor ← toToken true
    if cursor.head? == some ']' then
      goTo cursor.next
      return []
    let item ← match ← flowPair fuel with
      | (key, some value, _) => pure (Node.mapping [(key, value)])
      | (key, none, true) => pure (Node.mapping [(key, Node.absent)])
      | (item, none, false) => pure item
    let behind ← toToken true
    match behind.head? with
    | some ',' => do
      goTo behind.next
      return item :: (← flowItems fuel)
    | some ']' => do
      goTo behind.next
      return [item]
    | _ => failure

/-- Reads the entries of a mapping inside brackets, to the closing bracket. -/
def flowEntries : Nat → Reading (List (Node × Node))
  | 0 => failure
  | fuel + 1 => do
    let cursor ← toToken true
    if cursor.head? == some '\x7d' then
      goTo cursor.next
      return []
    let (key, value, _) ← flowPair fuel
    let entry := (key, value.getD Node.absent)
    let behind ← toToken true
    match behind.head? with
    | some ',' => do
      goTo behind.next
      return entry :: (← flowEntries fuel)
    | some '\x7d' => do
      goTo behind.next
      return [entry]
    | _ => failure

end

/-! ## Nodes of a block -/

/-- Reads a node that may be the key of a block mapping, and tells whether it is plain. -/
def atom (fuel : Nat) : Reading (Node × Bool) := do
  let cursor ← here
  match cursor.head? with
  | some '"' => return (quotedNode (← scan doubleQuoted?), false)
  | some '\'' => return (quotedNode (← scan singleQuoted?), false)
  | some '[' => return (← flowNode fuel, false)
  | some '\x7b' => return (← flowNode fuel, false)
  | some '*' => return (← aliased, false)
  | _ => return (plainNode (← scan (plain? false false 0)), true)

/-- Passes over the colon behind a key that began at a place, if there is one. -/
def keyColon (start : Cursor) : Reading Bool := do
  let cursor ← here
  let behind := cursor.skip (cursor.rest.takeWhile isBlank).length
  if behind.line == start.line && behind.atSign ':' then
    goTo behind.next
    return true
  else return false

mutual

/-- Reads a node of a block whose nodes stand at column `least` or further to the right.  Where
`inner` allows it, the node may itself be a block that begins here. -/
def blockNode (least : Nat) (inner : Bool) : Nat → Reading Node
  | 0 => failure
  | fuel + 1 => do
    let start ← here
    let anchor ← properties false 2
    let cursor ← here
    let moved := cursor.column != start.column || cursor.line != start.line
    if moved && (cursor.head? == some '\n' || cursor.head? == some '#' || cursor.head?.isNone) then
      let node ← nodeBehind least false fuel
      remember anchor node
      return node
    if inner && !moved && cursor.atSign '-' then
      Node.sequence <$> blockItems cursor.column fuel
    else if inner && !moved && cursor.atSign '?' then
      Node.mapping <$> blockEntries cursor.column fuel
    else if cursor.head? == some '|' || cursor.head? == some '>' then
      let node := quotedNode (← scan (block? least))
      remember anchor node
      return node
    else
      let (node, isPlain) ← atom fuel
      let isKey ← keyColon cursor
      if isKey then
        if !inner then failure
        remember anchor node
        let value ← nodeBehind (start.column + 1) true fuel
        let entries ← blockEntries start.column fuel
        return Node.mapping ((node, value) :: entries)
      else if isPlain then
        goTo cursor
        let node := plainNode (← scan (plain? false true least))
        remember anchor node
        return node
      else
        remember anchor node
        return node
termination_by structural fuel => fuel

/-- Reads the node behind a sign that introduces it, for a block whose nodes stand at column
`least` or further to the right.  Behind a key, which `isValue` tells, a sequence may stand one
column further to the left. -/
def nodeBehind (least : Nat) (isValue : Bool) : Nat → Reading Node
  | 0 => failure
  | fuel + 1 => do
    let start ← here
    let cursor := start.toToken false
    let sameLine := cursor.line == start.line
    if cursor.rest.isEmpty || cursor.atDocumentMarker then return Node.absent
    else if sameLine then do
      goTo cursor
      blockNode least (!isValue) fuel
    else if least ≤ cursor.column then do
      goTo cursor
      blockNode least true fuel
    else if isValue && cursor.column + 1 == least && cursor.atSign '-' then do
      goTo cursor
      Node.sequence <$> blockItems cursor.column fuel
    else return Node.absent
termination_by structural fuel => fuel

/-- Reads the items of a block sequence whose signs stand at a column. -/
def blockItems (column : Nat) : Nat → Reading (List Node)
  | 0 => failure
  | fuel + 1 => do
    let cursor := (← here).toToken false
    if cursor.column == column && cursor.atSign '-' && !cursor.atDocumentMarker then
      goTo cursor.next
      let item ← nodeBehind (column + 1) false fuel
      return item :: (← blockItems column fuel)
    else return []
termination_by structural fuel => fuel

/-- Reads the further entries of a block mapping whose keys stand at a column. -/
def blockEntries (column : Nat) : Nat → Reading (List (Node × Node))
  | 0 => failure
  | fuel + 1 => do
    let start ← here
    let cursor := start.toToken false
    let fresh := cursor.line != start.line || start.column == 0 || cursor.atSign '?'
    if cursor.rest.isEmpty || cursor.atDocumentMarker || cursor.column != column || !fresh then
      return []
    goTo cursor
    if cursor.atSign '?' then
      goTo cursor.next
      let key ← nodeBehind (column + 1) false fuel
      let behind := (← here).toToken false
      let value ←
        if behind.column == column && behind.atSign ':' then do
          goTo behind.next
          nodeBehind (column + 1) false fuel
        else pure Node.absent
      return (key, value) :: (← blockEntries column fuel)
    else
      let anchor ← properties false 2
      let (key, _) ← atom fuel
      remember anchor key
      if !(← keyColon cursor) then failure
      let value ← nodeBehind (column + 1) true fuel
      return (key, value) :: (← blockEntries column fuel)
termination_by structural fuel => fuel

end

/-! ## Documents -/

/-- Whether a line is a directive that is known. -/
def isDirective (line : List Char) : Bool :=
  "%YAML 1.1".toList.isPrefixOf line || "%YAML 1.2".toList.isPrefixOf line ||
    "%TAG ".toList.isPrefixOf line

/-- Passes over the directives in front of a document, and tells whether there are any. -/
def directives : Nat → Reading Bool
  | 0 => failure
  | fuel + 1 => do
    let cursor ← toToken false
    if cursor.column == 0 && cursor.head? == some '%' then
      let line := cursor.rest.takeWhile fun c => c != '\n'
      if !isDirective line then failure
      goTo (cursor.skip line.length)
      let _ ← directives fuel
      return true
    else return false

/-- Reads the only document of a text. -/
def document (fuel : Nat) : Reading Node := do
  let directed ← directives fuel
  let cursor ← toToken false
  let marked := cursor.atMarker '-'
  if directed && !marked then failure
  let node ←
    if marked then do
      goTo (cursor.skip 3)
      let inside := (cursor.skip 3).toToken false
      if inside.line == cursor.line && !inside.rest.isEmpty then do
        goTo inside
        blockNode 0 false fuel
      else nodeBehind 0 false fuel
    else nodeBehind 0 false fuel
  let behind ← toToken false
  if behind.atMarker '.' then
    goTo (behind.skip 3)
    let _ ← toToken false
  if !(← here).rest.isEmpty then failure
  return node

end Reading

/-- The document of a text; a text without one reads as an absent node. -/
def read? (text : List Char) : Option Node :=
  let text := if text.head? == some '\uFEFF' then text.tail else text
  if text.all isAllowedChar then
    let text := normalizeBreaks text
    (StateT.run (Reading.document (8 * (text.length + 4))) ⟨⟨0, 0, text⟩, []⟩).map Prod.fst
  else none

end PropertyIndex.Yaml
