import PropertyIndex.Settings.Basic
import PropertyIndex.Text.Hex
import PropertyIndex.Yaml.Reader

/-!
# Reading settings

Settings are written as a mapping.  A key that is not known is passed over, and one that is known
may come up once.  A document without content leaves all settings as they are initially.

* `countOf?`: the number that a scalar spells.
* `Settings.ofNode?`: the settings that a node spells.
* `Settings.read?`: the settings of a text.
-/

namespace PropertyIndex.Settings

open Yaml

/-- The number that digits spell to a base. -/
def digitsToNat? (base : Nat) (digits : List Char) : Option Nat :=
  if digits.isEmpty then none
  else
    digits.foldlM (fun n c =>
      (Text.hexValue? c).bind fun d => if d < base then some (n * base + d) else none) 0

/-- A number, if it fits into 64 bits. -/
def bounded? (n : Option Nat) : Option Nat :=
  n.bind fun n => if n < UInt64.size then some n else none

/-- The number that a text spells.  A plus sign may stand in front.  A number is decimal, unless
`0x`, `0o` or `0b` says otherwise; a decimal number has no leading zeros. -/
def countOf? (text : List Char) : Option Nat :=
  let unsigned := if text.head? == some '+' then text.tail else text
  let based (sign : String) (base : Nat) : Option Nat :=
    (sign.toList.isPrefixOf? unsigned).bind fun digits => bounded? (digitsToNat? base digits)
  let padded := unsigned.head? == some '0' && 1 < unsigned.length
  let decimal := if padded then none else bounded? (digitsToNat? 10 unsigned)
  (based "0x" 16).or ((based "0o" 8).or ((based "0b" 2).or decimal))

/-- The path that a node spells: the text of any scalar. -/
def pathOf? : Node → Option String
  | .scalar text _ => some text
  | _ => none

/-- The number that a node spells, which may not be quoted. -/
def jobsOf? : Node → Option Nat
  | .scalar text true => countOf? text.toList
  | _ => none

/-- The node of a key, if it comes up; it may not come up twice. -/
def entry? (key : String) (entries : List (String × Node)) : Option (Option Node) :=
  match entries.filter fun entry => entry.1 == key with
  | [] => some none
  | [entry] => some (some entry.2)
  | _ => none

/-- A setting that is read if it is there. -/
def optional? (read : Node → Option α) : Option Node → Option (Option α)
  | none => some none
  | some node => (read node).map some

/-- The settings that a node spells. -/
def ofNode? : Node → Option Settings
  | .scalar text plain => if plain && text.isEmpty then some initial else none
  | .sequence _ => none
  | .mapping entries => do
    let entries ← entries.mapM fun (key, node) => (pathOf? key).map fun key => (key, node)
    let inputDirectory ← optional? pathOf? (← entry? "inputDirectory" entries)
    let outputDirectory ← optional? pathOf? (← entry? "outputDirectory" entries)
    let jobs ← optional? jobsOf? (← entry? "jobs" entries)
    return initial.withOverrides inputDirectory outputDirectory jobs

/-- The settings of a text. -/
def read? (text : String) : Option Settings :=
  (Yaml.read? text.toList).bind ofNode?

end PropertyIndex.Settings
