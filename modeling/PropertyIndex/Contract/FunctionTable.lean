import PropertyIndex.KeyedList
import PropertyIndex.Source.Block

/-!
# The functions of a contract

A contract may define a function name several times.  The table of its functions keeps the last
definition of each name at the place where the name appeared first.

* `SourceFunction`: a function with its lines.
* `FunctionTable`: functions with distinct names.
* `FunctionTable.insert`, `FunctionTable.ofList`: building a table.
* `FunctionTable.get?`, `FunctionTable.names`: its two views.
* `FunctionTable.ofSource`: the table of a contract source.
-/

namespace PropertyIndex.Contract

open Text Source

/-- A function found in a contract source. -/
structure SourceFunction where
  name : String
  startLine : Nat
  endLine : Nat
  /-- Header and body. -/
  lines : List String
  deriving DecidableEq, Repr

/-- The text of a function. -/
def SourceFunction.text (function : SourceFunction) : String :=
  joinLines function.lines

/-- The function in a block. -/
def SourceFunction.ofBlock (block : Block) : SourceFunction :=
  { name := block.name
    startLine := block.startLine
    endLine := block.endLine
    lines := block.lines }

/-- The functions of a contract, in the order in which their names appeared first. -/
structure FunctionTable where
  functions : List SourceFunction
  distinct : (functions.map SourceFunction.name).Nodup

namespace FunctionTable

/-- The table without functions. -/
def empty : FunctionTable :=
  ⟨[], List.nodup_nil⟩

/-- The function names in order of first appearance. -/
def names (table : FunctionTable) : List String :=
  table.functions.map SourceFunction.name

/-- The function of a name. -/
def get? (table : FunctionTable) (name : String) : Option SourceFunction :=
  table.functions.find? fun function => function.name == name

/-- Whether a name is in the table. -/
def contains (table : FunctionTable) (name : String) : Bool :=
  (table.get? name).isSome

/-- The number of functions. -/
def size (table : FunctionTable) : Nat :=
  table.functions.length

/-- Whether there is no function. -/
def isEmpty (table : FunctionTable) : Bool :=
  table.functions.isEmpty

/-- A table with a function, which replaces an earlier one of the same name. -/
def insert (table : FunctionTable) (function : SourceFunction) : FunctionTable :=
  ⟨putByKey SourceFunction.name function table.functions,
    nodup_map_putByKey function table.distinct⟩

/-- The table of a sequence of functions. -/
def ofList (functions : List SourceFunction) : FunctionTable :=
  functions.foldl insert empty

/-- The function blocks of a contract source, with and without a name. -/
def blocks (source : String) : List Block :=
  scanBodies "function" source

/-- The named functions of a contract source, in file order. -/
def definitions (source : String) : List SourceFunction :=
  ((blocks source).filter fun block => block.name != "").map SourceFunction.ofBlock

/-- The function table of a contract source. -/
def ofSource (source : String) : FunctionTable :=
  ofList (definitions source)

/-- The names that come up again in a sequence of functions after `seen`, once for each time. -/
def redefined (seen : List String) : List SourceFunction → List String
  | [] => []
  | function :: rest =>
    if seen.contains function.name then function.name :: redefined seen rest
    else redefined (function.name :: seen) rest

end FunctionTable

end PropertyIndex.Contract
