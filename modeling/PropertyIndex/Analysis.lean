import PropertyIndex.Contract.StateVariable
import PropertyIndex.Note
import PropertyIndex.Record.Build
import PropertyIndex.Spec.CrossReference
import PropertyIndex.Spec.Method

/-!
# Indexing a contract with its spec

Both sources are read, the properties are linked to functions by their own text, then expanded by
the properties they mention, and written as records.

* `Inputs`: the two sources with their names.
* `Inputs.linkedProperties`, `Inputs.records`: the stages and their result.
* `Inputs.notes`: what is worth telling the user about it.
-/

namespace PropertyIndex

open Text Spec Contract

/-- A contract and a spec, as texts with their names. -/
structure Inputs where
  /-- The file name of the contract. -/
  contractName : String
  contract : String
  /-- The path of the spec. -/
  specFile : String
  spec : String
  deriving DecidableEq, Repr

namespace Inputs

/-- The functions of the contract. -/
def functions (inputs : Inputs) : FunctionTable :=
  FunctionTable.ofSource inputs.contract

/-- The properties of the spec. -/
def properties (inputs : Inputs) : List Property :=
  Spec.properties inputs.spec inputs.specFile (methods inputs.spec)

/-- The linkage of a property of the spec. -/
def linkageOf (inputs : Inputs) (property : Property) : Linkage :=
  linkage property.body property.methods inputs.functions

/-- The properties, each linked by its own text and then expanded. -/
def linkedProperties (inputs : Inputs) : List LinkedProperty :=
  List.zipWith LinkedProperty.mk (expand inputs.properties)
    (inputs.properties.map inputs.linkageOf)

/-- What the records of the pair have in common. -/
def context (inputs : Inputs) : ContractContext :=
  { fileName := inputs.contractName
    source := inputs.contract
    functions := inputs.functions
    stateVariables := stateVariables inputs.contract
    specFile := inputs.specFile }

/-- The records of a contract with its spec. -/
def records (inputs : Inputs) : List Record :=
  inputs.context.records inputs.linkedProperties

end Inputs

/-! ## Notes -/

/-- The notes on the blocks of a keyword that do not come to an end. -/
def scanNotes (keyword : String) (blocks : List Source.Block) : List Note :=
  (blocks.filter fun block => !block.terminated).map fun block =>
    ⟨.debug, "unbalanced delimiters after `" ++ keyword ++ " " ++ block.name ++ "` (line " ++
      toString block.startLine ++ "), span runs to end of text"⟩

/-- The notes on functions that replace an earlier one. -/
def redefinitionNotes (functions : List SourceFunction) : List Note :=
  (FunctionTable.redefined [] functions).map fun name =>
    ⟨.debug, "function `" ++ name ++ "` redefined; keeping the later definition"⟩

/-- The notes on reading the functions of a contract. -/
def functionNotes (contract : String) : List Note :=
  scanNotes "function" (FunctionTable.blocks contract) ++
    redefinitionNotes (FunctionTable.definitions contract)

/-- The notes on reading the methods of a spec. -/
def methodNotes (spec : String) : List Note :=
  scanNotes "methods" (methodBlocks spec)

/-- The notes on reading the properties of a spec. -/
def propertyNotes (spec file : String) : List Note :=
  scanNotes "rule" (blocksOfKind .rule spec) ++
    scanNotes "invariant" (blocksOfKind .invariant spec) ++
    (repeated [] (candidates spec)).map fun candidate =>
      ⟨.warning, file ++ ": duplicate property `" ++ candidate.block.name ++ "` at line " ++
        toString candidate.block.startLine ++ " ignored"⟩

/-- The notes on expanding a list of properties. -/
def expansionNotes (properties : List Property) : List Note :=
  properties.filterMap fun property =>
    match ((snapshot properties).inlined property.name).length with
    | 0 => none
    | count =>
      some ⟨.debug, "`" ++ property.name ++ "` expanded with " ++ toString count ++
        " referenced block(s)"⟩

/-- The notes on indexing a contract with its spec. -/
def Inputs.notes (inputs : Inputs) : List Note :=
  functionNotes inputs.contract ++ methodNotes inputs.spec ++
    propertyNotes inputs.spec inputs.specFile ++
    (if inputs.functions.isEmpty then
      [⟨.info, inputs.contractName ++ ": no functions found"⟩] else []) ++
    (if inputs.properties.isEmpty then
      [⟨.info, inputs.specFile ++ ": no rules or invariants found"⟩] else []) ++
    expansionNotes inputs.properties

end PropertyIndex
