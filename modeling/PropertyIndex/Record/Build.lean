import PropertyIndex.Contract.Mutation
import PropertyIndex.Record.Basic
import PropertyIndex.Record.Fingerprint

/-!
# From a contract and its properties to records

* `ContractContext`: what the records of one contract have in common.
* `LinkedProperty`: a property with its linkage.
* `ContractContext.chunk`, `ContractContext.changesState`: the code that a linkage stands for, and
  whether it changes state.
* `ContractContext.recordsBy`, `ContractContext.records`: the record of the contract and those of
  its properties, for any digest that identifies properties and for the fingerprint.
-/

namespace PropertyIndex

open Text Spec Contract

/-- A property with its linkage. -/
structure LinkedProperty where
  property : Property
  target : Linkage
  deriving DecidableEq, Repr

/-- What the records of one contract have in common. -/
structure ContractContext where
  /-- The file name of the contract. -/
  fileName : String
  source : String
  functions : FunctionTable
  stateVariables : NameSet
  /-- The path of the spec. -/
  specFile : String

namespace ContractContext

/-- The name that the identifiers of the records begin with: the file name without its ending. -/
def baseName (context : ContractContext) : String :=
  let name := context.fileName.toList
  if ".sol".toList.isSuffixOf name then String.ofList (name.take (name.length - 4))
  else context.fileName

/-- The code that a linkage stands for: the linked functions, or the whole source where there are
none or one of them is unknown. -/
def chunk (context : ContractContext) (target : Linkage) : String :=
  match target.names with
  | [] => context.source
  | names =>
    match names.mapM context.functions.get? with
    | some functions => joinWith "\n\n" (functions.map SourceFunction.text)
    | none => context.source

/-- Whether one of the linked functions changes state. -/
def changesState (context : ContractContext) (target : Linkage) : Bool :=
  (target.names.filterMap context.functions.get?).any fun function =>
    modifiesState function.text context.stateVariables

/-- The record of the contract as a whole. -/
def contextRecord (context : ContractContext) : Record :=
  { id := context.baseName ++ "_contract_context"
    chunkKind := .contractContext
    contract := context.fileName
    target := .all
    textChunk := context.source
    formalProperty := none
    summary := ""
    metadata := .context
      { functionList := context.functions.names
        stateVariables := context.stateVariables.toList
        standard := "UNKNOWN"
        specFile := context.specFile } }

/-- The record of a property that a digest identifies. -/
def propertyRecord (context : ContractContext) (digest : Property → String)
    (linked : LinkedProperty) : Record :=
  let property := linked.property
  { id := context.baseName ++ "_" ++ property.name ++ "_" ++ shortDigest (digest property)
    chunkKind := .ofKind property.kind
    contract := context.fileName
    target := linked.target
    textChunk := context.chunk linked.target
    formalProperty := some property.body
    summary := ""
    metadata := .property
      { ruleName := property.name
        kind := property.kind
        modifiesState := context.changesState linked.target
        methods := property.methods
        startLine := property.startLine
        endLine := property.endLine
        specFile := context.specFile
        digest := digest property } }

/-- The record of the contract and those of its properties, in order, where a digest identifies
properties. -/
def recordsBy (context : ContractContext) (digest : Property → String)
    (properties : List LinkedProperty) : List Record :=
  context.contextRecord :: properties.map (context.propertyRecord digest)

/-- The record of the contract and those of its properties, in order. -/
def records (context : ContractContext) (properties : List LinkedProperty) : List Record :=
  context.recordsBy Property.fingerprint properties

end ContractContext

end PropertyIndex
