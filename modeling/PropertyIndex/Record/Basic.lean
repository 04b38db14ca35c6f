import PropertyIndex.Linkage
import PropertyIndex.Spec.Property
import PropertyIndex.Text.Normal

/-!
# Index records

An index record is what a search for properties finds: a chunk of contract code together with the
property that speaks of it.  Each pair of contract and spec gives one record for the contract as a
whole and one for every property.

* `ChunkKind`: what a record is about.
* `ContextFacts`, `PropertyFacts`, `Metadata`: what is known besides.
* `Record`: the record.
* `Record.embeddingText`, `Record.isEmbeddable`: what is handed on for retrieval.
-/

namespace PropertyIndex

open Text Spec

/-- What a record is about. -/
inductive ChunkKind where
  /-- The contract as a whole. -/
  | contractContext
  /-- An invariant of the contract. -/
  | contractInvariant
  /-- A rule about some of its functions. -/
  | functionRule
  deriving DecidableEq, Repr

/-- The word by which a kind of record is stored. -/
def ChunkKind.label : ChunkKind → String
  | .contractContext => "CONTRACT_CONTEXT"
  | .contractInvariant => "CONTRACT_INVARIANT"
  | .functionRule => "FUNCTION_RULE"

/-- The kind of record that a kind of property gives. -/
def ChunkKind.ofKind : Kind → ChunkKind
  | .invariant => .contractInvariant
  | .rule => .functionRule

/-- What is known of a contract. -/
structure ContextFacts where
  functionList : List String
  stateVariables : List String
  /-- The standard that the contract conforms to. -/
  standard : String
  specFile : String
  deriving DecidableEq, Repr

/-- What is known of a property. -/
structure PropertyFacts where
  ruleName : String
  kind : Kind
  /-- Whether one of the linked functions changes state. -/
  modifiesState : Bool
  methods : List String
  startLine : Nat
  endLine : Nat
  specFile : String
  /-- The digest that identifies the property. -/
  digest : String
  deriving DecidableEq, Repr

/-- What is known of the subject of a record. -/
inductive Metadata where
  | property (facts : PropertyFacts)
  | context (facts : ContextFacts)
  deriving DecidableEq, Repr

/-- An index record. -/
structure Record where
  id : String
  chunkKind : ChunkKind
  /-- The file name of the contract. -/
  contract : String
  target : Linkage
  textChunk : String
  formalProperty : Option String
  /-- A summary in words, which indexing leaves empty. -/
  summary : String
  metadata : Metadata
  deriving DecidableEq, Repr

namespace Record

/-- The name of the rule that checks a spec itself and says nothing about the contract. -/
def sanityRule : String := "sanity"

/-- The text of a record in the form that is handed on for retrieval. -/
def embeddingText (record : Record) : String :=
  String.ofList (normalize record.textChunk.toList)

/-- Whether a record is about a property. -/
def isProperty (record : Record) : Bool :=
  match record.metadata with
  | .property _ => true
  | .context _ => false

/-- Whether a record is handed on for retrieval. -/
def isEmbeddable (record : Record) : Bool :=
  match record.metadata with
  | .property facts => record.formalProperty.isSome && facts.ruleName != sanityRule
  | .context _ => false

end Record

end PropertyIndex
