import PropertyIndex.Json.Reader
import PropertyIndex.Json.Shape
import PropertyIndex.Record.Basic

/-!
# Reading records

Stored records are read back from JSON.  A member that no field is named after is passed over; a
field that is missing, comes up twice or has a value of another type makes the reading fail, and
only a missing property text reads as none.  Metadata says by its members alone which kind it is:
that of a property is tried first.

* `Record.ofJson?`: the record that a value spells.
* `readArtifact?`: the records that a text stores.
-/

namespace PropertyIndex

open Spec

/-- The kind of property of a label. -/
def Spec.Kind.ofLabel? (label : String) : Option Kind :=
  [Kind.rule, .invariant].find? fun kind => kind.label == label

/-- The kind of record of a label. -/
def ChunkKind.ofLabel? (label : String) : Option ChunkKind :=
  [contractContext, contractInvariant, functionRule].find? fun kind => kind.label == label

/-- The facts of a contract that a value spells. -/
def ContextFacts.ofJson? (value : Json) : Option ContextFacts := do
  let fields ← value.fields? ["function_list", "state_variables", "is_standard", "spec_file"]
  match fields with
  | [some functionList, some stateVariables, some standard, some specFile] =>
    return { functionList := ← functionList.texts?
             stateVariables := ← stateVariables.texts?
             standard := ← standard.text?
             specFile := ← specFile.text? }
  | _ => none

/-- The facts of a property that a value spells. -/
def PropertyFacts.ofJson? (value : Json) : Option PropertyFacts := do
  let fields ← value.fields? ["rule_name", "rule_type", "modifies_state", "methods_in_block",
    "start_line", "end_line", "spec_file", "block_hash"]
  match fields with
  | [some ruleName, some kind, some modifiesState, some methods, some startLine, some endLine,
      some specFile, some digest] =>
    return { ruleName := ← ruleName.text?
             kind := ← kind.word?.bind Kind.ofLabel?
             modifiesState := ← modifiesState.bool?
             methods := ← methods.texts?
             startLine := ← startLine.natural?
             endLine := ← endLine.natural?
             specFile := ← specFile.text?
             digest := ← digest.text? }
  | _ => none

/-- How deep metadata may be nested.  It stands in a record, and that in a list. -/
def metadataDepth : Nat := 125

/-- The metadata that a value spells.  All of the value has to be exact, since which of its
members count is not known before it has been read. -/
def Metadata.ofJson? (value : Json) : Option Metadata :=
  if value.isExact && value.depth ≤ metadataDepth then
    ((PropertyFacts.ofJson? value).map property).or ((ContextFacts.ofJson? value).map context)
  else none

/-- The property text that a field spells. -/
def optionalText? : Option Json → Option (Option String)
  | none => some none
  | some .null => some none
  | some value => value.text?.map some

/-- The record that a value spells. -/
def Record.ofJson? (value : Json) : Option Record := do
  let fields ← value.fields? ["id", "chunk_type", "source_contract", "target_function",
    "text_chunk", "formal_property", "nl_summary", "metadata"]
  match fields with
  | [some id, some chunkKind, some contract, some target, some textChunk, formalProperty,
      some summary, some metadata] =>
    return { id := ← id.text?
             chunkKind := ← chunkKind.word?.bind ChunkKind.ofLabel?
             contract := ← contract.text?
             target := .ofText (← target.text?)
             textChunk := ← textChunk.text?
             formalProperty := ← optionalText? formalProperty
             summary := ← summary.text?
             metadata := ← Metadata.ofJson? metadata }
  | _ => none

/-- The records that a text stores. -/
def readArtifact? (text : String) : Option (List Record) := do
  match ← Json.read? text.toList with
  | .array items => items.mapM Record.ofJson?
  | _ => none

end PropertyIndex
