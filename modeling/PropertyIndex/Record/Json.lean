import PropertyIndex.Json.Printer
import PropertyIndex.Record.Basic

/-!
# Records as JSON

* `Record.toJson`: a record as a value.
* `artifact`: the text by which a list of records is stored.
-/

namespace PropertyIndex

/-- The facts of a contract as a value. -/
def ContextFacts.toJson (facts : ContextFacts) : Json :=
  .record
    [("function_list", .texts facts.functionList),
     ("state_variables", .texts facts.stateVariables),
     ("is_standard", .text facts.standard), ("spec_file", .text facts.specFile)]

/-- The facts of a property as a value. -/
def PropertyFacts.toJson (facts : PropertyFacts) : Json :=
  .record
    [("rule_name", .text facts.ruleName), ("rule_type", .text facts.kind.label),
     ("modifies_state", .bool facts.modifiesState), ("methods_in_block", .texts facts.methods),
     ("start_line", .natural facts.startLine), ("end_line", .natural facts.endLine),
     ("spec_file", .text facts.specFile), ("block_hash", .text facts.digest)]

/-- Metadata as a value.  The two kinds are told apart by their members alone. -/
def Metadata.toJson : Metadata → Json
  | property facts => facts.toJson
  | context facts => facts.toJson

/-- A record as a value. -/
def Record.toJson (record : Record) : Json :=
  .record
    [("id", .text record.id), ("chunk_type", .text record.chunkKind.label),
     ("source_contract", .text record.contract), ("target_function", .text record.target.text),
     ("text_chunk", .text record.textChunk),
     ("formal_property", (record.formalProperty.map Json.text).getD .null),
     ("nl_summary", .text record.summary), ("metadata", record.metadata.toJson)]

/-- The text by which a list of records is stored. -/
def artifact (records : List Record) : String :=
  String.ofList (Json.array (records.map Record.toJson)).pretty

end PropertyIndex
