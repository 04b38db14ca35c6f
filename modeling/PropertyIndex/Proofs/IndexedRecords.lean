import Mathlib.Data.List.Forall2
import PropertyIndex.Analysis
import PropertyIndex.Proofs.FunctionTable

/-!
# The records of a contract with its spec

Linkage, chunk and mutation flag of a record are computed in different places from the names of
one function table.  The names of a linkage come from that table, so a lookup in it cannot fail and
the chunk of a linked property is made of the definitions that its target names.

* `mem_linkedNames`: where the names of a linkage come from.
* `ContractContext.chunk_of_mapM`, `ContractContext.changesState_iff`: the code of names that the
  table holds.
* `Inputs.linkedProperties_eq`: the stages before the records, property by property.
* `Inputs.IsCode`: what a linkage says about the code of a record.
* `Inputs.records_shape`: one record for the contract and one for each property, in order.
-/

namespace PropertyIndex

open Text Spec Contract

/-! ## Linkage -/

/-- Evidence links a property only to functions of the table. -/
theorem mem_linkedNames {body : String} {methods : List String} {table : FunctionTable}
    {name : String} (h : name ∈ (linkedNames body methods table).toList) : name ∈ table.names := by
  rw [linkedNames, NameSet.mem_ofList, List.mem_append, List.mem_filter, List.mem_filter] at h
  rcases h with h | h
  · exact FunctionTable.contains_iff.1 h.2
  · exact h.1

/-- A linkage either names no functions at all or all those that there is evidence for. -/
theorem linkage_cases (body : String) (methods : List String) (table : FunctionTable) :
    (linkage body methods table).isSentinel = true ∨
      ∃ names, linkage body methods table = .functions names ∧ names ≠ [] ∧
        names = (linkedNames body methods table).toList := by
  rw [linkage]
  split
  · left
    split <;> rfl
  · next h => exact Or.inr ⟨_, rfl, h, rfl⟩

/-- The names of a sentinel are none. -/
theorem Linkage.names_of_isSentinel {target : Linkage} (h : target.isSentinel = true) :
    target.names = [] := by
  cases target with
  | all => rfl
  | unknown => rfl
  | functions names => exact absurd h (by simp [isSentinel])

/-! ## The code of a linkage -/

namespace ContractContext

variable {context : ContractContext}

/-- A linkage without names stands for the whole source, which does not count as changing
state. -/
theorem chunk_of_isSentinel {target : Linkage} (h : target.isSentinel = true) :
    context.chunk target = context.source ∧ context.changesState target = false := by
  rw [chunk, changesState, Linkage.names_of_isSentinel h]
  exact ⟨rfl, rfl⟩

/-- A linkage with names stands for the functions that they look up. -/
theorem chunk_of_mapM {names : List String} {functions : List SourceFunction} (hne : names ≠ [])
    (h : names.mapM context.functions.get? = some functions) :
    context.chunk (.functions names) =
      joinWith "\n\n" (functions.map SourceFunction.text) := by
  obtain ⟨name, rest, rfl⟩ := List.exists_cons_of_ne_nil hne
  simp only [chunk, Linkage.names, h]

/-- A linkage changes state when one of the functions that its names look up does. -/
theorem changesState_iff {names : List String} {functions : List SourceFunction}
    (h : names.filterMap context.functions.get? = functions) :
    context.changesState (.functions names) = true ↔
      ∃ function ∈ functions, modifiesState function.text context.stateVariables = true := by
  rw [changesState, Linkage.names, h, List.any_eq_true]

end ContractContext

/-! ## The records -/

namespace Inputs

variable {inputs : Inputs}

/-- Each property is linked by its own text and carries its expanded lines. -/
theorem linkedProperties_eq (inputs : Inputs) :
    inputs.linkedProperties = inputs.properties.map fun property =>
      { property :=
          { property with lines := (snapshot inputs.properties).expanded property.name }
        target := inputs.linkageOf property } := by
  rw [linkedProperties, expand, List.zipWith_map, List.zipWith_self]

/-- What a target says about the chunk of a record and about its mutation flag, where the contract
has the functions `listed`: either it names none of them and the chunk is all of the source, or the
chunk is made of the last definitions of the names. -/
def IsCode (inputs : Inputs) (listed : List String) (target : Linkage) (chunk : String)
    (changes : Bool) : Prop :=
  (target.isSentinel = true ∧ chunk = inputs.contract ∧ changes = false) ∨
    ∃ names functions, target = .functions names ∧ names ≠ [] ∧ names.Pairwise (· < ·) ∧
      (∀ name ∈ names, name ∈ listed) ∧
      List.Forall₂ (IsLastNamed (FunctionTable.definitions inputs.contract)) names functions ∧
      chunk = "\n\n".intercalate (functions.map SourceFunction.text) ∧
      (changes = true ↔ ∃ function ∈ functions,
        modifiesState function.text (stateVariables inputs.contract) = true)

/-- The linkage of a property agrees with the code that its record holds. -/
theorem isCode_linkageOf (property : Property) :
    inputs.IsCode inputs.functions.names (inputs.linkageOf property)
      (inputs.context.chunk (inputs.linkageOf property))
      (inputs.context.changesState (inputs.linkageOf property)) := by
  rcases linkage_cases property.body property.methods inputs.functions with
    h | ⟨names, htarget, hne, hnames⟩
  · exact Or.inl ⟨h, ContractContext.chunk_of_isSentinel h⟩
  · have hlisted : ∀ name ∈ names, name ∈ inputs.functions.names := fun name hname =>
      mem_linkedNames (hnames ▸ hname)
    obtain ⟨functions, hmapM, hfilterMap, hall⟩ := FunctionTable.mapM_get?_eq_some hlisted
    refine Or.inr ⟨names, functions, htarget, hne, ?_, hlisted, ?_, ?_, ?_⟩
    · rw [hnames]
      exact (linkedNames _ _ _).ascending
    · exact hall.imp fun _ _ hget => FunctionTable.get?_ofList_eq_some.1 hget
    · rw [linkageOf, htarget]
      exact ContractContext.chunk_of_mapM hne hmapM
    · rw [linkageOf, htarget]
      exact ContractContext.changesState_iff hfilterMap

/-- What the record of a property of the spec holds. -/
structure IsRecordOf (inputs : Inputs) (listed : List String) (property : Property)
    (record : Record) (facts : PropertyFacts) : Prop where
  chunkKind : record.chunkKind = .ofKind property.kind
  metadata : record.metadata = .property facts
  ruleName : facts.ruleName = property.name
  kind : facts.kind = property.kind
  startLine : facts.startLine = property.startLine
  endLine : facts.endLine = property.endLine
  /-- The target comes from the property as it stands in the spec. -/
  target : record.target = linkage property.body property.methods inputs.functions
  code : inputs.IsCode listed record.target record.textChunk facts.modifiesState

/-- Indexing gives the record of the contract and then one for each property of the spec, in file
order, whose target, chunk and mutation flag agree with each other and with the functions that the
first record lists. -/
theorem records_shape (inputs : Inputs) :
    ∃ context facts rest, inputs.records = context :: rest ∧
      context.chunkKind = .contractContext ∧ context.metadata = .context facts ∧
      List.Forall₂
        (fun property record =>
          ∃ details, inputs.IsRecordOf facts.functionList property record details)
        inputs.properties rest := by
  refine ⟨inputs.context.contextRecord, _, _, rfl, rfl, rfl, ?_⟩
  rw [linkedProperties_eq, List.map_map, List.forall₂_map_right_iff, List.forall₂_same]
  intro property _
  exact ⟨_,
    { chunkKind := rfl
      metadata := rfl
      ruleName := rfl
      kind := rfl
      startLine := rfl
      endLine := rfl
      target := rfl
      code := isCode_linkageOf property }⟩

end Inputs

end PropertyIndex
