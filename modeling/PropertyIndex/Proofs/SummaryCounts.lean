import Mathlib.Data.List.Nodup
import PropertyIndex.Proofs.Noting
import PropertyIndex.Proofs.RecordIdentity
import PropertyIndex.Proofs.RecoveredProperties
import PropertyIndex.Storage.Tree

/-!
# What a summary counts

The summary of a pair counts records in three ways: all of them, those about a property, and those
that are handed on for retrieval.  The counts follow from the properties of the spec alone.  Names
are unique across rules and invariants, so the rule of sanity takes away one record at most.

* `Run.on`: what a run gives on some storage, with a lemma for each step that runs are made of.
* `length_isProperty`, `length_isEmbeddable`: how many records of a contract are about a property,
  and how many of them are handed on.
* `FilePair.inputsOf`, `process_eq`: a pair that can be read and written, step by step.
* `process_counts`: the summary of such a pair.
-/

namespace PropertyIndex

open Spec

/-! ## Runs on some storage -/

namespace Run

variable {σ α β : Type} {storage after : σ}

/-- What a run gives on some storage, and the storage after it. -/
def on (x : Run (StateM σ) α) (storage : σ) : Except Failure α × σ :=
  let result := (x.run.run []).run storage
  (result.1.1, result.2)

/-- Behind a step that does not fail, a run goes on with what the step gives.  The notes of the step
make no difference. -/
theorem on_bind_of_ok {x : Run (StateM σ) α} {f : α → Run (StateM σ) β} {a : α}
    (hf : IsAppending (f a)) (h : x.on storage = (.ok a, after)) :
    (x >>= f).on storage = (f a).on after := by
  rcases hx : (x.run.run []).run storage with ⟨⟨result, notes⟩, later⟩
  rw [on, hx] at h
  obtain ⟨rfl, rfl⟩ := Prod.mk.inj h
  have hnotes := congrArg (StateT.run · later) (hf notes)
  rw [on, ExceptT.run_bind, StateT.run_bind, StateT.run_bind, hx]
  show ((((f a).run.run notes).run later).1.1, (((f a).run.run notes).run later).2) = _
  rw [hnotes]
  rfl

end Run

/-! ## Counting records -/

section Counts

variable {context : ContractContext} {digest : Property → String}
  {properties : List LinkedProperty}

/-- All records but that of the contract are about a property. -/
theorem filter_isProperty_recordsBy :
    (context.recordsBy digest properties).filter Record.isProperty =
      properties.map (context.propertyRecord digest) := by
  have hcontext : ¬ context.contextRecord.isProperty = true := Bool.false_ne_true
  rw [ContractContext.recordsBy, List.filter_cons_of_neg hcontext, List.filter_eq_self]
  intro record hrecord
  obtain ⟨linked, -, rfl⟩ := List.mem_map.1 hrecord
  rfl

/-- The records that are handed on are those of the properties with another name than that of the
rule of sanity. -/
theorem filter_isEmbeddable_recordsBy :
    (context.recordsBy digest properties).filter Record.isEmbeddable =
      (properties.filter fun linked => linked.property.name != Record.sanityRule).map
        (context.propertyRecord digest) := by
  have hcontext : ¬ context.contextRecord.isEmbeddable = true := Bool.false_ne_true
  rw [ContractContext.recordsBy, List.filter_cons_of_neg hcontext, List.filter_map]
  rfl

/-- A list without repeated names has one member less without the members of a name, if there is
one. -/
theorem length_filter_ne {α : Type} {name : α → String} {list : List α} (h : (list.map name).Nodup)
    (other : String) : (list.filter fun x => name x != other).length =
      if other ∈ list.map name then list.length - 1 else list.length := by
  have hmap : (list.filter fun x => name x != other).map name =
      (list.map name).filter fun x => x != other := by
    rw [List.filter_map]
    rfl
  rw [← List.length_map name, hmap, ← h.erase_eq_filter, List.length_erase, List.length_map]

end Counts

/-- Linkage neither adds properties to those of the spec nor leaves one out. -/
theorem Inputs.length_linkedProperties (inputs : Inputs) :
    inputs.linkedProperties.length = inputs.properties.length := by
  rw [linkedProperties_eq, List.length_map]

/-- Indexing gives one record for each property of the spec that is about a property. -/
theorem Inputs.length_isProperty (inputs : Inputs) :
    (inputs.records.filter Record.isProperty).length = inputs.properties.length := by
  rw [records, ContractContext.records, filter_isProperty_recordsBy, List.length_map,
    inputs.length_linkedProperties]

/-- All records of properties are handed on but that of the rule of sanity. -/
theorem Inputs.length_isEmbeddable (inputs : Inputs) :
    (inputs.records.filter Record.isEmbeddable).length =
      if Record.sanityRule ∈ inputs.properties.map Property.name then inputs.properties.length - 1
      else inputs.properties.length := by
  have hnames := inputs.names_linkedProperties
  have hdistinct : (inputs.linkedProperties.map fun linked => linked.property.name).Nodup := by
    rw [hnames]
    exact nodup_names_properties _ _ _
  rw [records, ContractContext.records, filter_isEmbeddable_recordsBy, List.length_map,
    length_filter_ne hdistinct, hnames, inputs.length_linkedProperties]

/-! ## Processing a pair -/

namespace FilePair

/-- The sources of a pair, given the texts of its files. -/
def inputsOf (pair : FilePair) (contract spec : String) : Inputs :=
  { contractName := pair.contractName, contract, specFile := pair.spec, spec }

variable {σ : Type} [Storage (StateM σ)] {pair : FilePair} {directory contract spec : String}
  {storage first second last : σ}

/-- Both files are read, one after the other, and indexed. -/
theorem index_on
    (hcontract : (readInput pair.contract : Run (StateM σ) String).on storage =
      (.ok contract, first))
    (hspec : (readInput pair.spec : Run (StateM σ) String).on first = (.ok spec, second)) :
    (pair.index : Run (StateM σ) (List Record)).on storage =
      (.ok (pair.inputsOf contract spec).records, second) := by
  refine (Run.on_bind_of_ok ?_ hcontract).trans ?_
  · exact Run.isAppending_bind (Run.isAppending_attempt _ _) fun _ => Run.isAppending_told _ _
  · exact Run.on_bind_of_ok (Run.isAppending_told _ _) hspec

/-- A pair that can be read and whose artifact can be written gives the summary of its records. -/
theorem process_on
    (hcontract : (readInput pair.contract : Run (StateM σ) String).on storage =
      (.ok contract, first))
    (hspec : (readInput pair.spec : Run (StateM σ) String).on first = (.ok spec, second))
    (hwrite : (writeArtifact (pair.inputsOf contract spec).records (pair.outputPath directory) :
      Run (StateM σ) Unit).on second = (.ok (), last)) :
    (pair.process directory : Run (StateM σ) Summary).on storage =
      (.ok (.of pair.name (pair.outputPath directory) (pair.inputsOf contract spec).records),
        last) := by
  refine (Run.on_bind_of_ok ?_ (index_on hcontract hspec)).trans ?_
  · exact Run.isAppending_bind (isAppending_writeArtifact _ _) fun _ => Run.isAppending_told _ _
  · exact Run.on_bind_of_ok (Run.isAppending_told _ _) hwrite

end FilePair

/-- When the files of a pair can be read and its artifact can be written, processing gives a
summary.  It counts one record for each property that the spec has and one more, and of the
properties all are handed on but the one that is called like the rule of sanity, if there is
one. -/
theorem process_counts {σ : Type} [Storage (StateM σ)] (pair : FilePair)
    (directory contract spec : String) (storage first second last : σ)
    (hcontract : (readInput pair.contract : Run (StateM σ) String).on storage =
      (.ok contract, first))
    (hspec : (readInput pair.spec : Run (StateM σ) String).on first = (.ok spec, second))
    (hwrite : (writeArtifact (pair.inputsOf contract spec).records (pair.outputPath directory) :
      Run (StateM σ) Unit).on second = (.ok (), last)) :
    ∃ summary : Summary,
      (pair.process directory : Run (StateM σ) Summary).on storage = (.ok summary, last) ∧
        summary.properties = (properties spec pair.spec (methods spec)).length ∧
        summary.records = summary.properties + 1 ∧
        summary.embeddable =
          if ∃ property ∈ properties spec pair.spec (methods spec), property.name = "sanity" then
            summary.properties - 1
          else summary.properties := by
  have hproperties := (pair.inputsOf contract spec).length_isProperty
  refine ⟨_, FilePair.process_on hcontract hspec hwrite, hproperties, ?_, ?_⟩
  · rw [Summary.of, hproperties]
    exact congrArg Nat.succ ((List.length_map _).trans (Inputs.length_linkedProperties _))
  · rw [Summary.of, hproperties, Inputs.length_isEmbeddable]
    exact if_congr List.mem_map rfl rfl

/-- A contract with one function. -/
def payContract : String := "function pay() \x7b\x7d"

/-- A spec with an invariant, a rule and the rule of sanity, which comes twice. -/
def saneSpec : String :=
  "invariant solvent() true; rule sanity \x7b\x7d rule pays \x7b pay(); \x7d rule sanity \x7b\x7d"

def saneFiles : Tree :=
  (Tree.empty.put ["Pay.sol", "work"] (.file (.text payContract))).put ["Pay.spec", "work"]
    (.file (.text saneSpec))

def sanePair : FilePair :=
  ⟨"Pay", "Pay.sol", "Pay.spec"⟩

theorem process_counts_saneFiles :
    ∃ last summary,
      (readInput "Pay.sol" : Run (StateM Tree) String).on saneFiles =
        (.ok payContract, saneFiles) ∧
      (readInput "Pay.spec" : Run (StateM Tree) String).on saneFiles = (.ok saneSpec, saneFiles) ∧
      (writeArtifact (sanePair.inputsOf payContract saneSpec).records "out/Pay_index.json" :
        Run (StateM Tree) Unit).on saneFiles = (.ok (), last) ∧
      (sanePair.process "out" : Run (StateM Tree) Summary).on saneFiles = (.ok summary, last) ∧
      summary.properties = 3 ∧ summary.records = 4 ∧ summary.embeddable = 2 := by
  have hcontract : (readInput "Pay.sol" : Run (StateM Tree) String).on saneFiles =
      (.ok payContract, saneFiles) := rfl
  have hspec : (readInput "Pay.spec" : Run (StateM Tree) String).on saneFiles =
      (.ok saneSpec, saneFiles) := rfl
  have hwrite : ((writeArtifact (sanePair.inputsOf payContract saneSpec).records
      "out/Pay_index.json" : Run (StateM Tree) Unit).on saneFiles).1 = .ok () := rfl
  obtain ⟨summary, hprocess, hproperties, hrecords, hembeddable⟩ :=
    process_counts sanePair "out" payContract saneSpec saneFiles saneFiles saneFiles _ hcontract
      hspec (Prod.ext hwrite rfl)
  -- The invariant comes first, so the candidates are the invariant and then the rules.
  have hcandidates : candidates saneSpec =
      candidatesOfKind .invariant saneSpec ++ candidatesOfKind .rule saneSpec := by
    have hlater : ∀ rule ∈ candidatesOfKind .rule saneSpec,
        ∀ invariant ∈ candidatesOfKind .invariant saneSpec,
          decide (rule.block.start ≤ invariant.block.start) = false := by
      decide +kernel
    obtain ⟨invariant, hinvariant⟩ : ∃ x, candidatesOfKind .invariant saneSpec = [x] :=
      List.length_eq_one_iff.1 (by decide +kernel)
    rw [hinvariant] at hlater
    rw [candidates, hinvariant, merge_cons_of_forall, List.merge_right]
    · rfl
    · exact fun rule hrule => hlater rule hrule invariant List.mem_cons_self
  have hnames : (properties saneSpec sanePair.spec (methods saneSpec)).map Property.name =
      ["solvent", "sanity", "pays"] := by
    rw [properties, hcandidates]
    decide +kernel
  have hsane : ∃ property ∈ properties saneSpec sanePair.spec (methods saneSpec),
      property.name = "sanity" := by
    rw [← List.mem_map, hnames]
    simp
  have hcount : summary.properties = 3 := by
    rw [hproperties, ← List.length_map Property.name, hnames]
    simp
  rw [if_pos hsane, hcount] at hembeddable
  rw [hcount] at hrecords
  exact ⟨_, summary, hcontract, hspec, Prod.ext hwrite rfl, hprocess, hcount, hrecords,
    hembeddable⟩

end PropertyIndex
