import PropertyIndex.Proofs.JsonRoundTrip
import PropertyIndex.Proofs.StoredLinkage
import PropertyIndex.Record.Json
import PropertyIndex.Record.Reader

/-!
# Artifacts are read back

The value of a record is a plain one, so its printed form gives the value back, and each field of
the value gives back what was put into it.  Metadata says by its members alone which kind it is;
the facts of a contract lack members that the facts of a property have to have, so the reading that
is tried first refuses them.

* `Json.fields?_record`: the fields of a record with distinct keys.
* `Json.texts?_texts`, `Json.natural?_natural`: values of single types.
* `Metadata.ofJson?_toJson`, `Record.ofJson?_toJson`: values of metadata and records.
* `Record.IsStorable`: the records that are read back.
* `readArtifact?_artifact`: a list of such records is read back from its artifact.
-/

namespace PropertyIndex

open Text Spec

namespace Json

/-! ## Fields and values -/

theorem valuesOf_of_notMem {key : String} {members : List (String × Json)}
    (h : key ∉ members.map Prod.fst) :
    valuesOf key (members.map fun member => (some member.1, member.2)) = [] := by
  rw [valuesOf, List.map_eq_nil_iff, List.filter_eq_nil_iff]
  rintro _ hmem
  obtain ⟨member, hmember, rfl⟩ := List.mem_map.1 hmem
  have hne : member.1 ≠ key := fun heq => h (List.mem_map.2 ⟨member, hmember, heq⟩)
  simpa using hne

theorem valuesOf_of_mem {key : String} {value : Json} {members : List (String × Json)}
    (distinct : (members.map Prod.fst).Nodup) (h : (key, value) ∈ members) :
    valuesOf key (members.map fun member => (some member.1, member.2)) = [value] := by
  induction members with
  | nil => exact absurd h List.not_mem_nil
  | cons member members ih =>
    rw [List.map_cons, List.nodup_cons] at distinct
    rw [List.map_cons, valuesOf, List.filter_cons]
    rcases List.mem_cons.1 h with rfl | hmem
    · rw [if_pos (beq_self_eq_true _), List.map_cons, ← valuesOf, valuesOf_of_notMem distinct.1]
    · have hne : ¬ (some member.1 == some key) = true := by
        rw [beq_iff_eq, Option.some.injEq]
        rintro rfl
        exact distinct.1 (List.mem_map.2 ⟨_, hmem, rfl⟩)
      rw [if_neg hne]
      exact ih distinct.2 hmem

theorem mapM_fst_eq_some {f : String → Option (Option Json)} {members : List (String × Json)}
    (h : ∀ member ∈ members, f member.1 = some (some member.2)) :
    (members.map Prod.fst).mapM f = some (members.map fun member => some member.2) := by
  induction members with
  | nil => rfl
  | cons member members ih =>
    rw [List.map_cons, List.mapM_cons, h member List.mem_cons_self,
      ih fun other hother => h other (List.mem_cons_of_mem _ hother)]
    rfl

/-- A record with distinct keys has the fields that were put into it. -/
theorem fields?_record {members : List (String × Json)}
    (distinct : (members.map Prod.fst).Nodup) :
    (record members).fields? (members.map Prod.fst) =
      some (members.map fun member => some member.2) := by
  have hkeys : ((members.map fun member => (some member.1, member.2)).all
      fun member : Literal × Json => member.1.isSome) = true := by
    simp
  rw [record, fields?, if_pos hkeys]
  refine mapM_fst_eq_some fun member hmember => ?_
  rw [valuesOf_of_mem distinct hmember]

theorem texts?_texts (list : List String) : (texts list).texts? = some list := by
  rw [texts, texts?]
  induction list with
  | nil => rfl
  | cons s list ih =>
    rw [List.map_cons, List.mapM_cons, ih]
    rfl

theorem toList_toString (n : Nat) : (toString n).toList = Nat.toDigits 10 n := by
  rw [Nat.toString_eq_ofList_toDigits, String.toList_ofList]

theorem natural?_natural {n : Nat} (h : n < UInt64.size) : (natural n).natural? = some n := by
  have hdigits : (Nat.toDigits 10 n).all Char.isDigit = true :=
    List.all_eq_true.2 isDigit_of_mem_toDigits
  have hsize : n < UInt64.size := h
  rw [natural, natural?, toList_toString, if_pos hdigits]
  simp only [Nat.ofDigitChars_ten_toDigits, if_pos hsize]

/-! ## Plain, exact and shallow values -/

theorem isPlain_texts (list : List String) : IsPlain (texts list) := by
  rw [texts, IsPlain]
  induction list with
  | nil => trivial
  | cons s list ih => exact ⟨rfl, ih⟩

theorem isPlain_natural (n : Nat) : IsPlain (natural n) :=
  ⟨n, rfl⟩

theorem isExact_texts (list : List String) : (texts list).isExact = true := by
  rw [texts, isExact]
  induction list with
  | nil => rfl
  | cons s list ih =>
    rw [List.map_cons, areExactItems, ih]
    rfl

theorem depth_texts (list : List String) : (texts list).depth = 1 := by
  have hitems : depthOfItems (list.map text) = 0 := by
    induction list with
    | nil => rfl
    | cons s list ih =>
      rw [List.map_cons, depthOfItems, ih]
      rfl
  rw [texts, depth, hitems]

/-- A run of few digits is finite. -/
theorem isFinite_of_digits {spelling : String} (hdigits : ∀ c ∈ spelling.toList, c.isDigit = true)
    (hlength : spelling.toList.length ≤ 308) : isFinite spelling = true := by
  have hdrop : ((spelling.toList).dropWhile fun c => c == '0').length ≤ 308 :=
    Nat.le_trans (List.dropWhile_sublist _).length_le hlength
  rw [isFinite]
  split
  · next digits heq =>
    exact absurd (hdigits '-' (heq ▸ List.mem_cons_self)) (by decide)
  · simp only [List.takeWhile_eq_self_iff.2 hdigits, List.dropWhile_eq_nil_iff.2 hdigits,
      List.append_nil, List.dropWhile_nil, exponentOf, List.length_nil, Bool.or_eq_true,
      decide_eq_true_eq]
    exact Or.inl (Or.inr (by omega))

/-- A number of 64 bits has at most twenty digits, so it is finite by far. -/
theorem isExact_natural {n : Nat} (h : n < UInt64.size) : (natural n).isExact = true := by
  have hsize : n < 18446744073709551616 := h
  rw [natural, isExact]
  refine isFinite_of_digits ?_ ?_ <;> rw [toList_toString]
  · exact isDigit_of_mem_toDigits
  · have hlength : (Nat.toDigits 10 n).length ≤ 20 :=
      (Nat.length_toDigits_le_iff (by decide) (by decide)).2 (by omega)
    omega

end Json

/-! ## Facts and metadata -/

theorem Spec.Kind.ofLabel?_label (kind : Kind) : Kind.ofLabel? kind.label = some kind := by
  cases kind <;> rfl

theorem ChunkKind.ofLabel?_label (kind : ChunkKind) : ofLabel? kind.label = some kind := by
  cases kind <;> rfl

/-- The facts of a contract are read back from their value. -/
theorem ContextFacts.ofJson?_toJson (facts : ContextFacts) :
    ContextFacts.ofJson? facts.toJson = some facts := by
  have hfields : facts.toJson.fields?
      ["function_list", "state_variables", "is_standard", "spec_file"] =
      some [some (.texts facts.functionList), some (.texts facts.stateVariables),
        some (.text facts.standard), some (.text facts.specFile)] :=
    Json.fields?_record <| by
      show ["function_list", "state_variables", "is_standard", "spec_file"].Nodup
      decide
  rw [ofJson?, hfields]
  show (do
    let functionList ← (Json.texts facts.functionList).texts?
    let stateVariables ← (Json.texts facts.stateVariables).texts?
    return ContextFacts.mk functionList stateVariables facts.standard facts.specFile) = _
  rw [Json.texts?_texts, Json.texts?_texts]
  rfl

/-- The facts of a property are read back from their value. -/
theorem PropertyFacts.ofJson?_toJson {facts : PropertyFacts}
    (hstart : facts.startLine < UInt64.size) (hend : facts.endLine < UInt64.size) :
    PropertyFacts.ofJson? facts.toJson = some facts := by
  have hfields : facts.toJson.fields? ["rule_name", "rule_type", "modifies_state",
      "methods_in_block", "start_line", "end_line", "spec_file", "block_hash"] =
      some [some (.text facts.ruleName), some (.text facts.kind.label),
        some (.bool facts.modifiesState), some (.texts facts.methods),
        some (.natural facts.startLine), some (.natural facts.endLine),
        some (.text facts.specFile), some (.text facts.digest)] :=
    Json.fields?_record <| by
      show ["rule_name", "rule_type", "modifies_state", "methods_in_block", "start_line",
        "end_line", "spec_file", "block_hash"].Nodup
      decide
  rw [ofJson?, hfields]
  show (do
    let kind ← Kind.ofLabel? facts.kind.label
    let methods ← (Json.texts facts.methods).texts?
    let startLine ← (Json.natural facts.startLine).natural?
    let endLine ← (Json.natural facts.endLine).natural?
    return PropertyFacts.mk facts.ruleName kind facts.modifiesState methods startLine endLine
      facts.specFile facts.digest) = _
  rw [Kind.ofLabel?_label, Json.texts?_texts, Json.natural?_natural hstart,
    Json.natural?_natural hend]
  rfl

/-- The facts of a contract are not those of a property. -/
theorem PropertyFacts.ofJson?_contextFacts (facts : ContextFacts) :
    PropertyFacts.ofJson? facts.toJson = none := by
  rfl

namespace Metadata

/-- Whether the line numbers of metadata are small enough to be stored. -/
def IsStorable : Metadata → Prop
  | property facts => facts.startLine < UInt64.size ∧ facts.endLine < UInt64.size
  | context _ => True

theorem isPlain_toJson (metadata : Metadata) : metadata.toJson.IsPlain := by
  cases metadata with
  | property facts =>
    exact ⟨rfl, rfl, rfl, rfl, rfl, trivial, rfl, Json.isPlain_texts _, rfl,
      Json.isPlain_natural _, rfl, Json.isPlain_natural _, rfl, rfl, rfl, rfl, trivial⟩
  | context facts =>
    exact ⟨rfl, Json.isPlain_texts _, rfl, Json.isPlain_texts _, rfl, rfl, rfl, rfl, trivial⟩

theorem isExact_toJson {metadata : Metadata} (h : metadata.IsStorable) :
    metadata.toJson.isExact = true := by
  cases metadata with
  | property facts =>
    simp [toJson, PropertyFacts.toJson, Json.record, Json.isExact, Json.areExactMembers,
      Json.isExact_texts, Json.isExact_natural h.1, Json.isExact_natural h.2, Json.text]
  | context facts =>
    simp [toJson, ContextFacts.toJson, Json.record, Json.isExact, Json.areExactMembers,
      Json.isExact_texts, Json.text]

theorem depth_toJson (metadata : Metadata) : metadata.toJson.depth = 2 := by
  cases metadata with
  | property facts =>
    simp [toJson, PropertyFacts.toJson, Json.record, Json.depth, Json.depthOfMembers,
      Json.depth_texts, Json.text, Json.natural]
  | context facts =>
    simp [toJson, ContextFacts.toJson, Json.record, Json.depth, Json.depthOfMembers,
      Json.depth_texts, Json.text]

/-- Metadata comes back as what it is. -/
theorem ofJson?_toJson {metadata : Metadata} (h : metadata.IsStorable) :
    Metadata.ofJson? metadata.toJson = some metadata := by
  have hread : (metadata.toJson.isExact && decide (metadata.toJson.depth ≤ metadataDepth)) =
      true := by
    rw [isExact_toJson h, depth_toJson]
    rfl
  rw [ofJson?, if_pos hread]
  cases metadata with
  | property facts =>
    rw [toJson, PropertyFacts.ofJson?_toJson h.1 h.2]
    rfl
  | context facts =>
    rw [toJson, PropertyFacts.ofJson?_contextFacts, ContextFacts.ofJson?_toJson]
    rfl

end Metadata

/-! ## Records -/

namespace Record

/-- Whether a record can be stored without loss. -/
structure IsStorable (record : Record) : Prop where
  target : record.target.IsStorable
  metadata : record.metadata.IsStorable

theorem isPlain_toJson (record : Record) : record.toJson.IsPlain := by
  have hformal : ((record.formalProperty.map Json.text).getD .null).IsPlain := by
    cases record.formalProperty with
    | none => trivial
    | some text => exact rfl
  exact ⟨rfl, rfl, rfl, rfl, rfl, rfl, rfl, rfl, rfl, rfl, rfl, hformal, rfl, rfl, rfl,
    Metadata.isPlain_toJson _, trivial⟩

theorem optionalText?_map (formal : Option String) :
    optionalText? (some ((formal.map Json.text).getD .null)) = some formal := by
  cases formal <;> rfl

/-- A storable record is read back from its value. -/
theorem ofJson?_toJson {record : Record} (h : record.IsStorable) :
    Record.ofJson? record.toJson = some record := by
  have hfields : record.toJson.fields? ["id", "chunk_type", "source_contract", "target_function",
      "text_chunk", "formal_property", "nl_summary", "metadata"] =
      some [some (.text record.id), some (.text record.chunkKind.label),
        some (.text record.contract), some (.text record.target.text),
        some (.text record.textChunk),
        some ((record.formalProperty.map Json.text).getD .null), some (.text record.summary),
        some record.metadata.toJson] :=
    Json.fields?_record <| by
      show ["id", "chunk_type", "source_contract", "target_function", "text_chunk",
        "formal_property", "nl_summary", "metadata"].Nodup
      decide
  rw [ofJson?, hfields]
  show (do
    let chunkKind ← ChunkKind.ofLabel? record.chunkKind.label
    let formalProperty ←
      optionalText? (some ((record.formalProperty.map Json.text).getD .null))
    let metadata ← Metadata.ofJson? record.metadata.toJson
    return Record.mk record.id chunkKind record.contract (.ofText record.target.text)
      record.textChunk formalProperty record.summary metadata) = _
  rw [ChunkKind.ofLabel?_label, optionalText?_map, Metadata.ofJson?_toJson h.metadata,
    Linkage.ofText_text h.target]
  rfl

end Record

theorem isPlain_array_map (records : List Record) :
    (Json.array (records.map Record.toJson)).IsPlain := by
  rw [Json.IsPlain]
  induction records with
  | nil => trivial
  | cons record records ih => exact ⟨record.isPlain_toJson, ih⟩

theorem mapM_ofJson?_map {records : List Record} (h : ∀ record ∈ records, record.IsStorable) :
    (records.map Record.toJson).mapM Record.ofJson? = some records := by
  induction records with
  | nil => rfl
  | cons record records ih =>
    rw [List.map_cons, List.mapM_cons, Record.ofJson?_toJson (h record List.mem_cons_self),
      ih fun other hother => h other (List.mem_cons_of_mem _ hother)]
    rfl

/-- Storable records are read back from their artifact. -/
theorem readArtifact?_artifact {records : List Record}
    (h : ∀ record ∈ records, record.IsStorable) :
    readArtifact? (artifact records) = some records := by
  rw [readArtifact?, artifact, String.toList_ofList, Json.read?_pretty (isPlain_array_map records)]
  exact mapM_ofJson?_map h

/-- Two records with texts that have to be escaped, one of a contract and one of a rule. -/
def escapedRecords : List Record :=
  [{ id := "Vault_contract_context"
     chunkKind := .contractContext
     contract := "Vault.sol"
     target := .all
     textChunk := "contract Vault \x7b // \"π\\\r\n\t\x01\x7d"
     formalProperty := none
     summary := ""
     metadata := .context
       { functionList := ["withdraw", "deposit"]
         stateVariables := []
         standard := "UNKNOWN"
         specFile := "Vault.spec" } },
   { id := "Vault_solvent_00000000"
     chunkKind := .functionRule
     contract := "Vault.sol"
     target := .functions ["deposit", "withdraw"]
     textChunk := ""
     formalProperty := some "rule solvent"
     summary := ""
     metadata := .property
       { ruleName := "solvent"
         kind := .rule
         modifiesState := true
         methods := ["deposit"]
         startLine := 18446744073709551615
         endLine := 0
         specFile := "Vault.spec"
         digest := "" } }]

theorem readArtifact?_escapedRecords :
    (∀ record ∈ escapedRecords, record.IsStorable) ∧
      readArtifact? (artifact escapedRecords) = some escapedRecords := by
  have h : ∀ record ∈ escapedRecords, record.IsStorable := by
    rw [escapedRecords, List.forall_mem_cons, List.forall_mem_singleton]
    exact ⟨⟨trivial, trivial⟩, ⟨⟨by decide, by decide, by decide⟩, ⟨by decide, by decide⟩⟩⟩
  exact ⟨h, readArtifact?_artifact h⟩

end PropertyIndex
