import PropertyIndex.Proofs.Definition
import PropertyIndex.Proofs.IndexedRecords
import PropertyIndex.Proofs.RespacedDeclarations
import PropertyIndex.Proofs.ReturnedBlocks

/-!
# Indexing does not depend on the kind of line end

A contract and its spec may be checked out with line feeds at the line ends or with a carriage
return in front of each.  The blocks of both sources are the same but for their texts and offsets,
and records are made from the lines of blocks.  So only a record that carries all of the contract
tells the two apart.

* `infix_of_mem_scan`, `startLine_le_of_start_le`: blocks in their text.
* `FunctionTable.definitions_textWithReturns`, `stateVariables_textWithReturns`: the contract.
* `methods_textWithReturns`, `candidates_textWithReturns`, `properties_textWithReturns`: the spec.
* `Inputs.withReturns`, `records_withReturns`: the records.
-/

namespace PropertyIndex

open Text

/-! ## Blocks -/

namespace Source

variable {extent : Extent} {keyword text : String} {block : Block}

/-- A block is a stretch of its text. -/
theorem infix_of_mem_scan (hkeyword : IsKeyword keyword.toList)
    (h : block ∈ scan extent keyword text) : block.text.toList <:+: text.toList := by
  obtain ⟨place, hplace, hblock⟩ := List.mem_filterMap.1 h
  obtain ⟨⟨taken, terminated⟩, htaken, rfl⟩ := Option.map_eq_some_iff.1 hblock
  obtain ⟨hcells, -⟩ := eq_of_mem_occurrences hkeyword hplace
  obtain ⟨more, hcut⟩ := isCut_block? htaken
  refine ⟨source place.before.reverse, source more, ?_⟩
  rw [String.toList_ofList, ← source_mask text.toList, hcells, hcut.eq]
  simp only [source, List.map_append, List.append_assoc]

/-- Without carriage returns in its own text, a block has the same lines with them. -/
theorem Block.lines_withReturns (h : '\r' ∉ block.text.toList) :
    block.withReturns.lines = block.lines := by
  rw [Block.lines, Block.withReturns, String.toList_ofList, Text.lines_withReturns h, Block.lines]

theorem notMem_return_of_mem_scan (hkeyword : IsKeyword keyword.toList)
    (htext : HasPlainLineEnds text.toList) (h : block ∈ scan extent keyword text) :
    '\r' ∉ block.text.toList := fun hmem =>
  htext.no_return ((infix_of_mem_scan hkeyword h).subset hmem)

/-- Of two blocks of a text, the one that starts first starts on no later line. -/
theorem startLine_le_of_start_le {extent' : Extent} {keyword' : String} {other : Block}
    (hkeyword : IsKeyword keyword.toList) (hkeyword' : IsKeyword keyword'.toList)
    (hblock : block ∈ scan extent keyword text) (hother : other ∈ scan extent' keyword' text)
    (h : block.start ≤ other.start) : block.startLine ≤ other.startLine := by
  obtain ⟨place, hplace, hplaced⟩ := List.mem_filterMap.1 hblock
  obtain ⟨place', hplace', hplaced'⟩ := List.mem_filterMap.1 hother
  have hline := (isFaithful_of_block? hkeyword hplace hplaced).startLine_eq
  have hline' := (isFaithful_of_block? hkeyword' hplace' hplaced').startLine_eq
  have hcount := (List.take_sublist_take_left (l := utf8Bytes text) h).count_le lineFeedByte
  omega

end Source

/-! ## The contract -/

namespace Contract

open Source

/-- The functions of a contract are the same with carriage returns. -/
theorem FunctionTable.definitions_textWithReturns {source : String}
    (h : HasPlainLineEnds source.toList) :
    definitions (textWithReturns source) = definitions source := by
  rw [definitions, blocks, scanBodies, scan_textWithReturns .body isKeyword_function h,
    List.filter_map, List.map_map]
  refine List.map_congr_left fun block hblock => ?_
  have hmem : block ∈ scan .body "function" source := List.mem_of_mem_filter hblock
  have hlines := Block.lines_withReturns (notMem_return_of_mem_scan isKeyword_function h hmem)
  simp only [Function.comp_apply, SourceFunction.ofBlock, hlines]
  rfl

/-- The state variables of a contract are the same with carriage returns. -/
theorem stateVariables_textWithReturns {source : String} (h : HasPlainLineEnds source.toList) :
    stateVariables (textWithReturns source) = stateVariables source := by
  have hshown : Respaced (shownText (mask source.toList))
      (shownText (mask (textWithReturns source).toList)) := by
    rw [textWithReturns, String.toList_ofList]
    exact shownText_returned (returnedCells_maskFrom h trivial)
  rw [stateVariables, stateVariables]
  simp only [List.flatMap_cons, List.flatMap_nil, declarationsIn_respaced isShape_plain? hshown,
    declarationsIn_respaced isShape_valued? hshown, declarationsIn_respaced isShape_mapping? hshown]

end Contract

/-! ## The spec -/

namespace Spec

open Source

variable {spec : String}

theorem isKeyword_methods : IsKeyword "methods".toList :=
  ⟨by decide, List.all_eq_true.1 (by decide)⟩

/-- The declared methods of a spec are the same with carriage returns. -/
theorem methods_textWithReturns (h : HasPlainLineEnds spec.toList) :
    methods (textWithReturns spec) = methods spec := by
  have hblocks : methodBlocks (textWithReturns spec) = (methodBlocks spec).map Block.withReturns :=
    scan_textWithReturns .body isKeyword_methods h
  rw [methods, methods, hblocks]
  rcases hcases : methodBlocks spec with _ | ⟨block, rest⟩
  · rfl
  · have hmem : block ∈ scan .body "methods" spec := by
      show block ∈ methodBlocks spec
      rw [hcases]
      exact List.mem_cons_self
    have hreturn := notMem_return_of_mem_scan isKeyword_methods h hmem
    show methodsOfLines (Text.lines (String.ofList _).toList) = _
    rw [String.toList_ofList, Text.lines_withReturns hreturn]

theorem isQualifiedName_of_calledName? {text name : List Char} (h : calledName? text = some name) :
    isQualifiedName name = true := by
  rw [calledName?] at h
  split_ifs at h with hname
  obtain rfl := Option.some_inj.1 h
  exact (Bool.and_eq_true_iff.1 hname).1

/-- A spec declares qualified names. -/
theorem isQualifiedName_of_mem_methods {method : String} (h : method ∈ methods spec) :
    isQualifiedName method.toList = true := by
  rw [methods] at h
  split at h
  · exact absurd h List.not_mem_nil
  · next block _ _ =>
    rw [methodsOfLines, List.mem_eraseDups] at h
    obtain ⟨name, hname, rfl⟩ := List.mem_map.1 (List.mem_of_mem_filter h)
    obtain ⟨line, -, hline⟩ := List.mem_filterMap.1 hname
    rw [String.toList_ofList]
    rw [declaredMethod?, Option.or_eq_some_iff] at hline
    rcases hline with hintroduced | ⟨-, hcalled⟩
    · obtain ⟨behind, -, hcalled⟩ := Option.bind_eq_some_iff.1 hintroduced
      exact isQualifiedName_of_calledName? hcalled
    · exact isQualifiedName_of_calledName? hcalled

/-- A candidate as it stands in the spec with carriage returns. -/
def Candidate.withReturns (candidate : Candidate) : Candidate :=
  { candidate with block := candidate.block.withReturns }

theorem candidatesOfKind_textWithReturns (kind : Kind) (h : HasPlainLineEnds spec.toList) :
    candidatesOfKind kind (textWithReturns spec) =
      (candidatesOfKind kind spec).map Candidate.withReturns := by
  have hblocks : blocksOfKind kind (textWithReturns spec) =
      (blocksOfKind kind spec).map Block.withReturns :=
    scan_textWithReturns kind.extent kind.isKeyword h
  rw [candidatesOfKind, hblocks, List.filter_map, List.map_map, candidatesOfKind, List.map_map]
  rfl

theorem mem_blocksOfKind_of_mem {kind : Kind} {candidate : Candidate}
    (h : candidate ∈ candidatesOfKind kind spec) :
    candidate.block ∈ scan kind.extent kind.keyword spec := by
  obtain ⟨block, hblock, rfl⟩ := List.mem_map.1 h
  exact List.mem_of_mem_filter hblock

/-- Carriage returns move a block by the number of lines in front of it, so the order of the file
stays. -/
theorem candidates_textWithReturns (h : HasPlainLineEnds spec.toList) :
    candidates (textWithReturns spec) = (candidates spec).map Candidate.withReturns := by
  rw [candidates, candidatesOfKind_textWithReturns _ h, candidatesOfKind_textWithReturns _ h,
    candidates]
  refine (List.map_merge fun rule hrule invariant hinvariant => ?_).symm
  have hrule' := mem_blocksOfKind_of_mem hrule
  have hinvariant' := mem_blocksOfKind_of_mem hinvariant
  have hle := startLine_le_of_start_le Kind.rule.isKeyword Kind.invariant.isKeyword hrule'
    hinvariant'
  have hge := startLine_le_of_start_le Kind.invariant.isKeyword Kind.rule.isKeyword hinvariant'
    hrule'
  rw [decide_eq_decide]
  show _ ↔ rule.block.start + (rule.block.startLine - 1) ≤
    invariant.block.start + (invariant.block.startLine - 1)
  omega

theorem firstOfEachName_map_withReturns (seen : List String) (candidates : List Candidate) :
    firstOfEachName seen (candidates.map Candidate.withReturns) =
      (firstOfEachName seen candidates).map Candidate.withReturns := by
  induction candidates generalizing seen with
  | nil => rfl
  | cons candidate rest ih =>
    rw [List.map_cons, firstOfEachName, firstOfEachName, ih, ih]
    show (if seen.contains candidate.block.name then _ else _) = _
    split_ifs
    · rfl
    · rfl

/-- A candidate stands for the same property with carriage returns. -/
theorem Candidate.property_withReturns {candidate : Candidate} {file : String}
    {methods : List String} (hreturn : '\r' ∉ candidate.block.text.toList)
    (hmethods : ∀ method ∈ methods, isQualifiedName method.toList = true) :
    candidate.withReturns.property file methods = candidate.property file methods := by
  have hunseen : Unseen (· = '\n') IsGap isNameChar :=
    unseen_respaced (by decide) (by decide) (by decide)
  have hlines : candidate.withReturns.block.lines = candidate.block.lines :=
    Block.lines_withReturns hreturn
  have hlisted : ∀ method ∈ methods,
      containsWord candidate.withReturns.block.text.toList (bareName method).toList =
        containsWord candidate.block.text.toList (bareName method).toList := by
    intro method hmethod
    have hqualified := hmethods method hmethod
    obtain ⟨hne, hident⟩ := isIdentChar_of_isIdentifier (isIdentifier_bareName hqualified)
    have hname : ∀ c ∈ (bareName method).toList, isNameChar c = true := fun c hc =>
      isNameChar_of_isIdentChar (hident c hc)
    rw [containsWord_bareName hqualified, containsWord_bareName hqualified, decide_eq_decide]
    show HasWord _ _ (String.ofList _).toList ↔ _
    rw [String.toList_ofList]
    exact (respaced_withReturns _).hasWord_iff hunseen hname hne
  simp only [Candidate.property, hlines, List.filter_congr hlisted]
  rfl

/-- The properties of a spec are the same with carriage returns. -/
theorem properties_textWithReturns (h : HasPlainLineEnds spec.toList) (file : String)
    {methods : List String} (hmethods : ∀ method ∈ methods, isQualifiedName method.toList = true) :
    properties (textWithReturns spec) file methods = properties spec file methods := by
  rw [properties, candidates_textWithReturns h, firstOfEachName_map_withReturns, List.map_map,
    properties]
  refine List.map_congr_left fun candidate hcandidate => ?_
  have hmem := List.mem_merge.1 (mem_of_mem_firstOfEachName hcandidate)
  have hreturn : '\r' ∉ candidate.block.text.toList := by
    rcases hmem with hrule | hinvariant
    · exact notMem_return_of_mem_scan Kind.rule.isKeyword h (mem_blocksOfKind_of_mem hrule)
    · exact notMem_return_of_mem_scan Kind.invariant.isKeyword h
        (mem_blocksOfKind_of_mem hinvariant)
  exact Candidate.property_withReturns hreturn hmethods

end Spec

/-! ## The records -/

open Source Contract Spec

namespace Inputs

variable {inputs : Inputs}

/-- The same two sources with a carriage return in front of each line feed. -/
def withReturns (inputs : Inputs) : Inputs :=
  { inputs with contract := textWithReturns inputs.contract, spec := textWithReturns inputs.spec }

/-- Properties are linked to the same functions with carriage returns. -/
theorem linkedProperties_withReturns (hcontract : HasPlainLineEnds inputs.contract.toList)
    (hspec : HasPlainLineEnds inputs.spec.toList) :
    inputs.withReturns.linkedProperties = inputs.linkedProperties := by
  have hfunctions : inputs.withReturns.functions = inputs.functions :=
    congrArg FunctionTable.ofList (FunctionTable.definitions_textWithReturns hcontract)
  have hproperties : inputs.withReturns.properties = inputs.properties := by
    have hmethods : methods inputs.withReturns.spec = methods inputs.spec :=
      methods_textWithReturns hspec
    rw [properties, hmethods]
    exact properties_textWithReturns hspec _ fun method => isQualifiedName_of_mem_methods
  have hlinkage : inputs.withReturns.linkageOf = inputs.linkageOf := by
    funext property
    rw [linkageOf, linkageOf, hfunctions]
  rw [linkedProperties, linkedProperties, hproperties, hlinkage]

/-- What records have in common is the same but for the source of the contract. -/
theorem context_withReturns (hcontract : HasPlainLineEnds inputs.contract.toList) :
    inputs.withReturns.context =
      { inputs.context with source := textWithReturns inputs.contract } := by
  have hfunctions : inputs.withReturns.functions = inputs.functions :=
    congrArg FunctionTable.ofList (FunctionTable.definitions_textWithReturns hcontract)
  have hvariables : stateVariables inputs.withReturns.contract = stateVariables inputs.contract :=
    stateVariables_textWithReturns hcontract
  rw [context, context, hfunctions, hvariables]
  rfl

/-- The chunk of a linked property is made of functions, unless its target names none. -/
theorem chunk_withSource {linked : LinkedProperty} (hlinked : linked ∈ inputs.linkedProperties)
    (source : String) : ContractContext.chunk { inputs.context with source } linked.target =
      if linked.target.isSentinel then source else inputs.context.chunk linked.target := by
  rw [linkedProperties_eq] at hlinked
  obtain ⟨property, -, rfl⟩ := List.mem_map.1 hlinked
  show ContractContext.chunk _ (inputs.linkageOf property) =
    if (inputs.linkageOf property).isSentinel then _ else _
  rcases linkage_cases property.body property.methods inputs.functions with
    h | ⟨names, htarget, hne, hnames⟩
  · rw [linkageOf, if_pos h]
    exact (ContractContext.chunk_of_isSentinel h).1
  · have hlisted : ∀ name ∈ names, name ∈ inputs.functions.names := fun name hname =>
      mem_linkedNames (hnames ▸ hname)
    obtain ⟨functions, hmapM, -, -⟩ := FunctionTable.mapM_get?_eq_some hlisted
    have hchunk : inputs.context.chunk (.functions names) =
        joinWith "\n\n" (functions.map SourceFunction.text) :=
      ContractContext.chunk_of_mapM hne hmapM
    rw [linkageOf, htarget, hchunk]
    exact ContractContext.chunk_of_mapM hne hmapM

end Inputs

/-- A contract and a spec without carriage returns, and without a backslash in front of a line feed,
give the same records when they are checked out with a carriage return in front of each line feed.
Only the records whose target names no functions carry all of the contract, and they carry it as it
is then. -/
theorem records_withReturns (inputs : Inputs) (hcontract : HasPlainLineEnds inputs.contract.toList)
    (hspec : HasPlainLineEnds inputs.spec.toList) :
    (∀ record ∈ inputs.records, record.target.isSentinel = true →
      record.textChunk = inputs.contract) ∧
    inputs.withReturns.records = inputs.records.map fun record =>
      if record.target.isSentinel then { record with textChunk := textWithReturns inputs.contract }
      else record := by
  constructor
  · intro record hrecord hsentinel
    rcases List.mem_cons.1 hrecord with rfl | hmem
    · rfl
    · obtain ⟨linked, -, rfl⟩ := List.mem_map.1 hmem
      exact (ContractContext.chunk_of_isSentinel hsentinel).1
  · rw [Inputs.records, Inputs.context_withReturns hcontract,
      Inputs.linkedProperties_withReturns hcontract hspec, ContractContext.records,
      ContractContext.recordsBy, Inputs.records, ContractContext.records,
      ContractContext.recordsBy, List.map_cons, List.map_map]
    refine congrArg₂ List.cons rfl (List.map_congr_left fun linked hlinked => ?_)
    have hchunk := Inputs.chunk_withSource hlinked (textWithReturns inputs.contract)
    rw [ContractContext.propertyRecord, hchunk]
    show _ = if linked.target.isSentinel then _ else _
    split_ifs
    · rfl
    · rfl

/-- A contract and a spec with line feeds in the code, in comments, behind an open string literal
and inside a declaration. -/
def ledger : Inputs where
  contractName := "Ledger.sol"
  contract := "contract Ledger \x7b\n  uint256\n    public total;\n  // sum */\n" ++
    "  string s = \"/*\n  function pay() external \x7b\n    total -= 1; /* \x7d\n */\n" ++
    "  \x7d\n\x7d\n"
  specFile := "Ledger.spec"
  spec := "methods \x7b\n  function pay() external;\n\x7d\nrule pays\n\x7b\n  pay();\n\x7d\n" ++
    "invariant solvent()\n  total >= 0\n"

theorem records_withReturns_ledger :
    HasPlainLineEnds ledger.contract.toList ∧ HasPlainLineEnds ledger.spec.toList ∧
      (∀ record ∈ ledger.records, record.target.isSentinel = true →
        record.textChunk = ledger.contract) ∧
      ledger.withReturns.records = ledger.records.map fun record =>
        if record.target.isSentinel then
          { record with textChunk := textWithReturns ledger.contract }
        else record := by
  have hcontract : HasPlainLineEnds ledger.contract.toList := by decide +kernel
  have hspec : HasPlainLineEnds ledger.spec.toList := by decide +kernel
  exact ⟨hcontract, hspec, records_withReturns ledger hcontract hspec⟩

end PropertyIndex
