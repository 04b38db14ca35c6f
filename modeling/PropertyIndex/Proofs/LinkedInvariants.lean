import PropertyIndex.Proofs.BlockPosition
import PropertyIndex.Proofs.Definition
import PropertyIndex.Proofs.IndexedRecords
import PropertyIndex.Proofs.LowerCase

/-!
# Invariants are linked

Linkage knows nothing about the kind of a property.  Without evidence it looks for the word that
introduces invariants, in lower case, among the lines of the property.  The text of an invariant
begins with that word, and neither cutting the text into lines nor lower-casing changes a text as
far as it has small letters of one line.

* `prefix_lowercase`, `prefix_joinLines`: what keeps the front of a text.
* `prefix_text_of_mem_scan`: the text of a block begins with its keyword.
* `exists_block_of_mem_properties`: a property is read from a block of its kind.
* `target_of_contractInvariant`: the targets of invariants.
-/

namespace PropertyIndex

/-! ## The front of a text -/

namespace Text

/-- A small letter, or another ASCII character without letter case. -/
def isSmall (c : Char) : Bool :=
  c.toNat < 128 && c.toLower == c

/-- Lower-casing keeps a small letter, whatever is around it. -/
theorem lowercaseAfter_cons_of_isSmall {c : Char} (h : isSmall c = true) (left text : List Char) :
    lowercaseAfter left (c :: text) = c :: lowercaseAfter (c :: left) text := by
  rw [isSmall, Bool.and_eq_true, decide_eq_true_iff, beq_iff_eq] at h
  rw [lowercaseAfter_cons_of_lt h.1, h.2]

/-- A text in lower case begins with the small letters that it began with before. -/
theorem prefix_lowercaseAfter {word text : List Char} (hword : ∀ c ∈ word, isSmall c = true)
    (h : word <+: text) (left : List Char) : word <+: lowercaseAfter left text := by
  induction word generalizing text left with
  | nil => exact List.nil_prefix
  | cons c word ih =>
    obtain ⟨hc, hrest⟩ := List.forall_mem_cons.1 hword
    obtain ⟨text, rfl⟩ := h
    rw [List.cons_append, lowercaseAfter_cons_of_isSmall hc, List.cons_prefix_cons]
    exact ⟨rfl, ih hrest (List.prefix_append _ _) _⟩

theorem prefix_lowercase {word text : List Char} (hword : ∀ c ∈ word, isSmall c = true)
    (h : word <+: text) : word <+: lowercase text :=
  prefix_lowercaseAfter hword h []

/-- The first line of a text begins as the text does. -/
theorem prefix_head_lines {word text : List Char} (hne : word ≠ [])
    (hword : ∀ c ∈ word, c ≠ '\n' ∧ c ≠ '\r') (h : word <+: text) :
    ∃ line rest, lines text = line :: rest ∧ word <+: line := by
  obtain ⟨back, rfl⟩ := h
  have hpieces : pieces '\n' word = [] ++ [word] :=
    pieces_of_notMem fun hmem => (hword _ hmem).1 rfl
  obtain ⟨next, rest, hback⟩ := List.exists_cons_of_ne_nil (pieces_ne_nil '\n' back)
  obtain ⟨init, c, rfl⟩ := (List.eq_nil_or_concat' word).resolve_left hne
  have hreturn : c ≠ '\r' := (hword c (List.mem_append_right _ List.mem_cons_self)).2
  obtain ⟨line, below, hlines, hprefix⟩ :=
    @prefix_linesOfPieces init next c rest (Or.inr hreturn)
  refine ⟨line, below, ?_, hprefix⟩
  rw [lines, pieces_append_of_eq hpieces hback, List.append_assoc]
  exact hlines

/-- Lines put together begin as the first one does. -/
theorem prefix_joinLines {word : List Char} {line : String} (h : word <+: line.toList)
    (rest : List String) : word <+: (joinLines (line :: rest)).toList := by
  cases rest with
  | nil =>
    rw [joinLines, joinWith, String.intercalate_singleton]
    exact h
  | cons next rest =>
    rw [joinLines, joinWith, String.intercalate_cons_cons, String.toList_append,
      String.toList_append, List.append_assoc]
    exact h.trans (List.prefix_append _ _)

end Text

/-! ## The front of a block -/

namespace Source

open Text

variable {keyword : List Char} {before cells : List Cell}

/-- A place takes up the keyword first. -/
theorem prefix_header_of_occurrenceAt (hkeyword : IsKeyword keyword) {place : Occurrence}
    (h : occurrenceAt keyword before cells = some place) : keyword <+: visible place.header := by
  obtain ⟨word, behind, -, rfl, -, rfl⟩ := exists_of_occurrenceAt hkeyword h
  show visible word <+: visible (word ++ _ ++ _)
  rw [List.append_assoc, visible_append]
  exact List.prefix_append _ _

/-- Every place of a search takes up the keyword first. -/
theorem prefix_header_of_mem (hkeyword : IsKeyword keyword) :
    ∀ place ∈ occurrencesFrom keyword before 0 false cells, keyword <+: visible place.header := by
  induction before, cells using search_induction hkeyword with
  | nil before =>
    rw [occurrencesFrom_nil hkeyword]
    exact fun _ hmem => absurd hmem List.not_mem_nil
  | pass before cell cells hnone ih =>
    rw [occurrencesFrom_cons hnone]
    exact ih
  | found place hplace ih =>
    rw [occurrencesFrom_of_some hkeyword hplace]
    exact List.forall_mem_cons.2 ⟨prefix_header_of_occurrenceAt hkeyword hplace, ih⟩

/-- Cells that show a word without blanks hold it. -/
theorem prefix_source_of_visible {word : List Char} (hword : ∀ c ∈ word, c ≠ ' ')
    {cells : List Cell} (h : word <+: visible cells) : word <+: source cells := by
  induction word generalizing cells with
  | nil => exact List.nil_prefix
  | cons c word ih =>
    obtain ⟨hc, hrest⟩ := List.forall_mem_cons.1 hword
    cases cells with
    | nil => exact absurd (List.prefix_nil.1 h) (List.cons_ne_nil _ _)
    | cons cell cells =>
      obtain ⟨hshown, hprefix⟩ := List.cons_prefix_cons.1 h
      exact List.cons_prefix_cons.2 ⟨(char_of_shown hshown.symm hc).symm, ih hrest hprefix⟩

/-- The text of a block begins with its keyword. -/
theorem prefix_text_of_mem_scan {extent : Extent} {keyword text : String}
    (hkeyword : IsKeyword keyword.toList) {block : Block} (h : block ∈ scan extent keyword text) :
    keyword.toList <+: block.text.toList := by
  obtain ⟨place, hplace, hblock⟩ := List.mem_filterMap.1 h
  obtain ⟨⟨taken, terminated⟩, -, rfl⟩ := Option.map_eq_some_iff.1 hblock
  have hvisible := prefix_header_of_mem hkeyword place hplace
  have hspace : ∀ c ∈ keyword.toList, c ≠ ' ' := by
    rintro c hc rfl
    exact Bool.noConfusion (hkeyword.ident ' ' hc)
  show keyword.toList <+: (String.ofList (source (place.header ++ taken))).toList
  rw [String.toList_ofList, source, List.map_append]
  exact (prefix_source_of_visible hspace hvisible).trans (List.prefix_append _ _)

end Source

/-! ## Properties and their blocks -/

namespace Spec

open Text Source

/-- A property is read from a block of its kind and has the lines of the block. -/
theorem exists_block_of_mem_properties {spec file : String} {methods : List String}
    {property : Property} (h : property ∈ properties spec file methods) :
    ∃ block ∈ blocksOfKind property.kind spec, property.lines = block.lines := by
  obtain ⟨candidate, hcandidate, rfl⟩ := List.mem_map.1 h
  have hkind : ∀ kind, candidate ∈ candidatesOfKind kind spec →
      ∃ block ∈ blocksOfKind candidate.kind spec, candidate.block.lines = block.lines := by
    rintro kind hmem
    obtain ⟨block, hblock, rfl⟩ := List.mem_map.1 hmem
    exact ⟨block, List.mem_of_mem_filter hblock, rfl⟩
  rcases List.mem_merge.1 (mem_of_mem_firstOfEachName hcandidate) with hrule | hinvariant
  · exact hkind _ hrule
  · exact hkind _ hinvariant

/-- The text of a property begins with the keyword of its kind. -/
theorem prefix_body_of_mem_properties {spec file : String} {methods : List String}
    {property : Property} (h : property ∈ properties spec file methods) :
    property.kind.keyword.toList <+: property.body.toList := by
  obtain ⟨block, hblock, hlines⟩ := exists_block_of_mem_properties h
  have hkeyword := property.kind.isKeyword
  have hreturn : ∀ c ∈ property.kind.keyword.toList, c ≠ '\n' ∧ c ≠ '\r' := by
    intro c hc
    have hident := hkeyword.ident c hc
    constructor
    · rintro rfl
      exact Bool.noConfusion hident
    · rintro rfl
      exact Bool.noConfusion hident
  obtain ⟨line, rest, hcut, hprefix⟩ :=
    prefix_head_lines hkeyword.ne_nil hreturn (prefix_text_of_mem_scan hkeyword hblock)
  rw [Property.body, hlines, Block.lines, hcut, List.map_cons]
  refine prefix_joinLines ?_ _
  rwa [String.toList_ofList]

end Spec

/-! ## Targets -/

open Text Spec

theorem Inputs.contains_invariant {inputs : Inputs} {property : Property}
    (hproperty : property ∈ inputs.properties) (hkind : property.kind = .invariant) :
    contains "invariant".toList (lowercase property.body.toList) = true := by
  have hprefix := prefix_body_of_mem_properties hproperty
  rw [hkind] at hprefix
  have hsmall : ∀ c ∈ "invariant".toList, isSmall c = true := List.all_eq_true.1 (by decide)
  exact contains_iff.2 (prefix_lowercase hsmall hprefix).isInfix

/-- However malformed a spec is, an invariant concerns the whole contract or is linked to functions
of the contract, of which there is at least one. -/
theorem target_of_contractInvariant (inputs : Inputs) (record : Record)
    (hrecord : record ∈ inputs.records) (hkind : record.chunkKind = .contractInvariant) :
    record.target = .all ∨
      ∃ names, names ≠ [] ∧ (∀ name ∈ names, name ∈ inputs.functions.names) ∧
        record.target = .functions names := by
  rcases List.mem_cons.1 hrecord with rfl | hmem
  · exact absurd hkind (by simp [ContractContext.contextRecord])
  · obtain ⟨linked, hlinked, rfl⟩ := List.mem_map.1 hmem
    rw [Inputs.linkedProperties_eq] at hlinked
    obtain ⟨property, hproperty, rfl⟩ := List.mem_map.1 hlinked
    have hinvariant : property.kind = .invariant := by
      rcases h : property.kind with _ | _
      · have hrule : ChunkKind.ofKind property.kind = .contractInvariant := hkind
        rw [h] at hrule
        exact ChunkKind.noConfusion hrule
      · rfl
    show inputs.linkageOf property = .all ∨ ∃ names, _ ∧ _ ∧ inputs.linkageOf property = _
    rw [Inputs.linkageOf, linkage, inputs.contains_invariant hproperty hinvariant]
    split
    · exact Or.inl rfl
    · next hne => exact Or.inr ⟨_, hne, fun name hname => mem_linkedNames hname, rfl⟩

/-- A contract whose spec has an invariant that is cut short, with letters behind it that change
their number or their form in lower case. -/
def bank : Inputs where
  contractName := "Bank.sol"
  contract := "contract Bank \x7b function pay() external \x7b \x7d \x7d"
  specFile := "Bank.spec"
  spec := "/* İ */invariant\r\nsolvent(ΣİΑΣ \x7b"

theorem target_of_contractInvariant_bank :
    ∃ record ∈ bank.records, record.chunkKind = .contractInvariant ∧
      (record.target = .all ∨
        ∃ names, names ≠ [] ∧ (∀ name ∈ names, name ∈ bank.functions.names) ∧
          record.target = .functions names) := by
  have hrules : candidatesOfKind .rule bank.spec = [] := by
    decide +kernel
  have hproperties : bank.properties =
      [⟨.invariant, "solvent", "Bank.spec", 1, 2, ["invariant", "solvent(ΣİΑΣ \x7b"], []⟩] := by
    rw [Inputs.properties, Spec.properties, candidates, hrules, List.nil_merge]
    decide +kernel
  have hlinked : bank.linkedProperties ≠ [] := by
    rw [Inputs.linkedProperties_eq, hproperties]
    simp
  obtain ⟨linked, rest, hcons⟩ := List.exists_cons_of_ne_nil hlinked
  have hrecord : bank.context.propertyRecord Property.fingerprint linked ∈ bank.records := by
    rw [Inputs.records, ContractContext.records, ContractContext.recordsBy, hcons]
    simp
  have hkind : linked.property.kind = .invariant := by
    rw [Inputs.linkedProperties_eq, hproperties] at hcons
    rw [← (List.cons.inj hcons).1]
  have hchunk : (bank.context.propertyRecord Property.fingerprint linked).chunkKind =
      .contractInvariant :=
    congrArg ChunkKind.ofKind hkind
  exact ⟨_, hrecord, hchunk, target_of_contractInvariant bank _ hrecord hchunk⟩

end PropertyIndex
