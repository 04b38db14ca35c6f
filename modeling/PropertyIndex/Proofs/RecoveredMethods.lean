import PropertyIndex.Proofs.BlockCut
import PropertyIndex.Proofs.DeclaringLine
import PropertyIndex.Proofs.HeaderReading
import PropertyIndex.Proofs.LineEndIndependence
import PropertyIndex.Proofs.Segment

/-!
# Methods read back from a spec

A `methods` block that is written with one entry on a line is found behind any text in which the
keyword is no whole word, and its entries are read back.

* `MethodEntry`, `blockText`, `specAround`: entries, the block that is written from them, and a spec
  around it.
* `exists_scanBodies_eq_cons`: the first block of a keyword.
* `pieces_entryLines`, `filterMap_blockText`: the lines of the block and what they declare.
* `methods_specAround`: the methods of such a spec.
-/

namespace PropertyIndex.Spec

open Text Source

/-! ## Entries -/

/-- A character that may stand behind the parenthesis of an entry: none that ends the line, opens a
comment or a literal, or is a brace. -/
def IsEntryChar (c : Char) : Prop :=
  IsPlain c ∧ c ≠ '{' ∧ c ≠ '}' ∧ c ≠ '\n'

instance (c : Char) : Decidable (IsEntryChar c) :=
  inferInstanceAs (Decidable (_ ∧ _ ∧ _ ∧ _))

/-- A line of a `methods` block that declares a method. -/
structure MethodEntry where
  /-- The spaces and tabs in front. -/
  indent : List Char
  /-- If the word `function` introduces the name, how many spaces follow the first one. -/
  introduced : Option Nat
  name : List Char
  /-- What stands behind the opening parenthesis. -/
  rest : List Char
  indent_indent : ∀ c ∈ indent, isIndent c = true
  qualified : isQualifiedName name = true
  rest_entry : ∀ c ∈ rest, IsEntryChar c

namespace MethodEntry

variable (entry : MethodEntry)

/-- What stands in front of the name. -/
def lead : List Char :=
  entry.indent ++
    match entry.introduced with
    | none => []
    | some more => "function".toList ++ List.replicate (more + 1) ' '

/-- The line that an entry is written as. -/
def text : List Char :=
  entry.lead ++ (entry.name ++ '(' :: entry.rest)

theorem isLead_lead : IsLead entry.lead := by
  have hindent : ∀ c ∈ entry.indent, isBlank c = true :=
    fun c hc => isBlank_of_isIndent (entry.indent_indent c hc)
  rw [lead]
  rcases entry.introduced with _ | more
  · rw [List.append_nil]
    exact IsLead.blanks hindent
  · refine IsLead.introduced hindent (fun c hc => ?_) (List.cons_ne_nil _ _)
    rw [(List.mem_replicate.1 hc).2]
    decide

theorem isEntryChar_lead : ∀ c ∈ entry.lead, IsEntryChar c := by
  intro c hc
  rw [lead] at hc
  rcases List.mem_append.1 hc with hindent | hword
  · have hc' := entry.indent_indent c hindent
    rw [isIndent, Bool.or_eq_true, beq_iff_eq, beq_iff_eq] at hc'
    rcases hc' with rfl | rfl
    · decide
    · decide
  · split at hword
    · exact absurd hword List.not_mem_nil
    · rcases List.mem_append.1 hword with hfunction | hspace
      · have hall : ∀ c ∈ "function".toList, IsEntryChar c :=
          forall_mem_of_all (by decide)
        exact hall c hfunction
      · rw [(List.mem_replicate.1 hspace).2]
        decide

theorem isEntryChar_of_isDottedChar {c : Char} (h : isDottedChar c = true) : IsEntryChar c := by
  refine ⟨⟨?_, ?_, ?_⟩, ?_, ?_, ?_⟩
  all_goals
    rintro rfl
    exact Bool.noConfusion h

/-- No character of an entry ends its line, opens a comment or a literal, or is a brace. -/
theorem isEntryChar_text : ∀ c ∈ entry.text, IsEntryChar c := by
  intro c hc
  rcases List.mem_append.1 hc with hlead | hc
  · exact entry.isEntryChar_lead c hlead
  rcases List.mem_append.1 hc with hname | hc
  · exact isEntryChar_of_isDottedChar (isDottedChar_of_isQualifiedName entry.qualified c hname)
  rcases List.mem_cons.1 hc with rfl | hrest
  · decide
  · exact entry.rest_entry c hrest

/-- An entry declares its name. -/
theorem declaredMethod?_text : declaredMethod? entry.text = some entry.name :=
  declaredMethod?_eq_some_iff.2
    ⟨entry.lead, entry.rest, rfl, entry.isLead_lead, entry.qualified⟩

end MethodEntry

/-- The lines that entries are written as. -/
def entryLines (entries : List MethodEntry) : List Char :=
  entries.flatMap fun entry => entry.text ++ ['\n']

/-- The block that is written from entries. -/
def blockText (entries : List MethodEntry) : List Char :=
  "methods".toList ++ (' ' :: '{' :: ('\n' :: entryLines entries ++ ['}']))

/-- A spec with a written block between two other texts. -/
def specAround (front : List Char) (entries : List MethodEntry) (back : List Char) : String :=
  String.ofList (front ++ (blockText entries ++ back))

/-! ## The first block of a keyword -/

section Block

variable {keyword inner front back : List Char}

/-- The search for the closing brace passes over cells that show none. -/
theorem throughClose_append_of_ne {cells rest : List Cell} (depth : Nat)
    (h : ∀ c ∈ visible cells, c ≠ '{' ∧ c ≠ '}') :
    throughClose depth (cells ++ rest) = (throughClose depth rest).map (cells ++ ·) := by
  induction cells with
  | nil => exact Option.map_id'.symm
  | cons cell cells ih =>
    obtain ⟨⟨hopen, hclose⟩, hcells⟩ := List.forall_mem_cons.1 h
    rw [List.cons_append, throughClose_cons_of_ne hopen hclose, ih hcells, Option.map_map]
    rfl

/-- The cells of a brace group that is all code. -/
def braced (inner : List Char) : List Cell :=
  ⟨'{', .code⟩ :: (cellsOf .code inner ++ [⟨'}', .code⟩])

theorem throughClose_braced (h : ∀ c ∈ inner, IsPlain c ∧ c ≠ '{' ∧ c ≠ '}') (rest : List Cell) :
    throughClose 0 (braced inner ++ rest) = some (braced inner) := by
  have hinner : ∀ c ∈ visible (cellsOf .code inner), c ≠ '{' ∧ c ≠ '}' := by
    rw [visible_cellsOf_code]
    exact fun c hc => (h c hc).2
  rw [braced, List.cons_append, List.append_assoc, throughClose_cons_open rfl,
    throughClose_append_of_ne _ hinner, List.singleton_append, throughClose_cons_last rfl]
  rfl

theorem mask_opening (hplain : ∀ c ∈ keyword, IsPlain c)
    (hinner : ∀ c ∈ inner, IsPlain c ∧ c ≠ '{' ∧ c ≠ '}') (back : List Char) :
    mask (keyword ++ (' ' :: '{' :: (inner ++ ['}'])) ++ back) =
      cellsOf .code keyword ++ (⟨' ', .code⟩ :: (braced inner ++ mask back)) := by
  have hopening : ∀ c ∈ keyword ++ (' ' :: '{' :: (inner ++ ['}'])), IsPlain c := by
    simp only [List.mem_append, List.mem_cons, List.not_mem_nil, or_false]
    rintro c (hword | rfl | rfl | hc | rfl)
    · exact hplain c hword
    · decide
    · decide
    · exact (hinner c hc).1
    · decide
  rw [(isClosed_of_isPlain hopening).mask_append, mask_of_isPlain hopening]
  simp [cellsOf, braced]

/-- At a keyword with a space and a group behind it there is a place without a name. -/
theorem occurrenceAt_opening (hkeyword : IsKeyword keyword) {before rest : List Cell}
    (hbefore : (visible before).head?.any isWordChar = false) :
    occurrenceAt keyword before (cellsOf .code keyword ++ (⟨' ', .code⟩ :: (braced inner ++ rest))) =
      some ⟨before, cellsOf .code keyword ++ [⟨' ', .code⟩], "", braced inner ++ rest⟩ := by
  rw [occurrenceAt_append hkeyword (visible_cellsOf_code keyword), hbefore]
  show some (Occurrence.mk _ (cellsOf .code keyword ++ [⟨' ', .code⟩] ++ []) _ _) = _
  rw [List.append_nil]
  rfl

/-- The block at such a place ends with the group. -/
theorem exists_block?_opening (hinner : ∀ c ∈ inner, IsPlain c ∧ c ≠ '{' ∧ c ≠ '}')
    (before rest : List Cell) :
    ∃ block, Occurrence.block? ⟨before, cellsOf .code keyword ++ [⟨' ', .code⟩], "",
        braced inner ++ rest⟩ .body = some block ∧
      block.text.toList = keyword ++ (' ' :: '{' :: (inner ++ ['}'])) := by
  have hbody : bodyBlock? (braced inner ++ rest) = some (braced inner, true) :=
    bodyBlock?_of_splitHeader (splitHeader_opener rfl fun hends => Bool.noConfusion hends)
      (throughClose_braced hinner rest)
  have hcoded : cellsOf .code keyword ++ [⟨' ', .code⟩] ++ braced inner =
      cellsOf .code (keyword ++ (' ' :: '{' :: (inner ++ ['}']))) := by
    simp [cellsOf, braced]
  refine ⟨_, congrArg (Option.map _) hbody, ?_⟩
  show (String.ofList (source _)).toList = _
  rw [String.toList_ofList, hcoded, source_cellsOf]

/-- A blank at the end of a text is no part of a word in the masked copy either. -/
theorem getLast?_visible_mask (h : ∀ c ∈ front.getLast?, isBlank c = true) :
    (visible (mask front)).getLast?.any isWordChar = false := by
  rcases (mask front).eq_nil_or_concat with hcells | ⟨cells, cell, hcells⟩
  · rw [hcells]
    rfl
  · have hchar : isBlank cell.char = true := by
      refine h cell.char ?_
      rw [← source_mask front, hcells, List.concat_eq_append, source, List.map_append,
        List.map_singleton, List.getLast?_concat]
      rfl
    rw [hcells, List.concat_eq_append, visible_append, visible, visible, List.map_singleton,
      List.getLast?_concat, Option.any_some, Cell.shown]
    split_ifs
    · exact isWordChar_of_isBlank hchar
    · decide

/-- Behind a text without the keyword, the first block of the keyword is the one that is written
there. -/
theorem exists_scanBodies_eq_cons (hkeyword : IsKeyword keyword) (hplain : ∀ c ∈ keyword, IsPlain c)
    (hregion : regionAfter .code front = .code) (hends : ∀ c ∈ front.getLast?, isBlank c = true)
    (hfree : ¬HasWord isWordChar keyword (masked front))
    (hinner : ∀ c ∈ inner, IsPlain c ∧ c ≠ '{' ∧ c ≠ '}') :
    ∃ block more, scanBodies (String.ofList keyword) (String.ofList (front ++
        (keyword ++ (' ' :: '{' :: (inner ++ ['}'])) ++ back))) = block :: more ∧
      block.text.toList = keyword ++ (' ' :: '{' :: (inner ++ ['}'])) := by
  have hfront : IsClosed front := ⟨hregion, fun hlast => Bool.noConfusion (hends '/' hlast)⟩
  have hlast := getLast?_visible_mask hends
  have hvisible : ¬HasWord isWordChar keyword (visible (mask front)) :=
    fun hword => hfree (hasWord_shownText hkeyword.ident hword)
  have hseam : (visible (mask front)).getLast?.any isIdentChar = false := by
    rw [Option.any_eq_false] at hlast ⊢
    intro c hc
    refine Bool.eq_false_iff.2 fun hident => Bool.eq_false_iff.1 (hlast c hc) ?_
    exact isWordChar_of_isIdentChar hident
  have hbefore : (visible (mask front).reverse).head?.any isWordChar = false := by
    rw [visible, List.map_reverse, List.head?_reverse]
    exact hlast
  obtain ⟨block, hblock, htext⟩ :=
    @exists_block?_opening keyword inner hinner (mask front).reverse (mask back)
  rw [scanBodies, scan, String.toList_ofList, String.toList_ofList, hfront.mask_append,
    mask_opening hplain hinner, occurrences,
    occurrencesFrom_of_not_hasWord hkeyword hvisible (Or.inl hseam), List.append_nil,
    occurrencesFrom_of_some hkeyword (occurrenceAt_opening hkeyword hbefore)]
  exact ⟨block, _, List.filterMap_cons_some hblock, htext⟩

end Block

/-! ## The lines of the block -/

theorem pieces_entryLines (entries : List MethodEntry) (back : List Char) :
    pieces '\n' (entryLines entries ++ back) =
      entries.map MethodEntry.text ++ pieces '\n' back := by
  induction entries with
  | nil => rfl
  | cons entry entries ih =>
    have hline : '\n' ∉ entry.text := fun hmem => (entry.isEntryChar_text _ hmem).2.2.2 rfl
    rw [entryLines, List.flatMap_cons, ← entryLines, List.append_assoc, List.append_assoc,
      List.singleton_append, pieces_append hline, ih]
    rfl

/-- The lines of a written block declare the names of its entries. -/
theorem filterMap_blockText (entries : List MethodEntry) :
    (lines (blockText entries)).filterMap declaredMethod? = entries.map MethodEntry.name := by
  have hpieces : pieces '\n' (blockText entries) =
      "methods \x7b".toList :: (entries.map MethodEntry.text ++ [['}']]) := by
    show pieces '\n' ("methods \x7b".toList ++ '\n' :: (entryLines entries ++ ['}'])) = _
    rw [pieces_append (by decide), pieces_entryLines]
    rfl
  have hnames : (entries.map MethodEntry.text).filterMap declaredMethod? =
      entries.map MethodEntry.name := by
    rw [List.filterMap_map, ← List.filterMap_eq_map]
    exact List.filterMap_congr fun entry _ => entry.declaredMethod?_text
  rw [filterMap_declaredMethod?_lines, hpieces, List.filterMap_cons_none (by decide),
    List.filterMap_append, hnames]
  exact List.append_nil _

/-- A `methods` block with one entry on a line is read back from a spec: the methods of the spec are
the names of its entries in order of first appearance, each once, but for the words of the spec
language. -/
theorem methods_specAround {front : List Char} (entries : List MethodEntry) (back : List Char)
    (hregion : regionAfter .code front = .code) (hends : ∀ c ∈ front.getLast?, isBlank c = true)
    (hfree : ¬HasWord isWordChar "methods".toList (masked front)) :
    methods (specAround front entries back) =
      ((entries.map fun entry => String.ofList entry.name).filter fun name =>
        name ∉ builtinPredicates).eraseDups := by
  have hinner : ∀ c ∈ '\n' :: entryLines entries, IsPlain c ∧ c ≠ '{' ∧ c ≠ '}' := by
    refine List.forall_mem_cons.2 ⟨by decide, fun c hc => ?_⟩
    obtain ⟨entry, -, hmem⟩ := List.mem_flatMap.1 hc
    rcases List.mem_append.1 hmem with htext | hend
    · obtain ⟨hplain, hopen, hclose, -⟩ := entry.isEntryChar_text c htext
      exact ⟨hplain, hopen, hclose⟩
    · rw [List.mem_singleton.1 hend]
      decide
  obtain ⟨block, more, hblocks, htext⟩ := @exists_scanBodies_eq_cons "methods".toList _ front back
    isKeyword_methods (forall_mem_of_all (by decide)) hregion hends hfree hinner
  have hfirst : methodBlocks (specAround front entries back) = block :: more := hblocks
  have hlines : block.text.toList = blockText entries := htext
  rw [methods, hfirst]
  show methodsOfLines (lines block.text.toList) = _
  rw [hlines, methodsOfLines, filterMap_blockText, List.map_map]
  refine congrArg List.eraseDups (List.filter_congr fun name _ => ?_)
  simp

/-- Entries in both styles: a method that has the word `function` as its name, a name with a
receiver, a method that is declared twice and a word of the spec language. -/
def poolEntries : List MethodEntry :=
  [{ indent := "  ".toList
     introduced := none
     name := "deposit".toList
     rest := "uint256) envfree".toList
     indent_indent := forall_mem_of_all (by decide)
     qualified := by decide
     rest_entry := forall_mem_of_all (by decide) },
   { indent := "\t".toList
     introduced := some 2
     name := "_token.transfer".toList
     rest := "address, uint) external returns (bool);".toList
     indent_indent := forall_mem_of_all (by decide)
     qualified := by decide
     rest_entry := forall_mem_of_all (by decide) },
   { indent := []
     introduced := none
     name := "function".toList
     rest := ")".toList
     indent_indent := forall_mem_of_all (by decide)
     qualified := by decide
     rest_entry := forall_mem_of_all (by decide) },
   { indent := []
     introduced := some 0
     name := "require".toList
     rest := "bool);".toList
     indent_indent := forall_mem_of_all (by decide)
     qualified := by decide
     rest_entry := forall_mem_of_all (by decide) },
   { indent := " ".toList
     introduced := some 0
     name := "deposit".toList
     rest := []
     indent_indent := forall_mem_of_all (by decide)
     qualified := by decide
     rest_entry := forall_mem_of_all (by decide) }]

/-- The word `methods` in a comment, in a literal and in a longer name. -/
def poolFront : List Char :=
  "/* methods \x7b\n */ using methodsOf as \"methods\";\t".toList

theorem methods_specAround_pool :
    regionAfter .code poolFront = .code ∧ (∀ c ∈ poolFront.getLast?, isBlank c = true) ∧
      ¬HasWord isWordChar "methods".toList (masked poolFront) ∧
      methods (specAround poolFront poolEntries " methods \x7b\nlate()\n\x7d".toList) =
        ["deposit", "_token.transfer", "function"] := by
  have hregion : regionAfter .code poolFront = .code := by decide
  have hends : ∀ c ∈ poolFront.getLast?, isBlank c = true := by
    have hlast : poolFront.getLast? = some '\t' := by decide
    intro c hc
    rw [hlast] at hc
    rw [← Option.some_inj.1 hc]
    decide
  have hfree : ¬HasWord isWordChar "methods".toList (masked poolFront) := by decide +kernel
  exact ⟨hregion, hends, hfree,
    (methods_specAround poolEntries _ hregion hends hfree).trans (by decide)⟩

end PropertyIndex.Spec
