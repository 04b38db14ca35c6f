import PropertyIndex.Proofs.Segment
import PropertyIndex.Proofs.VariableDeclaration

/-!
# State variables read back from a contract

A contract that is written with one declaration on a line is read back: the search of each reader
goes through it line by line, and takes the name of a declaration of its own form.

* `contractText`: the contract that is written from declarations.
* `declarationsFrom_line`, `declarationsFrom_line_of_none`, `declarationsFrom_text`: the search of a
  line.
* `declarationsIn_contractLines`: what a reader finds in a written contract.
* `stateVariables_contractText`: the state variables of a written contract.
-/

namespace PropertyIndex.Contract

open Text Source

/-! ## Written contracts -/

/-- The first line of a contract. -/
def openingLine (name : Identifier) : List Char :=
  "contract".toList ++ (wordsText [name.text] ++ [' ', '{'])

/-- Declarations, each on a line. -/
def declarationLines (declarations : List VariableDeclaration) : List Char :=
  declarations.flatMap fun declaration => declaration.text ++ ['\n']

/-- The lines of a contract, with line feeds behind the last one. -/
def contractLines (name : Identifier) (declarations : List VariableDeclaration) (feeds : Nat) :
    List Char :=
  openingLine name ++
    '\n' :: (declarationLines declarations ++ '}' :: List.replicate feeds '\n')

/-- The contract that is written from declarations. -/
def contractText (name : Identifier) (declarations : List VariableDeclaration) (feeds : Nat) :
    String :=
  String.ofList (contractLines name declarations feeds)

/-! ## The characters of a line -/

/-- A character that neither ends the line nor opens a comment or a literal. -/
def IsLineChar (c : Char) : Prop :=
  IsPlain c ∧ c ≠ '\n'

instance (c : Char) : Decidable (IsLineChar c) :=
  inferInstanceAs (Decidable (_ ∧ _))

theorem IsInnerChar.isLineChar {c : Char} (h : IsInnerChar c) : IsLineChar c :=
  ⟨h.1, h.2.2⟩

theorem isLineChar_of_isDottedChar {c : Char} (h : isDottedChar c = true) : IsLineChar c := by
  refine ⟨⟨?_, ?_, ?_⟩, ?_⟩
  all_goals
    rintro rfl
    exact Bool.noConfusion h

theorem isLineChar_of_isIndent {c : Char} (h : isIndent c = true) : IsLineChar c := by
  rw [isIndent, Bool.or_eq_true, beq_iff_eq, beq_iff_eq] at h
  rcases h with rfl | rfl
  · decide
  · decide

theorem isLineChar_wordsText {words : List (List Char)} (h : ∀ word ∈ words, IsIdentWord word) :
    ∀ c ∈ wordsText words, IsLineChar c := by
  intro c hc
  obtain ⟨word, hword, hmem⟩ := List.mem_flatMap.1 hc
  rcases List.mem_cons.1 hmem with rfl | hmem
  · decide
  · exact isLineChar_of_isDottedChar (isDottedChar_of_isIdentChar ((h word hword).2 c hmem))

theorem isLineChar_suffixesText (suffixes : List ArraySuffix) :
    ∀ c ∈ suffixesText suffixes, IsLineChar c := by
  intro c hc
  obtain ⟨suffix, -, hmem⟩ := List.mem_flatMap.1 hc
  simp only [List.mem_cons, List.mem_append, List.not_mem_nil, or_false] at hmem
  rcases hmem with rfl | hinner | rfl
  · decide
  · exact (suffix.inner c hinner).1.isLineChar
  · decide

theorem VariableKind.isLineChar_head (kind : VariableKind) : ∀ c ∈ kind.head, IsLineChar c := by
  cases kind with
  | typed type visibility modifiers value =>
    refine List.forall_mem_append.2 ⟨fun c hc => ?_, isLineChar_suffixesText _⟩
    exact isLineChar_of_isDottedChar (isDottedChar_of_isQualifiedName type.qualified c hc)
  | mapping types visibility =>
    have hword : ∀ c ∈ "mapping(".toList, IsLineChar c := forall_mem_of_all (by decide)
    refine List.forall_mem_append.2 ⟨hword, List.forall_mem_append.2 ⟨fun c hc => ?_, ?_⟩⟩
    · exact (types.inner c hc).isLineChar
    · exact List.forall_mem_singleton.2 (by decide)

theorem VariableKind.isLineChar_tail (kind : VariableKind) : ∀ c ∈ kind.tail, IsLineChar c := by
  have hsemicolon : ∀ c ∈ [';'], IsLineChar c := forall_mem_of_all (by decide)
  cases kind with
  | typed type visibility modifiers value =>
    cases value with
    | none => exact hsemicolon
    | some value =>
      have hequality : ∀ c ∈ [' ', '=', ' '], IsLineChar c := forall_mem_of_all (by decide)
      refine List.forall_mem_append.2 ⟨hequality, List.forall_mem_append.2 ⟨fun c hc => ?_,
        hsemicolon⟩⟩
      exact (value.inner c hc).isLineChar
  | mapping types visibility => exact hsemicolon

/-- A declaration is written on one line, without comments and literals. -/
theorem VariableDeclaration.isLineChar_text (declaration : VariableDeclaration) :
    ∀ c ∈ declaration.text, IsLineChar c := by
  refine List.forall_mem_append.2 ⟨fun c hc => ?_, List.forall_mem_append.2
    ⟨declaration.kind.isLineChar_head, List.forall_mem_append.2 ⟨?_,
      declaration.kind.isLineChar_tail⟩⟩⟩
  · exact isLineChar_of_isIndent (declaration.indent_indent c hc)
  · exact isLineChar_wordsText (declaration.kind.isIdentWord declaration.name)

theorem isLineChar_openingLine (name : Identifier) : ∀ c ∈ openingLine name, IsLineChar c := by
  have hword : ∀ c ∈ "contract".toList, IsLineChar c := forall_mem_of_all (by decide)
  have hbrace : ∀ c ∈ [' ', '{'], IsLineChar c := forall_mem_of_all (by decide)
  have hname : ∀ word ∈ [name.text], IsIdentWord word :=
    List.forall_mem_singleton.2 name.isIdentWord
  exact List.forall_mem_append.2 ⟨hword, List.forall_mem_append.2
    ⟨isLineChar_wordsText hname, hbrace⟩⟩

/-- A written contract is all code. -/
theorem masked_contractLines (name : Identifier) (declarations : List VariableDeclaration)
    (feeds : Nat) : masked (contractLines name declarations feeds) =
      contractLines name declarations feeds := by
  have hfeed : IsPlain '\n' := by decide
  have hdeclarations : ∀ c ∈ declarationLines declarations, IsPlain c := by
    intro c hc
    obtain ⟨declaration, -, hmem⟩ := List.mem_flatMap.1 hc
    rcases List.mem_append.1 hmem with htext | hend
    · exact (declaration.isLineChar_text c htext).1
    · rw [List.mem_singleton.1 hend]
      exact hfeed
  have hplain : ∀ c ∈ contractLines name declarations feeds, IsPlain c := by
    refine List.forall_mem_append.2 ⟨fun c hc => (isLineChar_openingLine name c hc).1,
      List.forall_mem_cons.2 ⟨hfeed, List.forall_mem_append.2 ⟨hdeclarations,
        List.forall_mem_cons.2 ⟨by decide, fun c hc => ?_⟩⟩⟩⟩
    rw [(List.mem_replicate.1 hc).2]
    exact hfeed
  rw [masked, mask_of_isPlain hplain]
  exact shownText_cellsOf_code _

/-! ## The search of a line -/

section Search

variable {shape : List Char → Option (List Char × List Char)} {line rest : List Char}

/-- Within a line no declaration begins. -/
theorem declarationsFrom_line (hline : '\n' ∉ line) :
    declarationsFrom shape false 0 (line ++ '\n' :: rest) = declarationsFrom shape true 0 rest := by
  induction line with
  | nil => rfl
  | cons c line ih =>
    rw [List.mem_cons, not_or] at hline
    have hc : (c == '\n') = false := beq_false_of_ne fun heq => hline.1 heq.symm
    rw [List.cons_append, declarationsFrom_of_none fun h => Bool.noConfusion h, hc, ih hline.2]

/-- The search passes over a line without a declaration. -/
theorem declarationsFrom_line_of_none (hline : '\n' ∉ line)
    (hnone : shape (line ++ '\n' :: rest) = none) :
    declarationsFrom shape true 0 (line ++ '\n' :: rest) = declarationsFrom shape true 0 rest := by
  cases line with
  | nil => exact declarationsFrom_of_none fun _ => hnone
  | cons c line =>
    refine (declarationsFrom_of_none fun _ => hnone).trans ?_
    rw [← declarationsFrom_line hline]
    exact (declarationsFrom_of_none fun h => Bool.noConfusion h).symm

/-- The search takes the name of a declaration that has the form of the reader. -/
theorem declarationsFrom_text (form : Form) (declaration : VariableDeclaration)
    (rest : List Char) : declarationsFrom form.read true 0 (declaration.text ++ '\n' :: rest) =
      (if form = declaration.kind.form then [declaration.name.text] else []) ++
        declarationsFrom form.read true 0 rest := by
  have hline : '\n' ∉ declaration.text := fun hmem => (declaration.isLineChar_text _ hmem).2 rfl
  have hread := read_text declaration form ('\n' :: rest)
  by_cases hform : form = declaration.kind.form
  · rw [if_pos hform] at hread ⊢
    have hends := form.isShape_read.ends hread
    obtain ⟨c, line, htext⟩ := List.exists_cons_of_length_pos
      (Nat.lt_of_lt_of_le (Nat.succ_pos _) hends.length_le)
    rw [htext] at hread hends
    rw [htext, declarationsFrom_of_some hread hends]
    rfl
  · rw [if_neg hform] at hread ⊢
    exact declarationsFrom_line_of_none hline hread

/-- The search takes the names of the declarations that have the form of the reader. -/
theorem declarationsFrom_declarationLines (form : Form) (declarations : List VariableDeclaration)
    (rest : List Char) :
    declarationsFrom form.read true 0 (declarationLines declarations ++ rest) =
      (declarations.filter fun declaration => form = declaration.kind.form).map
          (fun declaration => declaration.name.text) ++
        declarationsFrom form.read true 0 rest := by
  induction declarations with
  | nil => rfl
  | cons declaration declarations ih =>
    have htext : declarationLines (declaration :: declarations) ++ rest =
        declaration.text ++ '\n' :: (declarationLines declarations ++ rest) := by
      simp [declarationLines]
    rw [htext, declarationsFrom_text, ih, List.filter_cons, ← List.append_assoc]
    by_cases hform : form = declaration.kind.form
    · rw [if_pos hform, if_pos (decide_eq_true hform)]
      rfl
    · rw [if_neg hform, if_neg (by rwa [decide_eq_true_iff])]
      rfl

end Search

/-! ## The lines around the declarations -/

/-- The first line of a contract reads like a type with a word behind it, but is no declaration. -/
theorem read_openingLine (form : Form) (name : Identifier) (rest : List Char) :
    form.read (openingLine name ++ rest) = none := by
  have htext : openingLine name ++ rest = [] ++ ("contract".toList ++ suffixesText [] ++
      (wordsText [name.text] ++ ' ' :: '{' :: rest)) := by
    show "contract".toList ++ (wordsText [name.text] ++ [' ', '{']) ++ rest =
      [] ++ ("contract".toList ++ [] ++ (wordsText [name.text] ++ ' ' :: '{' :: rest))
    simp only [List.append_nil, List.nil_append, List.append_assoc, List.cons_append]
  have hqualified : isQualifiedName "contract".toList = true := by decide
  have hindent : ∀ c ∈ ([] : List Char), isIndent c = true := fun _ h => absurd h List.not_mem_nil
  have hwords : ∀ word ∈ [name.text], IsIdentWord word :=
    List.forall_mem_singleton.2 name.isIdentWord
  have hne : [name.text] ≠ [] := List.cons_ne_nil _ _
  have hbrace : blankWords (' ' :: '{' :: rest) = ([], ' ' :: '{' :: rest) := by
    have hblank : afterBlanks? (' ' :: '{' :: rest) = some ('{' :: rest) := rfl
    exact (blankWords_of_some hblank).trans (if_pos rfl)
  have htyped : typedName? (openingLine name ++ rest) = none := by
    rw [htext, typedName?_typedText hindent hqualified hne hwords hbrace rfl,
      nameAfterType?_singleton, Option.map_none]
  cases form with
  | plain => exact (plain?_eq _).trans (by rw [htyped, Option.bind_none])
  | valued => exact (valued?_eq _).trans (by rw [htyped, Option.bind_none])
  | mapping =>
    rw [htext]
    exact mapping?_typedText hindent hqualified hne hwords _

theorem read_closingLine (form : Form) (rest : List Char) : form.read ('}' :: rest) = none := by
  have hdrop : ('}' :: rest).dropWhile isIndent = '}' :: rest := dropWhile_eq_self rfl
  have htyped : typedName? ('}' :: rest) = none := by
    rw [typedName?_eq, hdrop, afterType?_eq]
    rfl
  cases form with
  | plain => exact (plain?_eq _).trans (by rw [htyped, Option.bind_none])
  | valued => exact (valued?_eq _).trans (by rw [htyped, Option.bind_none])
  | mapping =>
    refine (mapping?_eq _).trans ?_
    rw [hdrop]
    rfl

theorem declarationsFrom_feeds (form : Form) (lineStart : Bool) (feeds : Nat) :
    declarationsFrom form.read lineStart 0 (List.replicate feeds '\n') = [] := by
  induction feeds generalizing lineStart with
  | zero => rfl
  | succ feeds ih =>
    rw [List.replicate_succ, declarationsFrom_of_none fun _ => form.isShape_read.at_feed _]
    exact ih true

/-! ## State variables -/

/-- A reader finds the names of the declarations of its form in a written contract. -/
theorem declarationsIn_contractLines (form : Form) (name : Identifier)
    (declarations : List VariableDeclaration) (feeds : Nat) :
    declarationsIn form.read (contractLines name declarations feeds) =
      (declarations.filter fun declaration => form = declaration.kind.form).map
        fun declaration => declaration.name.text := by
  have hline : '\n' ∉ openingLine name := fun hmem => (isLineChar_openingLine name _ hmem).2 rfl
  rw [declarationsIn, contractLines,
    declarationsFrom_line_of_none hline (read_openingLine form name _),
    declarationsFrom_declarationLines, declarationsFrom_of_none fun _ => read_closingLine form _,
    declarationsFrom_feeds, List.append_nil]

/-- A contract with one declaration on a line is read back: its state variables are the names of the
declarations, in ascending order. -/
theorem stateVariables_contractText (name : Identifier) (declarations : List VariableDeclaration)
    (feeds : Nat) :
    (∀ variableName, variableName ∈ (stateVariables (contractText name declarations feeds)).toList ↔
      ∃ declaration ∈ declarations, String.ofList declaration.name.text = variableName) ∧
    (stateVariables (contractText name declarations feeds)).toList.Pairwise (· < ·) := by
  refine ⟨fun variableName => ?_, NameSet.ascending _⟩
  have hshown : masked (contractText name declarations feeds).toList =
      contractLines name declarations feeds := by
    rw [contractText, String.toList_ofList]
    exact masked_contractLines name declarations feeds
  rw [mem_stateVariables_iff, hshown]
  simp only [declarationsIn_contractLines, List.mem_map, List.mem_filter, decide_eq_true_iff]
  constructor
  · rintro ⟨form, declaration, ⟨hmem, -⟩, hname⟩
    exact ⟨declaration, hmem, by rw [hname, String.ofList_toList]⟩
  · rintro ⟨declaration, hmem, rfl⟩
    exact ⟨declaration.kind.form, declaration, ⟨hmem, rfl⟩, String.toList_ofList.symm⟩

/-- Declarations of all forms, one of them with a name that is spelled like a visibility. -/
def vaultDeclarations : List VariableDeclaration :=
  [{ indent := "    ".toList
     kind := .mapping
       ⟨"address => mapping(uint => bool)".toList, by decide, forall_mem_of_all (by decide)⟩ none
     name := ⟨"seen".toList, by decide⟩
     indent_indent := forall_mem_of_all (by decide) },
   { indent := "\t\t".toList
     kind := .typed
       { base := "Lib.Fee".toList
         suffixes := [⟨[], forall_mem_of_all rfl⟩, ⟨"2".toList, forall_mem_of_all (by decide)⟩]
         payable := false
         qualified := by decide }
       ⟨"internal".toList, by decide⟩ [⟨"constant".toList, by decide⟩]
       (some ⟨"(a + b)".toList, by decide, forall_mem_of_all (by decide)⟩)
     name := ⟨"fees".toList, by decide⟩
     indent_indent := forall_mem_of_all (by decide) },
   { indent := " \t".toList
     kind := .typed
       { base := "address".toList, suffixes := [], payable := true, qualified := by decide }
       ⟨"private".toList, by decide⟩ [] none
     name := ⟨"public".toList, by decide⟩
     indent_indent := forall_mem_of_all (by decide) }]

/-- The contract with these declarations. -/
def vaultText : String :=
  contractText ⟨"Vault".toList, by decide⟩ vaultDeclarations 1

example : vaultText =
    "contract Vault \x7b\n" ++
      "    mapping(address => mapping(uint => bool)) seen;\n" ++
      "\t\tLib.Fee[][2] internal constant fees = (a + b);\n" ++
      " \taddress payable private public;\n" ++
    "\x7d\n" := by
  decide +kernel

example : (stateVariables vaultText).toList = ["fees", "public", "seen"] := by
  decide +kernel

end PropertyIndex.Contract
