import PropertyIndex.Proofs.DeclarationReading

/-!
# Written declarations of state variables

A declaration is written in one of three forms: a type with words behind it, of which the last one is
the name, the same with a value, and a mapping.  Each form is read back by its own reader, and the
other two readers find nothing in it.

* `VariableDeclaration`, `VariableDeclaration.text`: a declaration and the line that it is written
  as.
* `blankWords_wordsText`, `typedName?_typedText`: the readings of words and of a type with words.
* `nameAfterParenthesis?_types`: the reading of a mapping, which passes over the types.
* `read_text`: each reader reads the declarations of its form.
-/

namespace PropertyIndex.Contract

open Text Source

/-! ## Declarations -/

/-- A character of an expression, of the types of a mapping or of an array suffix: none that ends
the line or the declaration, or opens a comment or a literal. -/
def IsInnerChar (c : Char) : Prop :=
  IsPlain c ∧ c ≠ ';' ∧ c ≠ '\n'

instance (c : Char) : Decidable (IsInnerChar c) :=
  inferInstanceAs (Decidable (_ ∧ _ ∧ _))

/-- An identifier. -/
structure Identifier where
  text : List Char
  identifier : isIdentifier text = true

/-- One of the words for a visibility. -/
structure Visibility where
  word : List Char
  visibility : isVisibility word = true

/-- One of the words that may stand between a visibility and a name. -/
structure Modifier where
  word : List Char
  modifier : isModifier word = true

/-- A nonempty stretch of a line. -/
structure Inner where
  text : List Char
  ne_nil : text ≠ []
  inner : ∀ c ∈ text, IsInnerChar c

/-- The inside of an array suffix, which may be empty. -/
structure ArraySuffix where
  text : List Char
  inner : ∀ c ∈ text, IsInnerChar c ∧ c ≠ ']'

/-- A type: a qualified name with array suffixes, and possibly the word `payable`. -/
structure VariableType where
  base : List Char
  suffixes : List ArraySuffix
  payable : Bool
  qualified : isQualifiedName base = true

/-- What a declaration says about its name. -/
inductive VariableKind where
  /-- A type and a visibility, with modifiers and possibly a value. -/
  | typed (type : VariableType) (visibility : Visibility) (modifiers : List Modifier)
    (value : Option Inner)
  /-- The types of a mapping, possibly with a visibility. -/
  | mapping (types : Inner) (visibility : Option Visibility)

/-- A declaration of a state variable. -/
structure VariableDeclaration where
  indent : List Char
  kind : VariableKind
  name : Identifier
  indent_indent : ∀ c ∈ indent, isIndent c = true

/-- Words, each with a space in front. -/
def wordsText (words : List (List Char)) : List Char :=
  words.flatMap fun word => ' ' :: word

/-- The array suffixes of a type. -/
def suffixesText (suffixes : List ArraySuffix) : List Char :=
  suffixes.flatMap fun suffix => '[' :: (suffix.text ++ [']'])

/-- The end of a declaration: a value, if there is one, and the semicolon. -/
def valueText : Option Inner → List Char
  | none => [';']
  | some value => ' ' :: '=' :: ' ' :: (value.text ++ [';'])

namespace VariableKind

/-- The words behind the type or the mapping, of which the last one is the name. -/
def words (kind : VariableKind) (name : Identifier) : List (List Char) :=
  match kind with
  | typed type visibility modifiers _ =>
    (if type.payable then ["payable".toList] else []) ++
      visibility.word :: (modifiers.map Modifier.word ++ [name.text])
  | mapping _ visibility => (visibility.map Visibility.word).toList ++ [name.text]

/-- What stands in front of these words. -/
def head : VariableKind → List Char
  | typed type _ _ _ => type.base ++ suffixesText type.suffixes
  | mapping types _ => "mapping(".toList ++ (types.text ++ [')'])

/-- What stands behind them. -/
def tail : VariableKind → List Char
  | typed _ _ _ value => valueText value
  | mapping _ _ => [';']

end VariableKind

/-- The line that a declaration is written as. -/
def VariableDeclaration.text (declaration : VariableDeclaration) : List Char :=
  declaration.indent ++ (declaration.kind.head ++
    (wordsText (declaration.kind.words declaration.name) ++ declaration.kind.tail))

/-! ## Words -/

/-- A nonempty word of identifier characters. -/
def IsIdentWord (word : List Char) : Prop :=
  word ≠ [] ∧ ∀ c ∈ word, isIdentChar c = true

instance (word : List Char) : Decidable (IsIdentWord word) :=
  decidable_of_iff (word ≠ [] ∧ word.all isIdentChar = true)
    (and_congr_right fun _ => List.all_eq_true)

theorem Identifier.isIdentWord (name : Identifier) : IsIdentWord name.text :=
  isIdentChar_of_isIdentifier name.identifier

theorem isIdentWord_of_any {words : List String} {word : List Char}
    (hwords : ∀ other ∈ words, IsIdentWord other.toList)
    (h : (words.any fun other => other.toList == word) = true) : IsIdentWord word := by
  obtain ⟨other, hmem, hother⟩ := List.any_eq_true.1 h
  rw [← beq_iff_eq.1 hother]
  exact hwords other hmem

theorem Visibility.isIdentWord (visibility : Visibility) : IsIdentWord visibility.word :=
  isIdentWord_of_any (by decide) visibility.visibility

theorem Modifier.isIdentWord (modifier : Modifier) : IsIdentWord modifier.word :=
  isIdentWord_of_any (by decide) modifier.modifier

section Words

variable {words : List (List Char)} {rest : List Char}

theorem head?_wordsText_append (hwords : words ≠ []) (rest : List Char) :
    (wordsText words ++ rest).head? = some ' ' := by
  obtain ⟨word, words, rfl⟩ := List.exists_cons_of_ne_nil hwords
  rfl

theorem head?_wordsText_any {p : Char → Bool} (hspace : p ' ' = false)
    (hrest : rest.head?.any p = false) : (wordsText words ++ rest).head?.any p = false := by
  cases words with
  | nil => exact hrest
  | cons word words => exact hspace

/-- Words are read up to something that is no word. -/
theorem blankWords_wordsText (hwords : ∀ word ∈ words, IsIdentWord word)
    (hrest : blankWords rest = ([], rest)) (hhead : rest.head?.any isIdentChar = false) :
    blankWords (wordsText words ++ rest) = (words, rest) := by
  induction words with
  | nil => exact hrest
  | cons word words ih =>
    obtain ⟨⟨hne, hident⟩, hwords'⟩ := List.forall_mem_cons.1 hwords
    have hnext : (wordsText words ++ rest).head?.any isIdentChar = false :=
      head?_wordsText_any rfl hhead
    have hword : (word ++ (wordsText words ++ rest)).head?.any isBlank = false := by
      obtain ⟨c, word, rfl⟩ := List.exists_cons_of_ne_nil hne
      exact isBlank_of_isIdentChar (hident c List.mem_cons_self)
    have htext : wordsText (word :: words) ++ rest =
        [' '] ++ (word ++ (wordsText words ++ rest)) := by
      simp [wordsText]
    have hblank : afterBlanks? ([' '] ++ (word ++ (wordsText words ++ rest))) =
        some (word ++ (wordsText words ++ rest)) :=
      afterBlanks?_append (List.forall_mem_singleton.2 (by decide)) (List.cons_ne_nil _ _) hword
    rw [htext, blankWords_of_some hblank, takeWhile_run hident hnext, if_neg hne,
      dropWhile_run hident hnext, ih hwords']

end Words

/-! ## Types -/

section Types

variable {suffixes : List ArraySuffix} {base rest indent : List Char} {words : List (List Char)}

theorem afterArraySuffix?_append (suffix : ArraySuffix) (rest : List Char) :
    afterArraySuffix? ('[' :: (suffix.text ++ [']']) ++ rest) = some rest := by
  have hrun : ∀ c ∈ suffix.text, (c != ']' && c != '\n') = true := by
    intro c hc
    obtain ⟨⟨-, -, hfeed⟩, hclose⟩ := suffix.inner c hc
    simp [hclose, hfeed]
  have hinner : (suffix.text ++ (']' :: rest)).dropWhile (fun c => c != ']' && c != '\n') =
      ']' :: rest := dropWhile_run hrun rfl
  rw [afterArraySuffix?_eq]
  show ((behindSign '[' ('[' :: (suffix.text ++ [']'] ++ rest))).bind _) = _
  rw [behindSign_eq_some.2 rfl, Option.bind_some, List.append_assoc, List.singleton_append, hinner,
    behindSign_eq_some.2 rfl]

theorem afterArraySuffixes_append (hrest : afterArraySuffix? rest = none) :
    afterArraySuffixes (suffixesText suffixes ++ rest) = rest := by
  induction suffixes with
  | nil => exact afterArraySuffixes_of_none hrest
  | cons suffix suffixes ih =>
    have htext : suffixesText (suffix :: suffixes) ++ rest =
        '[' :: (suffix.text ++ [']']) ++ (suffixesText suffixes ++ rest) := by
      simp [suffixesText]
    rw [htext, afterArraySuffixes_of_some (afterArraySuffix?_append suffix _), ih]

/-- Behind the space in front of words stands no sign. -/
theorem exists_cons_of_wordsText (hne : words ≠ []) (hwords : ∀ word ∈ words, IsIdentWord word)
    (rest : List Char) : ∃ c more, wordsText words ++ rest = ' ' :: c :: more ∧
      isIdentChar c = true := by
  obtain ⟨word, words, rfl⟩ := List.exists_cons_of_ne_nil hne
  obtain ⟨hword, hident⟩ := hwords word List.mem_cons_self
  obtain ⟨c, word, rfl⟩ := List.exists_cons_of_ne_nil hword
  refine ⟨c, word ++ (wordsText words ++ rest), ?_, hident c List.mem_cons_self⟩
  simp [wordsText]

/-- No array suffix begins in front of a word. -/
theorem afterArraySuffix?_wordsText (hne : words ≠ []) (hwords : ∀ word ∈ words, IsIdentWord word)
    (rest : List Char) : afterArraySuffix? (wordsText words ++ rest) = none := by
  obtain ⟨c, more, htext, hc⟩ := exists_cons_of_wordsText hne hwords rest
  have hindent : isIndent c = false := isIndent_of_isBlank (isBlank_of_isIdentChar hc)
  have hdrop : (' ' :: c :: more).dropWhile isIndent = c :: more := by
    rw [List.dropWhile_cons_of_pos (by decide), List.dropWhile_cons_of_neg (by simp [hindent])]
  rw [htext, afterArraySuffix?_eq, hdrop, behindSign_eq_none, Option.bind_none]
  rintro rest heq
  rw [(List.cons.inj heq).1] at hc
  exact Bool.noConfusion hc

theorem head?_suffixesText_any (hne : words ≠ []) (rest : List Char) :
    (suffixesText suffixes ++ (wordsText words ++ rest)).head?.any isDottedChar = false := by
  cases suffixes with
  | nil =>
    show (wordsText words ++ rest).head?.any isDottedChar = false
    rw [head?_wordsText_append hne]
    rfl
  | cons suffix suffixes => rfl

theorem isIndent_head_base (hbase : isQualifiedName base = true) (rest : List Char) :
    (base ++ rest).head?.any isIndent = false := by
  have hdotted := isDottedChar_of_isQualifiedName hbase
  obtain ⟨c, base, rfl, -⟩ := exists_cons_of_isQualifiedName hbase
  exact isIndent_of_isBlank (isBlank_of_isDottedChar (hdotted c List.mem_cons_self))

/-- A type with words behind it is read up to the words, and the name is among them. -/
theorem typedName?_typedText (hindent : ∀ c ∈ indent, isIndent c = true)
    (hbase : isQualifiedName base = true) (hne : words ≠ [])
    (hwords : ∀ word ∈ words, IsIdentWord word) (hrest : blankWords rest = ([], rest))
    (hhead : rest.head?.any isIdentChar = false) :
    typedName? (indent ++ (base ++ suffixesText suffixes ++ (wordsText words ++ rest))) =
      (nameAfterType? words).map fun name => (name, rest.dropWhile isBlank) := by
  have hdotted := isDottedChar_of_isQualifiedName hbase
  have hstart : (base ++ (suffixesText suffixes ++ (wordsText words ++ rest))).head?.any
      isIdentStart = true := by
    obtain ⟨c, base, rfl, hc⟩ := exists_cons_of_isQualifiedName hbase
    exact hc
  have htype : afterType? (base ++ (suffixesText suffixes ++ (wordsText words ++ rest))) =
      some (wordsText words ++ rest) := by
    rw [afterType?_eq, if_pos hstart, dropWhile_run hdotted (head?_suffixesText_any hne rest),
      afterArraySuffixes_append (afterArraySuffix?_wordsText hne hwords rest)]
  rw [typedName?_eq, List.append_assoc, dropWhile_run hindent (isIndent_head_base hbase _), htype,
    Option.bind_some, blankWords_wordsText hwords hrest hhead]

/-- No parenthesis opens behind a type, even if it is spelled `mapping`. -/
theorem mapping?_typedText (hindent : ∀ c ∈ indent, isIndent c = true)
    (hbase : isQualifiedName base = true) (hne : words ≠ [])
    (hwords : ∀ word ∈ words, IsIdentWord word) (rest : List Char) :
    mapping? (indent ++ (base ++ suffixesText suffixes ++ (wordsText words ++ rest))) = none := by
  have hdotted := isDottedChar_of_isQualifiedName hbase
  have hmapping : ∀ c ∈ "mapping".toList, isDottedChar c = true := List.all_eq_true.1 (by decide)
  have hbehind := @head?_suffixesText_any suffixes words hne rest
  rw [mapping?_eq, List.append_assoc, dropWhile_run hindent (isIndent_head_base hbase _),
    Option.bind_eq_none_iff]
  intro behind hbegins
  obtain ⟨c, tail, rfl, -⟩ := exists_cons_of_isQualifiedName hbase
  obtain ⟨shift, hshift, rfl⟩ := eq_append_of_seam hmapping (List.cons_ne_nil c tail)
    (Or.inr hbehind) (List.isPrefixOf?_eq_some_iff_append_eq.1 hbegins).symm
  obtain ⟨d, more, hdrop, hd⟩ : ∃ d more, (shift ++ (suffixesText suffixes ++
      (wordsText words ++ rest))).dropWhile isBlank = d :: more ∧ d ≠ '(' := by
    cases shift with
    | cons d shift =>
      have hd : isDottedChar d = true := by
        refine hdotted d ?_
        rw [hshift]
        exact List.mem_append_right _ List.mem_cons_self
      refine ⟨d, _, dropWhile_eq_self (isBlank_of_isDottedChar hd), ?_⟩
      rintro rfl
      exact Bool.noConfusion hd
    | nil =>
      cases suffixes with
      | cons suffix suffixes => exact ⟨'[', _, dropWhile_eq_self rfl, by decide⟩
      | nil =>
        obtain ⟨d, more, htext, hd⟩ := exists_cons_of_wordsText hne hwords rest
        have hblank : isBlank d = false := isBlank_of_isIdentChar hd
        refine ⟨d, more, ?_, ?_⟩
        · show (wordsText words ++ rest).dropWhile isBlank = d :: more
          rw [htext, List.dropWhile_cons_of_pos (by decide),
            List.dropWhile_cons_of_neg (by simp [hblank])]
        · rintro rfl
          exact Bool.noConfusion hd
  rw [hdrop, behindSign_eq_none, Option.bind_none]
  rintro text heq
  exact hd (List.cons.inj heq).1

end Types

/-! ## The name behind a type -/

theorem nameAfterModifiers?_append (modifiers : List Modifier) (name : Identifier) :
    nameAfterModifiers? (modifiers.map Modifier.word ++ [name.text]) = some name.text := by
  induction modifiers with
  | nil => exact if_pos name.identifier
  | cons modifier modifiers ih =>
    obtain ⟨next, more, hnext⟩ := List.exists_cons_of_ne_nil
      (List.append_ne_nil_of_right_ne_nil (modifiers.map Modifier.word)
        (List.cons_ne_nil name.text []))
    rw [List.map_cons, List.cons_append]
    rw [hnext] at ih ⊢
    rw [nameAfterModifiers?, if_pos modifier.modifier, ih]
    exact List.cons_ne_nil next more

/-- The words behind a type are read up to the name. -/
theorem nameAfterType?_words (type : VariableType) (visibility : Visibility)
    (modifiers : List Modifier) (value : Option Inner) (name : Identifier) :
    nameAfterType? ((VariableKind.typed type visibility modifiers value).words name) =
      some name.text := by
  have hname := nameAfterModifiers?_append modifiers name
  have hvisibility : visibility.word ≠ "payable".toList := by
    intro hword
    exact absurd (hword ▸ visibility.visibility) (by decide)
  rw [VariableKind.words]
  cases type.payable with
  | true =>
    rw [if_pos rfl, List.singleton_append, nameAfterType?_payable]
    exact (if_pos visibility.visibility).trans hname
  | false =>
    rw [if_neg Bool.false_ne_true, List.nil_append, nameAfterType?_cons hvisibility,
      if_pos visibility.visibility, hname]

/-! ## Mappings -/

section Mappings

variable {text rest name : List Char}

/-- No name ends in front of a closing parenthesis. -/
theorem mappedName?_eq_none {types : List Char} (htypes : ';' ∉ types) (rest : List Char) :
    mappedName? (types ++ ')' :: rest) = none := by
  rw [Option.eq_none_iff_forall_ne_some]
  rintro ⟨name, behind⟩ h
  obtain ⟨taken, htaken, hplain⟩ := exists_of_mappedName? h
  rcases List.append_eq_append_iff.1 htaken with ⟨shift, rfl, hshift⟩ | ⟨shift, rfl, hshift⟩
  · cases shift with
    | nil => exact absurd (List.cons.inj hshift).1 (by decide)
    | cons c shift =>
      obtain ⟨rfl, -⟩ := List.cons.inj hshift
      have hclose := hplain ')' (List.mem_append_right _ List.mem_cons_self)
      exact Bool.noConfusion hclose
  · cases shift with
    | nil => exact absurd (List.cons.inj hshift).1 (by decide)
    | cons c shift =>
      obtain ⟨rfl, -⟩ := List.cons.inj hshift
      exact htypes (List.mem_append_right _ List.mem_cons_self)

/-- The search for the name passes over the types, up to the last parenthesis. -/
theorem nameAfterParenthesis?_types {types : List Char} (htypes : ';' ∉ types)
    (hname : mappedName? text = some (name, rest)) :
    nameAfterParenthesis? (types ++ ')' :: text) = some (name, rest) := by
  induction types with
  | nil =>
    show nameAfterParenthesis? (')' :: text) = _
    rw [nameAfterParenthesis?, if_neg (by decide), if_pos (by decide), hname]
    rfl
  | cons c types ih =>
    rw [List.mem_cons, not_or] at htypes
    have hc : ¬ (c == ';') = true := by
      rw [beq_iff_eq]
      exact fun heq => htypes.1 heq.symm
    rw [List.cons_append, nameAfterParenthesis?, if_neg hc, mappedName?_eq_none htypes.2,
      ih htypes.2, Option.none_or, ite_self]

theorem endedName?_append (name : Identifier) (rest : List Char) :
    endedName? (name.text ++ ';' :: rest) = some (name.text, rest) := by
  obtain ⟨-, hident⟩ := isIdentChar_of_isIdentifier name.identifier
  have hrest : (';' :: rest).head?.any isIdentChar = false := rfl
  have hblank : (';' :: rest).dropWhile isBlank = ';' :: rest := dropWhile_eq_self rfl
  rw [endedName?_eq, takeWhile_run hident hrest, if_pos name.identifier, dropWhile_run hident hrest,
    hblank, endedBy, behindSign_eq_some.2 rfl, Option.map_some]

/-- A name is read behind a mapping, with a visibility in front of it or without. -/
theorem mappedName?_wordsText (types : Inner) (visibility : Option Visibility) (name : Identifier)
    (rest : List Char) :
    mappedName? (wordsText ((VariableKind.mapping types visibility).words name) ++ ';' :: rest) =
      some (name.text, rest) := by
  have hspace : ∀ c ∈ [' '], isBlank c = true := List.forall_mem_singleton.2 (by decide)
  have hfront (word : List Char) (hword : IsIdentWord word) (more : List Char) :
      (word ++ more).head?.any isBlank = false := by
    obtain ⟨c, word, rfl⟩ := List.exists_cons_of_ne_nil hword.1
    exact isBlank_of_isIdentChar (hword.2 c List.mem_cons_self)
  have hname := hfront name.text name.isIdentWord (';' :: rest)
  have hended := endedName?_append name rest
  cases visibility with
  | none =>
    have htext : wordsText ((VariableKind.mapping types none).words name) ++ ';' :: rest =
        [' '] ++ (name.text ++ ';' :: rest) := by
      simp [wordsText, VariableKind.words]
    have hrest : (';' :: rest).head?.any isIdentChar = false := rfl
    rw [htext, mappedName?, dropWhile_run hspace hname, dropWhile_run name.isIdentWord.2 hrest,
      hended]
    show (if _ then none else none).or _ = _
    rw [ite_self, Option.none_or]
  | some visibility =>
    have htext : wordsText ((VariableKind.mapping types (some visibility)).words name) ++
        ';' :: rest = [' '] ++ (visibility.word ++ ([' '] ++ (name.text ++ ';' :: rest))) := by
      simp [wordsText, VariableKind.words]
    have hrest : ([' '] ++ (name.text ++ ';' :: rest)).head?.any isIdentChar = false := rfl
    have hvisible := hfront visibility.word visibility.isIdentWord
      ([' '] ++ (name.text ++ ';' :: rest))
    rw [htext, mappedName?, dropWhile_run hspace hvisible,
      takeWhile_run visibility.isIdentWord.2 hrest, if_pos visibility.visibility,
      dropWhile_run visibility.isIdentWord.2 hrest,
      afterBlanks?_append hspace (List.cons_ne_nil _ _) hname, Option.bind_some, hended,
      Option.some_or]

end Mappings

/-! ## Forms -/

/-- The form of a declaration. -/
def VariableKind.form : VariableKind → Form
  | typed _ _ _ none => .plain
  | typed _ _ _ (some _) => .valued
  | mapping _ _ => .mapping

theorem VariableKind.isIdentWord (kind : VariableKind) (name : Identifier) :
    ∀ word ∈ kind.words name, IsIdentWord word := by
  have hname : ∀ word ∈ [name.text], IsIdentWord word :=
    List.forall_mem_singleton.2 name.isIdentWord
  cases kind with
  | typed type visibility modifiers value =>
    refine List.forall_mem_append.2 ⟨?_, List.forall_mem_cons.2 ⟨visibility.isIdentWord,
      List.forall_mem_append.2 ⟨?_, hname⟩⟩⟩
    · cases type.payable with
      | true => decide
      | false => decide
    · intro word hword
      obtain ⟨modifier, -, rfl⟩ := List.mem_map.1 hword
      exact modifier.isIdentWord
  | mapping types visibility =>
    refine List.forall_mem_append.2 ⟨?_, hname⟩
    cases visibility with
    | none => exact fun _ h => absurd h List.not_mem_nil
    | some visibility => exact List.forall_mem_singleton.2 visibility.isIdentWord

theorem VariableKind.words_ne_nil (kind : VariableKind) (name : Identifier) :
    kind.words name ≠ [] := by
  cases kind with
  | typed type visibility modifiers value =>
    exact List.append_ne_nil_of_right_ne_nil _ (List.cons_ne_nil _ _)
  | mapping types visibility => exact List.append_ne_nil_of_right_ne_nil _ (List.cons_ne_nil _ _)

section Reading

variable {type : VariableType} {visibility : Visibility} {modifiers : List Modifier}
  {value : Option Inner} {indent : List Char} (name : Identifier) (rest : List Char)

theorem blankWords_valueText (value : Option Inner) (rest : List Char) :
    blankWords (valueText value ++ rest) = ([], valueText value ++ rest) := by
  cases value with
  | none => exact blankWords_of_none rfl
  | some value =>
    have hblank : afterBlanks? (valueText (some value) ++ rest) =
        some ('=' :: ' ' :: (value.text ++ [';']) ++ rest) := rfl
    exact (blankWords_of_some hblank).trans (if_pos rfl)

/-- A typed declaration is read up to its value or its semicolon. -/
theorem typedName?_typed (hindent : ∀ c ∈ indent, isIndent c = true) :
    typedName? (indent ++ (type.base ++ suffixesText type.suffixes ++
        (wordsText ((VariableKind.typed type visibility modifiers value).words name) ++
          (valueText value ++ rest)))) =
      some (name.text, (valueText value ++ rest).dropWhile isBlank) := by
  have hhead : (valueText value ++ rest).head?.any isIdentChar = false := by
    cases value with
    | none => rfl
    | some value => rfl
  rw [typedName?_typedText hindent type.qualified (VariableKind.words_ne_nil _ name)
    (VariableKind.isIdentWord _ name) (blankWords_valueText value rest) hhead,
    nameAfterType?_words, Option.map_some]

theorem valueEnd_append (value : Inner) :
    valueEnd name.text (' ' :: (value.text ++ [';']) ++ rest) = some (name.text, rest) := by
  have hvalue : ∀ c ∈ ' ' :: value.text, (c != ';') = true := by
    refine List.forall_mem_cons.2 ⟨by decide, fun c hc => ?_⟩
    exact bne_iff_ne.2 (value.inner c hc).2.1
  have hdrop : (' ' :: (value.text ++ [';']) ++ rest).dropWhile (fun c => c != ';') =
      ';' :: rest := by
    rw [← List.cons_append, List.append_assoc]
    exact dropWhile_run hvalue rfl
  rw [valueEnd, hdrop]
  exact if_pos rfl

/-- A mapping has no type with a visibility behind it. -/
theorem typedName?_mapping (hindent : ∀ c ∈ indent, isIndent c = true) (inner : List Char) :
    typedName? (indent ++ ("mapping(".toList ++ inner)) = none := by
  have hfront : ("mapping(".toList ++ inner).head?.any isIndent = false := rfl
  have hbase : ∀ c ∈ "mapping".toList, isDottedChar c = true := List.all_eq_true.1 (by decide)
  have hparenthesis : ('(' :: inner).head?.any isDottedChar = false := rfl
  have htype : afterType? ("mapping".toList ++ '(' :: inner) = some ('(' :: inner) := by
    rw [afterType?_eq, dropWhile_run hbase hparenthesis, afterArraySuffixes_of_none rfl]
    exact if_pos rfl
  rw [typedName?_eq, dropWhile_run hindent hfront]
  show (afterType? ("mapping".toList ++ '(' :: inner)).bind _ = none
  rw [htype, Option.bind_some, blankWords_of_none rfl]
  rfl

theorem mapping?_mapping (hindent : ∀ c ∈ indent, isIndent c = true) (types : Inner)
    (visibility : Option Visibility) :
    mapping? (indent ++ ("mapping(".toList ++ (types.text ++ [')']) ++
      (wordsText ((VariableKind.mapping types visibility).words name) ++ ';' :: rest))) =
        some (name.text, rest) := by
  have htypes : ';' ∉ types.text := fun hmem => (types.inner ';' hmem).2.1 rfl
  have hname := nameAfterParenthesis?_types htypes
    (mappedName?_wordsText types visibility name rest)
  generalize wordsText ((VariableKind.mapping types visibility).words name) = words at hname ⊢
  have htext : "mapping(".toList ++ (types.text ++ [')']) ++ (words ++ ';' :: rest) =
      "mapping".toList ++ '(' :: (types.text ++ ')' :: (words ++ ';' :: rest)) := by
    simp
  have hfront : ("mapping".toList ++ '(' :: (types.text ++ ')' :: (words ++ ';' :: rest))).head?.any
      isIndent = false := rfl
  have hparenthesis : ('(' :: (types.text ++ ')' :: (words ++ ';' :: rest))).dropWhile isBlank =
      '(' :: (types.text ++ ')' :: (words ++ ';' :: rest)) := dropWhile_eq_self rfl
  rw [htext, mapping?_eq, dropWhile_run hindent hfront,
    List.isPrefixOf?_eq_some_iff_append_eq.2 rfl, Option.bind_some, hparenthesis,
    behindSign_eq_some.2 rfl, Option.bind_some, hname]

end Reading

/-- Each reader reads the declarations of its form, and nothing else. -/
theorem read_text (declaration : VariableDeclaration) (form : Form) (rest : List Char) :
    form.read (declaration.text ++ rest) =
      if form = declaration.kind.form then some (declaration.name.text, rest) else none := by
  obtain ⟨indent, kind, name, hindent⟩ := declaration
  cases kind with
  | typed type visibility modifiers value =>
    have htext : VariableDeclaration.text ⟨indent, .typed type visibility modifiers value, name,
        hindent⟩ ++ rest = indent ++ (type.base ++ suffixesText type.suffixes ++
          (wordsText ((VariableKind.typed type visibility modifiers value).words name) ++
            (valueText value ++ rest))) := by
      rw [VariableDeclaration.text, List.append_assoc, List.append_assoc _ _ rest,
        List.append_assoc _ _ rest]
      rfl
    have hname := @typedName?_typed type visibility modifiers value indent name rest hindent
    rw [htext]
    cases form with
    | plain =>
      show plain? _ = _
      rw [plain?_eq, hname]
      cases value with
      | none => rfl
      | some value => rfl
    | valued =>
      show valued? _ = _
      rw [valued?_eq, hname]
      cases value with
      | none => rfl
      | some value => exact valueEnd_append name rest value
    | mapping =>
      show mapping? _ = _
      rw [mapping?_typedText hindent type.qualified (VariableKind.words_ne_nil _ name)
        (VariableKind.isIdentWord _ name)]
      cases value with
      | none => rfl
      | some value => rfl
  | mapping types visibility =>
    have htext : VariableDeclaration.text ⟨indent, .mapping types visibility, name, hindent⟩ ++
        rest = indent ++ ("mapping(".toList ++ (types.text ++ [')']) ++
          (wordsText ((VariableKind.mapping types visibility).words name) ++ ';' :: rest)) := by
      rw [VariableDeclaration.text, List.append_assoc, List.append_assoc _ _ rest,
        List.append_assoc _ _ rest]
      rfl
    have hname (inner : List Char) := typedName?_mapping hindent inner
    rw [htext]
    cases form with
    | plain =>
      show plain? _ = none
      rw [plain?_eq, List.append_assoc, hname]
      rfl
    | valued =>
      show valued? _ = none
      rw [valued?_eq, List.append_assoc, hname]
      rfl
    | mapping => exact mapping?_mapping name rest hindent types visibility

end PropertyIndex.Contract
