import PropertyIndex.Contract.StateVariable
import PropertyIndex.Proofs.Masking
import PropertyIndex.Proofs.RespacedDeclarations

/-!
# What the readers of declarations read

A state variable is found by one of three readers.  What each of them takes up in front of the name,
and what it leaves, is told here for any text.

* `Form`, `mem_stateVariables_iff`: the three readers, which give the state variables.
* `exists_of_blankWords`, `exists_of_blankWords_append`: the words at the front of a text.
* `nameAfterType?_payable`, `nameAfterType?_cons`, `exists_of_nameAfterType?`: the words behind a
  type.
* `exists_of_typedName?`, `Form.exists_typedName?`: the visibility of a typed declaration.
* `exists_of_endedName?`, `exists_of_mappedName?`: the name behind a mapping.
-/

namespace PropertyIndex.Contract

open Text Source

/-! ## Forms -/

/-- The three forms of a declaration. -/
inductive Form where
  | plain
  | valued
  | mapping
  deriving DecidableEq

/-- The forms in the order in which a contract is searched for them. -/
def Form.all : List Form :=
  [plain, valued, mapping]

theorem Form.mem_all (form : Form) : form ∈ all := by
  cases form with
  | plain => decide
  | valued => decide
  | mapping => decide

/-- The reader of a form. -/
def Form.read : Form → List Char → Option (List Char × List Char)
  | plain => plain?
  | valued => valued?
  | mapping => mapping?

/-- The readers of the forms are shapes. -/
theorem Form.isShape_read (form : Form) : IsShape form.read := by
  cases form with
  | plain => exact isShape_plain?
  | valued => exact isShape_valued?
  | mapping => exact isShape_mapping?

/-- The state variables of a contract are what the readers find in its masked copy. -/
theorem mem_stateVariables_iff {source name : String} : name ∈ (stateVariables source).toList ↔
    ∃ form : Form, name.toList ∈ declarationsIn form.read (masked source.toList) := by
  have hforms : stateVariables source =
      NameSet.ofList ((Form.all.flatMap fun form =>
        declarationsIn form.read (masked source.toList)).map String.ofList) := rfl
  rw [hforms, NameSet.mem_ofList, List.mem_map]
  constructor
  · rintro ⟨found, hmem, rfl⟩
    obtain ⟨form, -, hform⟩ := List.mem_flatMap.1 hmem
    rw [String.toList_ofList]
    exact ⟨form, hform⟩
  · rintro ⟨form, hform⟩
    exact ⟨name.toList, List.mem_flatMap.2 ⟨form, form.mem_all, hform⟩, String.ofList_toList⟩

/-! ## Words -/

section Words

variable {text rest name word : List Char} {words before : List (List Char)}

/-- The first word has blanks in front of it, and the reading goes on behind it. -/
theorem exists_of_blankWords (h : (blankWords text).1 = word :: words) :
    ∃ gap behind, text = gap ++ (word ++ behind) ∧ (∀ c ∈ gap, isBlank c = true) ∧ gap ≠ [] ∧
      blankWords behind = (words, (blankWords text).2) := by
  cases hblank : afterBlanks? text with
  | none =>
    rw [blankWords_of_none hblank] at h
    exact absurd h.symm (List.cons_ne_nil _ _)
  | some behind =>
    rw [blankWords_of_some hblank] at h ⊢
    obtain ⟨gap, htext, hgap, hne⟩ := exists_of_afterBlanks? hblank
    split_ifs at h ⊢
    obtain ⟨hword, hwords⟩ := List.cons.inj h
    refine ⟨gap, behind.dropWhile isIdentChar, ?_, hgap, hne, Prod.ext hwords rfl⟩
    rw [htext, ← hword, List.takeWhile_append_dropWhile]

/-- The same for a word that others stand in front of. -/
theorem exists_of_blankWords_append (h : (blankWords text).1 = before ++ word :: words) :
    ∃ front gap behind, text = front ++ (gap ++ (word ++ behind)) ∧
      (∀ c ∈ gap, isBlank c = true) ∧ gap ≠ [] ∧
      blankWords behind = (words, (blankWords text).2) := by
  induction before generalizing text with
  | nil =>
    obtain ⟨gap, behind, htext, hgap⟩ := exists_of_blankWords h
    exact ⟨[], gap, behind, htext, hgap⟩
  | cons other before ih =>
    obtain ⟨gap, behind, rfl, -, -, hbehind⟩ := exists_of_blankWords h
    obtain ⟨front, gap', behind', rfl, hgap, hne, hwords⟩ := ih (congrArg Prod.fst hbehind)
    refine ⟨gap ++ (other ++ front), gap', behind', ?_, hgap, hne, ?_⟩
    · simp only [List.append_assoc]
    · rw [hwords, hbehind]

theorem nameAfterType?_payable (words : List (List Char)) :
    nameAfterType? ("payable".toList :: words) =
      match words with
      | [] => none
      | visibility :: words => if isVisibility visibility then nameAfterModifiers? words else none :=
  rfl

theorem nameAfterType?_cons (hword : word ≠ "payable".toList) (words : List (List Char)) :
    nameAfterType? (word :: words) =
      if isVisibility word then nameAfterModifiers? words else none := by
  have hhead : ((word :: words).head? == some "payable".toList) = false := by
    rw [List.head?_cons, beq_eq_false_iff_ne, Ne, Option.some_inj]
    exact hword
  simp only [nameAfterType?, hhead, Bool.false_eq_true, if_false]

/-- A name alone is no declaration: there has to be a visibility in front of it. -/
theorem nameAfterType?_singleton (word : List Char) : nameAfterType? [word] = none := by
  by_cases hword : word = "payable".toList
  · rw [hword, nameAfterType?_payable]
  · rw [nameAfterType?_cons hword, nameAfterModifiers?]
    exact ite_self _

/-- Among the words behind a type there is a visibility, with more words behind it. -/
theorem exists_of_nameAfterType? (h : nameAfterType? words = some name) :
    ∃ before visibility next more, words = before ++ visibility :: next :: more ∧
      isVisibility visibility = true := by
  have hvisible {word : List Char} {words : List (List Char)}
      (h : (if isVisibility word then nameAfterModifiers? words else none) = some name) :
      ∃ next more, words = next :: more ∧ isVisibility word = true := by
    split_ifs at h with hword
    cases words with
    | nil => exact absurd h.symm (Option.some_ne_none _)
    | cons next more => exact ⟨next, more, rfl, hword⟩
  cases words with
  | nil => exact absurd h.symm (Option.some_ne_none _)
  | cons word words =>
    by_cases hword : word = "payable".toList
    · rw [hword, nameAfterType?_payable] at h
      cases words with
      | nil => exact absurd h.symm (Option.some_ne_none _)
      | cons visibility words =>
        obtain ⟨next, more, rfl, hvisibility⟩ := hvisible h
        exact ⟨[word], visibility, next, more, rfl, hvisibility⟩
    · rw [nameAfterType?_cons hword] at h
      obtain ⟨next, more, rfl, hvisibility⟩ := hvisible h
      exact ⟨[], word, next, more, rfl, hvisibility⟩

end Words

/-! ## The visibility of a typed declaration -/

section Visibility

variable {line rest name : List Char}

theorem isWordChar_getLast?_gap {gap : List Char} (hgap : ∀ c ∈ gap, isBlank c = true)
    (front : List Char) (hne : gap ≠ []) : (front ++ gap).getLast?.any isWordChar = false := by
  obtain ⟨gap, c, rfl⟩ := (List.eq_nil_or_concat' gap).resolve_left hne
  rw [← List.append_assoc, List.getLast?_concat]
  exact isWordChar_of_isBlank (hgap c (List.mem_append_right _ List.mem_cons_self))

/-- In front of what a typed declaration leaves there is a visibility between blanks. -/
theorem exists_of_typedName? (h : typedName? line = some (name, rest)) :
    ∃ front word more, line = front ++ (word ++ (more ++ rest)) ∧ isVisibility word = true ∧
      front.getLast?.any isWordChar = false ∧ ∀ back, (more ++ back).head?.any isWordChar = false := by
  rw [typedName?_eq, Option.bind_eq_some_iff] at h
  obtain ⟨words, htype, hname⟩ := h
  obtain ⟨name', hname', hpair⟩ := Option.map_eq_some_iff.1 hname
  obtain ⟨-, hleft⟩ := Prod.mk.inj hpair
  obtain ⟨before, word, next, others, hwords, hword⟩ := exists_of_nameAfterType? hname'
  obtain ⟨front, gap, behind, htext, hgap, hne, hbehind⟩ := exists_of_blankWords_append hwords
  obtain ⟨gap', behind', rfl, hgap', hne', hbehind'⟩ :=
    exists_of_blankWords (congrArg Prod.fst hbehind)
  obtain ⟨lead, hlead⟩ := (suffix_afterType? htype).trans (List.dropWhile_suffix isIndent)
  obtain ⟨tail, htail⟩ : rest <:+ behind' := by
    have hmore := suffix_blankWords behind'
    rw [hbehind', hbehind] at hmore
    rw [← hleft]
    exact (List.dropWhile_suffix isBlank).trans hmore
  refine ⟨lead ++ front ++ gap, word, gap' ++ (next ++ tail), ?_, hword, ?_, fun back => ?_⟩
  · rw [← hlead, htext, ← htail]
    simp only [List.append_assoc]
  · exact isWordChar_getLast?_gap hgap _ hne
  · obtain ⟨c, gap', rfl⟩ := List.exists_cons_of_ne_nil hne'
    exact isWordChar_of_isBlank (hgap' c List.mem_cons_self)

/-- Behind the name of a typed declaration its reader only goes on. -/
theorem Form.exists_typedName? {form : Form} (hform : form ≠ .mapping)
    (h : form.read line = some (name, rest)) :
    ∃ name' behind, typedName? line = some (name', behind) ∧ rest <:+ behind := by
  cases form with
  | plain =>
    obtain ⟨found, hfound, hend⟩ := Option.bind_eq_some_iff.1 ((plain?_eq line).symm.trans h)
    refine ⟨found.1, found.2, hfound, ?_⟩
    rw [← suffix_of_endedBy hend]
    exact List.suffix_cons _ _
  | valued =>
    obtain ⟨found, hfound, hvalue⟩ := Option.bind_eq_some_iff.1 ((valued?_eq line).symm.trans h)
    obtain ⟨value, hsign, hend⟩ := Option.bind_eq_some_iff.1 hvalue
    refine ⟨found.1, found.2, hfound, ?_⟩
    rw [valueEnd] at hend
    split_ifs at hend
    rw [behindSign_eq_some.1 hsign]
    refine List.IsSuffix.trans ?_ (List.suffix_cons _ _)
    refine List.IsSuffix.trans ?_ (List.dropWhile_suffix fun c => c != ';')
    rw [← suffix_of_endedBy hend]
    exact List.suffix_cons _ _
  | mapping => exact absurd rfl hform

end Visibility

/-! ## The name behind a mapping -/

section Mappings

variable {text rest name : List Char}

/-- Between the start of a name and its semicolon there are blanks and identifier characters. -/
theorem exists_of_endedName? (h : endedName? text = some (name, rest)) :
    ∃ taken, text = taken ++ ';' :: rest ∧
      ∀ c ∈ taken, (isBlank c || isIdentChar c) = true := by
  rw [endedName?_eq] at h
  split_ifs at h
  have hend := suffix_of_endedBy h
  refine ⟨text.takeWhile isIdentChar ++ (text.dropWhile isIdentChar).takeWhile isBlank, ?_, ?_⟩
  · rw [hend, List.append_assoc, List.takeWhile_append_dropWhile, List.takeWhile_append_dropWhile]
  · intro c hc
    rw [Bool.or_eq_true]
    rcases List.mem_append.1 hc with hident | hblank
    · exact Or.inr (List.mem_takeWhile_imp hident)
    · exact Or.inl (List.mem_takeWhile_imp hblank)

theorem exists_of_mappedName? (h : mappedName? text = some (name, rest)) :
    ∃ taken, text = taken ++ ';' :: rest ∧
      ∀ c ∈ taken, (isBlank c || isIdentChar c) = true := by
  have hgap : ∀ c ∈ text.takeWhile isBlank, (isBlank c || isIdentChar c) = true := by
    intro c hc
    rw [List.mem_takeWhile_imp (p := isBlank) hc, Bool.true_or]
  have htext : text = text.takeWhile isBlank ++ text.dropWhile isBlank :=
    (List.takeWhile_append_dropWhile).symm
  rw [mappedName?, Option.or_eq_some_iff] at h
  rcases h with hvisible | ⟨-, hended⟩
  · split_ifs at hvisible
    obtain ⟨after, hblanks, hended⟩ := Option.bind_eq_some_iff.1 hvisible
    obtain ⟨gap, hbehind, hblank, -⟩ := exists_of_afterBlanks? hblanks
    obtain ⟨taken, rfl, htaken⟩ := exists_of_endedName? hended
    refine ⟨text.takeWhile isBlank ++
      ((text.dropWhile isBlank).takeWhile isIdentChar ++ (gap ++ taken)), ?_, ?_⟩
    · rw [List.append_assoc, List.append_assoc, List.append_assoc, ← hbehind,
        List.takeWhile_append_dropWhile]
      exact htext
    · intro c hc
      simp only [List.mem_append] at hc
      rcases hc with hc | hc | hc | hc
      · exact hgap c hc
      · rw [List.mem_takeWhile_imp (p := isIdentChar) hc, Bool.or_true]
      · rw [hblank c hc, Bool.true_or]
      · exact htaken c hc
  · obtain ⟨taken, hbehind, htaken⟩ := exists_of_endedName? hended
    refine ⟨text.takeWhile isBlank ++ taken, ?_, ?_⟩
    · rw [List.append_assoc, ← hbehind]
      exact htext
    · exact List.forall_mem_append.2 ⟨hgap, htaken⟩

end Mappings

end PropertyIndex.Contract
