import PropertyIndex.Proofs.Occurrence
import PropertyIndex.Proofs.Pieces
import PropertyIndex.Proofs.Run

/-!
# Identifiers and the other character classes

* `isWordChar_of_isIdentChar`, `isNameChar_of_isIdentChar`, `isBlank_of_isIdentChar`: identifier
  characters among those of other scripts.
* `isBlank_of_isAsciiBlank`, `isWordChar_of_isAsciiBlank`, `isIdentChar_of_isAsciiBlank`: the blanks
  of source layout.
* `isWordChar_of_isBlank`, `isBlank_of_isIndent`: white space lies outside of words, and spaces and
  tabs are white space.
* `eq_of_hasWord_ident`: a run of identifier characters is one word.
* `isIdentifier_bareName`, `containsWord_bareName`: the bare name of a method.
* `isDottedChar_of_isQualifiedName`, `exists_cons_of_isQualifiedName`: the characters of a qualified
  name.
* `exists_of_afterBlanks?`, `afterBlanks?_append`: blanks at the front of a text.
-/

namespace PropertyIndex.Text

/-! ## Character classes -/

theorem toNat_of_isIdentChar {c : Char} (h : isIdentChar c = true) :
    48 ≤ c.toNat ∧ c.toNat < 123 := by
  have hclasses : (decide ('A'.val ≤ c.val ∧ c.val ≤ 'Z'.val) ||
      ('a'.val ≤ c.val && c.val ≤ 'z'.val) || ('0'.val ≤ c.val && c.val ≤ '9'.val) ||
      c == '_') = true := h
  simp only [Bool.or_eq_true, Bool.and_eq_true, decide_eq_true_eq, beq_iff_eq,
    UInt32.le_iff_toNat_le] at hclasses
  rcases hclasses with ((⟨hlow, hhigh⟩ | ⟨hlow, hhigh⟩) | ⟨hlow, hhigh⟩) | rfl
  · exact ⟨Nat.le_trans (by decide) hlow, Nat.lt_of_le_of_lt hhigh (by decide)⟩
  · exact ⟨Nat.le_trans (by decide) hlow, Nat.lt_of_le_of_lt hhigh (by decide)⟩
  · exact ⟨hlow, Nat.lt_of_le_of_lt hhigh (by decide)⟩
  · decide

/-- No word boundary lies between identifier characters. -/
theorem isWordChar_of_isIdentChar {c : Char} (h : isIdentChar c = true) : isWordChar c = true := by
  have hascii : c.toNat < 128 := Nat.lt_trans (toNat_of_isIdentChar h).2 (by decide)
  rw [isWordChar, if_pos hascii]
  exact h

theorem isBlank_of_isIdentChar {c : Char} (h : isIdentChar c = true) : isBlank c = false := by
  obtain ⟨hlow, hhigh⟩ := toNat_of_isIdentChar h
  simp only [isBlank, Bool.or_eq_false_iff, Bool.and_eq_false_iff, decide_eq_false_iff_not,
    beq_eq_false_iff_ne]
  omega

theorem ne_space_of_isIdentChar {c : Char} (h : isIdentChar c = true) : c ≠ ' ' := by
  rintro rfl
  exact Bool.noConfusion h

theorem isNameChar_of_isIdentChar {c : Char} (h : isIdentChar c = true) : isNameChar c = true := by
  have hascii : c.toNat < 128 := Nat.lt_trans (toNat_of_isIdentChar h).2 (by decide)
  rw [isNameChar, isAlphanumeric, if_pos hascii]
  exact h

theorem eq_of_isAsciiBlank {c : Char} (h : isAsciiBlank c = true) :
    c = ' ' ∨ c = '\t' ∨ c = '\n' ∨ c = '\x0c' ∨ c = '\r' := by
  simp only [isAsciiBlank, Bool.or_eq_true, beq_iff_eq, or_assoc] at h
  exact h

theorem isBlank_of_isAsciiBlank {c : Char} (h : isAsciiBlank c = true) : isBlank c = true := by
  rcases eq_of_isAsciiBlank h with rfl | rfl | rfl | rfl | rfl <;> decide

theorem isWordChar_of_isAsciiBlank {c : Char} (h : isAsciiBlank c = true) :
    isWordChar c = false := by
  rcases eq_of_isAsciiBlank h with rfl | rfl | rfl | rfl | rfl <;> decide

/-- White space of any script lies outside of words. -/
theorem isWordChar_of_isBlank {c : Char} (h : isBlank c = true) : isWordChar c = false := by
  by_cases hascii : c.toNat < 128
  · rw [isWordChar, if_pos hascii]
    refine Bool.eq_false_iff.2 fun hident => ?_
    rw [isBlank_of_isIdentChar hident] at h
    exact Bool.noConfusion h
  · have hcode : c.toNat ∈ [0x85, 0xA0, 0x1680, 0x2000, 0x2001, 0x2002, 0x2003, 0x2004, 0x2005,
        0x2006, 0x2007, 0x2008, 0x2009, 0x200A, 0x2028, 0x2029, 0x202F, 0x205F, 0x3000] := by
      simp only [isBlank, Bool.or_eq_true, Bool.and_eq_true, decide_eq_true_eq, beq_iff_eq] at h
      simp only [List.mem_cons, List.not_mem_nil, or_false]
      omega
    rw [isWordChar, if_neg hascii]
    revert hcode
    generalize c.toNat = n
    revert n
    decide +kernel

theorem isBlank_of_isIndent {c : Char} (h : isIndent c = true) : isBlank c = true := by
  rw [isIndent, Bool.or_eq_true, beq_iff_eq, beq_iff_eq] at h
  rcases h with rfl | rfl <;> decide

theorem isIndent_of_isBlank {c : Char} (h : isBlank c = false) : isIndent c = false := by
  refine Bool.eq_false_iff.2 fun hindent => ?_
  rw [isBlank_of_isIndent hindent] at h
  exact Bool.noConfusion h

theorem isIdentChar_of_isAsciiBlank {c : Char} (h : isAsciiBlank c = true) :
    isIdentChar c = false := by
  rcases eq_of_isAsciiBlank h with rfl | rfl | rfl | rfl | rfl <;> decide

/-- In a run of identifier characters only the whole run is a word. -/
theorem eq_of_hasWord_ident {word text : List Char} (hident : ∀ c ∈ text, isIdentChar c = true)
    (h : HasWord isWordChar word text) : text = word := by
  obtain ⟨before, after, rfl, hbefore, hafter⟩ := h
  have hword : ∀ c ∈ before ++ word ++ after, isWordChar c = true :=
    fun c hc => isWordChar_of_isIdentChar (hident c hc)
  have hnil : before = [] := by
    by_contra hne
    rw [getLast?_any_of_forall hne fun c hc =>
      hword c (List.mem_append_left _ (List.mem_append_left _ hc))] at hbefore
    exact Bool.noConfusion hbefore
  have hnil' : after = [] := by
    by_contra hne
    rw [head?_any_of_forall hne fun c hc => hword c (List.mem_append_right _ hc)] at hafter
    exact Bool.noConfusion hafter
  rw [hnil, hnil', List.nil_append, List.append_nil]

/-- Where no character is an identifier character, none is at the front either. -/
theorem head?_any_of_not_ident {text : List Char} (h : ∀ c ∈ text, isIdentChar c = false) :
    text.head?.any isIdentChar = false := by
  cases text with
  | nil => rfl
  | cons c text => exact h c List.mem_cons_self

theorem getLast?_any_of_not_ident {text : List Char} (h : ∀ c ∈ text, isIdentChar c = false) :
    text.getLast?.any isIdentChar = false := by
  rw [← List.head?_reverse]
  exact head?_any_of_not_ident fun c hc => h c (List.mem_reverse.1 hc)

/-! ## Bare names -/

/-- The bare name of a method is an identifier. -/
theorem isIdentifier_bareName {method : String} (hmethod : isQualifiedName method.toList = true) :
    isIdentifier (bareName method).toList = true := by
  rw [isQualifiedName, List.all_eq_true] at hmethod
  rw [bareName, String.toList_ofList,
    List.getLast?_eq_some_getLast (pieces_ne_nil '.' method.toList), Option.getD_some]
  exact hmethod _ (List.getLast_mem _)

/-- An identifier is a nonempty word of identifier characters. -/
theorem isIdentChar_of_isIdentifier {word : List Char} (h : isIdentifier word = true) :
    word ≠ [] ∧ ∀ c ∈ word, isIdentChar c = true := by
  cases word with
  | nil => exact Bool.noConfusion h
  | cons first rest =>
    rw [isIdentifier, Bool.and_eq_true, List.all_eq_true] at h
    obtain ⟨hfirst, hrest⟩ := h
    have hstart : isIdentChar first = true := by
      rw [isIdentStart, Bool.or_eq_true] at hfirst
      rw [isIdentChar, Char.isAlphanum, Bool.or_eq_true, Bool.or_eq_true]
      exact hfirst.imp_left Or.inl
    exact ⟨List.cons_ne_nil _ _, List.forall_mem_cons.2 ⟨hstart, hrest⟩⟩

/-- A method is listed when its bare name stands in the text as a whole name. -/
theorem containsWord_bareName {method : String} (hmethod : isQualifiedName method.toList = true)
    (text : List Char) : containsWord text (bareName method).toList =
      decide (HasWord isNameChar (bareName method).toList text) := by
  obtain ⟨hne, hident⟩ := isIdentChar_of_isIdentifier (isIdentifier_bareName hmethod)
  rw [Bool.eq_iff_iff, decide_eq_true_iff,
    containsWord_iff (fun c hc => isNameChar_of_isIdentChar (hident c hc)) hne]

/-! ## Qualified names -/

section Qualified

variable {name : List Char}

theorem isDottedChar_of_isIdentChar {c : Char} (h : isIdentChar c = true) :
    isDottedChar c = true := by
  rw [isDottedChar, h, Bool.true_or]

/-- A qualified name consists of identifier characters and dots. -/
theorem isDottedChar_of_isQualifiedName (h : isQualifiedName name = true) :
    ∀ c ∈ name, isDottedChar c = true := by
  intro c hc
  by_cases hdot : c = '.'
  · rw [hdot]
    decide
  · obtain ⟨piece, hpiece, hmem⟩ := exists_mem_pieces hc hdot
    have hident : isIdentifier piece = true := List.all_eq_true.1 h piece hpiece
    exact isDottedChar_of_isIdentChar ((isIdentChar_of_isIdentifier hident).2 c hmem)

/-- A qualified name begins like an identifier. -/
theorem exists_cons_of_isQualifiedName (h : isQualifiedName name = true) :
    ∃ c rest, name = c :: rest ∧ isIdentStart c = true := by
  cases name with
  | nil => exact Bool.noConfusion h
  | cons c name =>
    obtain ⟨first, more, hpieces⟩ := List.exists_cons_of_ne_nil (pieces_ne_nil '.' name)
    rw [isQualifiedName, pieces] at h
    split_ifs at h with hdot
    · exact Bool.noConfusion h
    · rw [hpieces, List.all_cons, Bool.and_eq_true, isIdentifier, Bool.and_eq_true] at h
      exact ⟨c, name, rfl, h.1.1⟩

theorem isBlank_of_isDottedChar {c : Char} (h : isDottedChar c = true) : isBlank c = false := by
  rw [isDottedChar, Bool.or_eq_true, beq_iff_eq] at h
  rcases h with hident | rfl
  · exact isBlank_of_isIdentChar hident
  · decide

end Qualified

/-! ## Blanks at the front -/

section Blanks

variable {text rest : List Char}

theorem exists_of_afterBlanks? (h : afterBlanks? text = some rest) :
    ∃ gap, text = gap ++ rest ∧ (∀ c ∈ gap, isBlank c = true) ∧ gap ≠ [] := by
  cases text with
  | nil => exact absurd h.symm (Option.some_ne_none _)
  | cons c text =>
    simp only [afterBlanks?] at h
    split_ifs at h with hc
    obtain rfl := Option.some_inj.1 h
    refine ⟨c :: text.takeWhile isBlank, ?_, ?_, List.cons_ne_nil _ _⟩
    · rw [List.cons_append, List.takeWhile_append_dropWhile]
    · exact List.forall_mem_cons.2 ⟨hc, fun _ hmem => List.mem_takeWhile_imp hmem⟩

theorem afterBlanks?_append {gap : List Char} (hgap : ∀ c ∈ gap, isBlank c = true) (hne : gap ≠ [])
    (hrest : rest.head?.any isBlank = false) : afterBlanks? (gap ++ rest) = some rest := by
  obtain ⟨c, gap, rfl⟩ := List.exists_cons_of_ne_nil hne
  obtain ⟨hc, hgap'⟩ := List.forall_mem_cons.1 hgap
  rw [List.cons_append, afterBlanks?, if_pos hc, dropWhile_run hgap' hrest]

end Blanks

end PropertyIndex.Text
