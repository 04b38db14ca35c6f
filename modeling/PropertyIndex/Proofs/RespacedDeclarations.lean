import PropertyIndex.Proofs.DeclarationForm
import PropertyIndex.Proofs.LineEnd

/-!
# Declarations and blanks at line ends

Declarations are found with and without blanks in front of the line feeds.  Whatever reads a part
of a declaration either passes over all blanks or stops at a line feed as well as at a blank in
front of it, so corresponding texts are left.

* `dropWhile_respaced`: a test that stops at line feeds.
* `IsRespacedName`: what corresponding readings of a declaration give.
* `plain?_respaced`, `valued?_respaced`, `mapping?_respaced`: the three shapes.
* `declarationsIn_respaced`: the names that a shape declares.
-/

namespace PropertyIndex.Contract

open Text

variable {text other line name : List Char}

/-! ## Parts of a declaration -/

/-- A test that stops at line feeds leaves corresponding texts, whichever blanks it passes over. -/
theorem dropWhile_respaced {p : Char → Bool} (hp : p '\n' = false) (h : Respaced text other) :
    Respaced (text.dropWhile p) (other.dropWhile p) := by
  induction h with
  | nil => exact .nil
  | keep hc hrest ih =>
    rw [List.dropWhile_cons, List.dropWhile_cons]
    split
    · exact ih
    · exact .keep hc hrest
  | @pad x pad text other hx hpad hrest ih =>
    subst hx
    have hstop : ('\n' :: other).dropWhile p = '\n' :: other :=
      List.dropWhile_cons_of_neg (Bool.eq_false_iff.1 hp)
    have hgap : IsGap (pad.dropWhile p) := fun c hc =>
      hpad c ((List.dropWhile_sublist p).subset hc)
    have hother : (pad ++ '\n' :: other).dropWhile p = pad.dropWhile p ++ '\n' :: other := by
      rw [List.dropWhile_append]
      split
      · next hnil => rw [List.isEmpty_iff.1 hnil, hstop, List.nil_append]
      · rfl
    rw [List.dropWhile_cons_of_neg (Bool.eq_false_iff.1 hp), hother]
    exact .pad rfl hgap hrest

theorem behindSign_respaced {sign : Char} (hsign : isAsciiBlank sign = false)
    (h : Respaced text other) :
    Option.Rel Respaced (behindSign sign text) (behindSign sign other) := by
  have hunseen : Unseen (· = '\n') IsGap (· == sign) := by
    refine unseen_respaced ?_ ?_ ?_
    all_goals
      rw [beq_eq_false_iff_ne]
      rintro rfl
      exact Bool.noConfusion hsign
  exact h.isPrefixOf? hunseen (List.forall_mem_singleton.2 (beq_self_eq_true sign))

theorem afterArraySuffix?_respaced (h : Respaced text other) :
    Option.Rel Respaced (afterArraySuffix? text) (afterArraySuffix? other) := by
  rw [afterArraySuffix?_eq, afterArraySuffix?_eq]
  refine rel_bind (behindSign_respaced rfl (dropWhile_respaced rfl h)) fun inner inner' hinner => ?_
  exact behindSign_respaced rfl (dropWhile_respaced rfl hinner)

theorem afterArraySuffixes_respaced (h : Respaced text other) :
    Respaced (afterArraySuffixes text) (afterArraySuffixes other) := by
  induction hlength : text.length using Nat.strong_induction_on generalizing text other with
  | _ n ih =>
    subst hlength
    rcases rel_cases (afterArraySuffix?_respaced h) with ⟨hx, hy⟩ | ⟨rest, rest', hx, hy, hrest⟩
    · rw [afterArraySuffixes_of_none hx, afterArraySuffixes_of_none hy]
      exact h
    · rw [afterArraySuffixes_of_some hx, afterArraySuffixes_of_some hy]
      exact ih rest.length (length_lt_of_afterArraySuffix? hx) hrest rfl

theorem afterType?_respaced (h : Respaced text other) :
    Option.Rel Respaced (afterType? text) (afterType? other) := by
  have hdotted : Blind (· = '\n') IsGap isDottedChar := blind_respaced (by decide) (by decide)
  have hstart : Blind (· = '\n') IsGap isIdentStart := blind_respaced (by decide) (by decide)
  rw [afterType?_eq, afterType?_eq, h.head?_any_eq hstart]
  split_ifs
  · exact .some (afterArraySuffixes_respaced (h.dropWhile hdotted))
  · exact .none

theorem afterBlanks?_respaced (h : Respaced text other) :
    Option.Rel Respaced (afterBlanks? text) (afterBlanks? other) := by
  rw [afterBlanks?_eq, afterBlanks?_eq, h.head?_any_eq blind_isBlank]
  split_ifs
  · exact .some (h.dropWhile blind_isBlank)
  · exact .none

/-- The words between blanks are the same. -/
theorem blankWords_respaced (h : Respaced text other) :
    (blankWords other).1 = (blankWords text).1 ∧
      Respaced (blankWords text).2 (blankWords other).2 := by
  induction hlength : text.length using Nat.strong_induction_on generalizing text other with
  | _ n ih =>
    subst hlength
    rcases rel_cases (afterBlanks?_respaced h) with ⟨hx, hy⟩ | ⟨behind, behind', hx, hy, hbehind⟩
    · rw [blankWords_of_none hx, blankWords_of_none hy]
      exact ⟨rfl, h⟩
    · have hword := hbehind.takeWhile_eq unseen_isIdentChar
      have hrest := hbehind.dropWhile unseen_isIdentChar.blind
      have hlt : (behind.dropWhile isIdentChar).length < text.length :=
        Nat.lt_of_le_of_lt (List.dropWhile_sublist isIdentChar).length_le
          (length_lt_of_afterBlanks? hx)
      obtain ⟨hwords, hmore⟩ := ih _ hlt hrest rfl
      rw [blankWords_of_some hx, blankWords_of_some hy, hword]
      split_ifs
      · exact ⟨rfl, h⟩
      · exact ⟨congrArg (_ :: ·) hwords, hmore⟩

/-! ## Shapes of a declaration -/

/-- The same name, in front of corresponding texts. -/
def IsRespacedName (found other : List Char × List Char) : Prop :=
  other.1 = found.1 ∧ Respaced found.2 other.2

theorem endedBy_respaced (h : Respaced text other) :
    Option.Rel IsRespacedName (endedBy name text) (endedBy name other) :=
  rel_map (behindSign_respaced rfl h) fun _ _ hrest => ⟨rfl, hrest⟩

theorem typedName?_respaced (h : Respaced line other) :
    Option.Rel IsRespacedName (typedName? line) (typedName? other) := by
  rw [typedName?_eq, typedName?_eq]
  refine rel_bind (afterType?_respaced (dropWhile_respaced rfl h)) fun behind behind' hbehind => ?_
  obtain ⟨hwords, hrest⟩ := blankWords_respaced hbehind
  rw [hwords]
  cases nameAfterType? (blankWords behind).1 with
  | none => exact .none
  | some name => exact .some ⟨rfl, hrest.dropWhile blind_isBlank⟩

theorem plain?_respaced (h : Respaced line other) :
    Option.Rel IsRespacedName (plain? line) (plain? other) := by
  rw [plain?_eq, plain?_eq]
  refine rel_bind (typedName?_respaced h) ?_
  rintro ⟨name, rest⟩ ⟨name', rest'⟩ ⟨rfl, hrest⟩
  exact endedBy_respaced hrest

theorem valueEnd_respaced (h : Respaced text other) :
    Option.Rel IsRespacedName (valueEnd name text) (valueEnd name other) := by
  have hfirst : Blind (· = '\n') IsGap fun c => c != ';' && c != '=' :=
    blind_respaced (by decide) (by decide)
  have hvalue : Blind (· = '\n') IsGap fun c => c != ';' := blind_respaced (by decide) (by decide)
  rw [valueEnd, valueEnd, h.head?_any_eq hfirst]
  split_ifs
  · exact endedBy_respaced (h.dropWhile hvalue)
  · exact .none

theorem valued?_respaced (h : Respaced line other) :
    Option.Rel IsRespacedName (valued? line) (valued? other) := by
  rw [valued?_eq, valued?_eq]
  refine rel_bind (typedName?_respaced h) ?_
  rintro ⟨name, rest⟩ ⟨name', rest'⟩ ⟨rfl, hrest⟩
  exact rel_bind (behindSign_respaced rfl hrest) fun _ _ hvalue => valueEnd_respaced hvalue

theorem endedName?_respaced (h : Respaced text other) :
    Option.Rel IsRespacedName (endedName? text) (endedName? other) := by
  rw [endedName?_eq, endedName?_eq, h.takeWhile_eq unseen_isIdentChar]
  split_ifs
  · exact endedBy_respaced ((h.dropWhile unseen_isIdentChar.blind).dropWhile blind_isBlank)
  · exact .none

theorem mappedName?_respaced (h : Respaced text other) :
    Option.Rel IsRespacedName (mappedName? text) (mappedName? other) := by
  have hbehind := h.dropWhile blind_isBlank
  rw [mappedName?, mappedName?, hbehind.takeWhile_eq unseen_isIdentChar]
  refine rel_or ?_ (endedName?_respaced hbehind)
  split_ifs
  · exact rel_bind (afterBlanks?_respaced (hbehind.dropWhile unseen_isIdentChar.blind))
      fun _ _ hname => endedName?_respaced hname
  · exact .none

/-- The search for a closing parenthesis passes over blanks. -/
theorem nameAfterParenthesis?_append {pad : List Char} (hpad : ∀ c ∈ pad, isAsciiBlank c = true)
    (text : List Char) : nameAfterParenthesis? (pad ++ text) = nameAfterParenthesis? text := by
  induction pad with
  | nil => rfl
  | cons c pad ih =>
    obtain ⟨hc, hrest⟩ := List.forall_mem_cons.1 hpad
    have hsemicolon : ¬(c == ';') = true := by
      rintro h
      rw [beq_iff_eq.1 h] at hc
      exact Bool.noConfusion hc
    have hparenthesis : ¬(c == ')') = true := by
      rintro h
      rw [beq_iff_eq.1 h] at hc
      exact Bool.noConfusion hc
    rw [List.cons_append, nameAfterParenthesis?, if_neg hsemicolon, if_neg hparenthesis, ih hrest]

theorem nameAfterParenthesis?_respaced (h : Respaced text other) :
    Option.Rel IsRespacedName (nameAfterParenthesis? text) (nameAfterParenthesis? other) := by
  induction h with
  | nil => exact .none
  | keep _ hrest ih =>
    rw [nameAfterParenthesis?, nameAfterParenthesis?]
    split_ifs
    · exact .none
    · exact rel_or (mappedName?_respaced hrest) ih
    · exact ih
  | @pad x pad text other hx hpad _ ih =>
    subst hx
    have hblank : ∀ c ∈ pad ++ ['\n'], isAsciiBlank c = true := by
      intro c hc
      rcases List.mem_append.1 hc with hc | hc
      · rcases hpad c hc with rfl | rfl
        · rfl
        · rfl
      · rw [List.mem_singleton.1 hc]
        rfl
    have hother : nameAfterParenthesis? (pad ++ '\n' :: other) = nameAfterParenthesis? other := by
      rw [← nameAfterParenthesis?_append hblank other, List.append_assoc]
      rfl
    rw [hother]
    exact ih

theorem mapping?_respaced (h : Respaced line other) :
    Option.Rel IsRespacedName (mapping? line) (mapping? other) := by
  have hword : ∀ c ∈ "mapping".toList, isIdentChar c = true := List.all_eq_true.1 (by decide)
  rw [mapping?_eq, mapping?_eq]
  refine rel_bind ((dropWhile_respaced rfl h).isPrefixOf? unseen_isIdentChar hword) ?_
  intro behind behind' hbehind
  exact rel_bind (behindSign_respaced rfl (hbehind.dropWhile blind_isBlank))
    fun _ _ hinner => nameAfterParenthesis?_respaced hinner

/-! ## The search for declarations -/

/-- What the search relies on: a declaration ends with its semicolon, it begins at no line feed, and
blanks in front of line feeds make no difference to it. -/
structure IsShape (shape : List Char → Option (List Char × List Char)) : Prop where
  ends : ∀ {line name rest}, shape line = some (name, rest) → ';' :: rest <:+ line
  at_feed : ∀ text, shape ('\n' :: text) = none
  respaced : ∀ {line other}, Respaced line other →
    Option.Rel IsRespacedName (shape line) (shape other)

theorem typedName?_feed (text : List Char) : typedName? ('\n' :: text) = none := by
  rw [typedName?_eq, List.dropWhile_cons_of_neg (by decide), afterType?_eq]
  rfl

theorem isShape_plain? : IsShape plain? where
  ends := plain?_ends
  at_feed := fun text => by rw [plain?_eq, typedName?_feed, Option.bind_none]
  respaced := plain?_respaced

theorem isShape_valued? : IsShape valued? where
  ends := valued?_ends
  at_feed := fun text => by rw [valued?_eq, typedName?_feed, Option.bind_none]
  respaced := valued?_respaced

theorem isShape_mapping? : IsShape mapping? where
  ends := mapping?_ends
  at_feed := fun text => by
    rw [mapping?_eq, List.dropWhile_cons_of_neg (by decide)]
    rfl
  respaced := mapping?_respaced

section Search

variable {shape : List Char → Option (List Char × List Char)} {lineStart : Bool}

/-- The search passes over blanks that stand in front of a line feed. -/
theorem declarationsFrom_gap {pad : List Char} (hshape : IsShape shape) (hpad : IsGap pad)
    (h : Respaced text other) : declarationsFrom shape lineStart 0 (pad ++ '\n' :: other) =
      declarationsFrom shape true 0 other := by
  induction pad generalizing lineStart with
  | nil => exact declarationsFrom_of_none fun _ => hshape.at_feed other
  | cons c pad ih =>
    obtain ⟨hc, hrest⟩ := List.forall_mem_cons.1 hpad
    have hnone : shape (c :: (pad ++ '\n' :: other)) = none := by
      have hpadded : Respaced ('\n' :: text) (c :: pad ++ '\n' :: other) := .pad rfl hpad h
      have hshapes := hshape.respaced hpadded
      rw [hshape.at_feed] at hshapes
      cases hother : shape (c :: (pad ++ '\n' :: other)) with
      | none => rfl
      | some found =>
        rw [List.cons_append, hother] at hshapes
        exact absurd hshapes (by rintro ⟨⟩)
    have hline : (c == '\n') = false := by
      rcases hc with rfl | rfl
      · rfl
      · rfl
    rw [List.cons_append, declarationsFrom_of_none fun _ => hnone, hline]
    exact ih hrest

/-- A shape declares the same names with and without blanks in front of line feeds. -/
theorem declarationsFrom_respaced (hshape : IsShape shape) (h : Respaced text other) :
    declarationsFrom shape lineStart 0 other = declarationsFrom shape lineStart 0 text := by
  induction hlength : text.length using Nat.strong_induction_on
    generalizing text other lineStart with
  | _ n ih =>
    subst hlength
    cases h with
    | nil => rfl
    | @keep c text other hc hrest =>
      have hnext : declarationsFrom shape (c == '\n') 0 other =
          declarationsFrom shape (c == '\n') 0 text :=
        ih text.length (Nat.lt_succ_self _) hrest rfl
      cases lineStart with
      | false => exact hnext
      | true =>
        rcases rel_cases (hshape.respaced (.keep hc hrest)) with
          ⟨hx, hy⟩ | ⟨⟨name, rest⟩, ⟨name', rest'⟩, hx, hy, rfl, hmore⟩
        · rw [declarationsFrom_of_none fun _ => hx, declarationsFrom_of_none fun _ => hy]
          exact hnext
        · have hlt : rest.length < (c :: text).length :=
            Nat.lt_of_succ_le (hshape.ends hx).length_le
          rw [declarationsFrom_of_some hx (hshape.ends hx),
            declarationsFrom_of_some hy (hshape.ends hy), ih _ hlt hmore rfl]
    | @pad feed pad text other hfeed hpad hrest =>
      subst hfeed
      rw [declarationsFrom_gap hshape hpad hrest,
        declarationsFrom_of_none fun _ => hshape.at_feed text]
      exact ih text.length (Nat.lt_succ_self _) hrest rfl

end Search

/-- The names that a shape declares in a text do not depend on blanks in front of its line
feeds. -/
theorem declarationsIn_respaced {shape : List Char → Option (List Char × List Char)}
    (hshape : IsShape shape) (h : Respaced text other) :
    declarationsIn shape other = declarationsIn shape text :=
  declarationsFrom_respaced hshape h

end PropertyIndex.Contract
