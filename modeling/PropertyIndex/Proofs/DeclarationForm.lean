import Mathlib.Data.List.Infix
import PropertyIndex.Contract.Declaration
import PropertyIndex.Proofs.Identifier
import PropertyIndex.Proofs.Run

/-!
# The form of a declaration

Each reader of a declaration goes on from what the one before it has left, and most of them look
for one sign first.  So what is left is always the end of the line that the reading began with, and
a declaration ends with its semicolon.

* `behindSign`: the text behind a sign, by which the readers are written as chains.
* `afterArraySuffix?_eq`, `afterType?_eq`, `afterBlanks?_eq`, `plain?_eq`, `valued?_eq`,
  `endedName?_eq`, `mapping?_eq`: the readers as chains.
* `suffix_afterType?`, `suffix_blankWords`, `suffix_typedName?`: what readers leave.
* `plain?_ends`, `valued?_ends`, `mapping?_ends`: declarations end with a semicolon.
* `declarationsFrom_of_none`, `declarationsFrom_of_some`: the two steps of the search.
-/

namespace PropertyIndex.Contract

open Text

variable {text line rest : List Char} {name : List Char}

/-! ## Chains of readers -/

/-- The text behind a sign, if the sign is at the front. -/
def behindSign (sign : Char) (text : List Char) : Option (List Char) :=
  [sign].isPrefixOf? text

theorem behindSign_eq_some {sign : Char} :
    behindSign sign text = some rest ↔ text = sign :: rest := by
  rw [behindSign, List.isPrefixOf?_eq_some_iff_append_eq, List.singleton_append, eq_comm]

theorem behindSign_eq_none {sign : Char} (h : ∀ rest, text ≠ sign :: rest) :
    behindSign sign text = none := by
  rw [Option.eq_none_iff_forall_ne_some]
  intro rest hrest
  exact h rest (behindSign_eq_some.1 hrest)

theorem afterArraySuffix?_eq (text : List Char) : afterArraySuffix? text =
    (behindSign '[' (text.dropWhile isIndent)).bind fun inner =>
      behindSign ']' (inner.dropWhile fun c => c != ']' && c != '\n') := by
  rw [afterArraySuffix?]
  split
  · next inner hopen =>
    rw [behindSign_eq_some.2 hopen, Option.bind_some]
    split
    · next rest hclose => rw [behindSign_eq_some.2 hclose]
    · next hclose => rw [behindSign_eq_none hclose]
  · next hopen => rw [behindSign_eq_none hopen, Option.bind_none]

theorem afterType?_eq (text : List Char) : afterType? text =
    if text.head?.any isIdentStart then some (afterArraySuffixes (text.dropWhile isDottedChar))
    else none := by
  cases text with
  | nil => rfl
  | cons c text =>
    show (if isIdentStart c then _ else _) = if isIdentStart c then _ else _
    by_cases hc : isIdentStart c = true
    · have hdotted : isDottedChar c = true := by
        rw [isIdentStart, Bool.or_eq_true] at hc
        rw [isDottedChar, isIdentChar, Char.isAlphanum, Bool.or_eq_true, Bool.or_eq_true,
          Bool.or_eq_true]
        exact Or.inl (hc.imp_left Or.inl)
      rw [if_pos hc, if_pos hc, List.dropWhile_cons_of_pos hdotted]
    · rw [if_neg hc, if_neg hc]

theorem afterBlanks?_eq (text : List Char) : afterBlanks? text =
    if text.head?.any isBlank then some (text.dropWhile isBlank) else none := by
  cases text with
  | nil => rfl
  | cons c text =>
    show (if isBlank c then _ else _) = if isBlank c then _ else _
    by_cases hc : isBlank c = true
    · rw [if_pos hc, if_pos hc, List.dropWhile_cons_of_pos hc]
    · rw [if_neg hc, if_neg hc]

/-- A name in front of a semicolon, with what follows that. -/
def endedBy (name text : List Char) : Option (List Char × List Char) :=
  (behindSign ';' text).map fun rest => (name, rest)

theorem endedBy_eq (name text : List Char) : endedBy name text = match text with
    | ';' :: rest => some (name, rest)
    | _ => none := by
  rw [endedBy]
  split
  · next rest => rw [behindSign_eq_some.2 rfl, Option.map_some]
  · next hsign => rw [behindSign_eq_none hsign, Option.map_none]

theorem typedName?_eq (line : List Char) : typedName? line =
    (afterType? (line.dropWhile isIndent)).bind fun behind =>
      (nameAfterType? (blankWords behind).1).map fun name =>
        (name, (blankWords behind).2.dropWhile isBlank) := by
  rw [typedName?]
  cases afterType? (line.dropWhile isIndent) with
  | none => rfl
  | some behind =>
    rw [Option.bind_some]
    show (nameAfterType? (blankWords behind).1).bind _ = _
    cases nameAfterType? (blankWords behind).1 with
    | none => rfl
    | some name => rfl

theorem plain?_eq (line : List Char) : plain? line =
    (typedName? line).bind fun found => endedBy found.1 found.2 := by
  rw [plain?]
  cases typedName? line with
  | none => rfl
  | some found => exact (endedBy_eq found.1 found.2).symm

/-- The value behind an equality sign up to its semicolon, with the name in front. -/
def valueEnd (name value : List Char) : Option (List Char × List Char) :=
  if value.head?.any (fun c => c != ';' && c != '=') then
    endedBy name (value.dropWhile fun c => c != ';')
  else none

theorem valued?_eq (line : List Char) : valued? line = (typedName? line).bind fun found =>
    (behindSign '=' found.2).bind (valueEnd found.1) := by
  rw [valued?]
  cases typedName? line with
  | none => rfl
  | some found =>
    obtain ⟨name, rest⟩ := found
    rw [Option.bind_eq_bind, Option.bind_some, Option.bind_some]
    dsimp only
    split
    · next c value =>
      rw [behindSign_eq_some.2 rfl, Option.bind_some, valueEnd, List.head?_cons, Option.any_some]
      by_cases hend : c = ';'
      · rw [hend]
        rfl
      · by_cases hsecond : c = '='
        · rw [hsecond]
          rfl
        · have hpass : (c != ';') = true := bne_iff_ne.2 hend
          have hvalue : (c != ';' && c != '=') = true :=
            Bool.and_eq_true_iff.2 ⟨hpass, bne_iff_ne.2 hsecond⟩
          have hdrop : (c :: value).dropWhile (fun c => c != ';') =
              value.dropWhile fun c => c != ';' := List.dropWhile_cons_of_pos hpass
          rw [if_neg (by simp [hend, hsecond]), if_pos hvalue, hdrop, endedBy_eq]
          rfl
    · next hvalue =>
      rcases hsign : behindSign '=' rest with _ | value
      · rfl
      · cases value with
        | nil => rfl
        | cons c value => exact absurd (behindSign_eq_some.1 hsign) (hvalue c value)

theorem endedName?_eq (text : List Char) : endedName? text =
    if isIdentifier (text.takeWhile isIdentChar) then
      endedBy (text.takeWhile isIdentChar) ((text.dropWhile isIdentChar).dropWhile isBlank)
    else none := by
  rw [endedBy_eq]
  rfl

theorem mapping?_eq (line : List Char) : mapping? line =
    ("mapping".toList.isPrefixOf? (line.dropWhile isIndent)).bind fun behind =>
      (behindSign '(' (behind.dropWhile isBlank)).bind nameAfterParenthesis? := by
  rw [mapping?]
  cases "mapping".toList.isPrefixOf? (line.dropWhile isIndent) with
  | none => rfl
  | some behind =>
    rw [Option.bind_eq_bind, Option.bind_some, Option.bind_some]
    split
    · next inner hsign => rw [behindSign_eq_some.2 hsign, Option.bind_some]
    · next hsign => rw [behindSign_eq_none hsign, Option.bind_none]

/-! ## What readers leave -/

theorem suffix_of_endedBy {name' : List Char} (h : endedBy name text = some (name', rest)) :
    ';' :: rest = text := by
  obtain ⟨behind, hbehind, heq⟩ := Option.map_eq_some_iff.1 h
  rw [← (Prod.mk.inj heq).2]
  exact (behindSign_eq_some.1 hbehind).symm

theorem suffix_afterArraySuffix? (h : afterArraySuffix? text = some rest) : rest <:+ text := by
  rw [afterArraySuffix?_eq, Option.bind_eq_some_iff] at h
  obtain ⟨inner, hopen, hclose⟩ := h
  have hinner : inner <:+ text := by
    refine List.IsSuffix.trans ?_ (List.dropWhile_suffix isIndent)
    rw [behindSign_eq_some.1 hopen]
    exact List.suffix_cons _ _
  refine List.IsSuffix.trans ?_ hinner
  refine List.IsSuffix.trans ?_ (List.dropWhile_suffix fun c => c != ']' && c != '\n')
  rw [behindSign_eq_some.1 hclose]
  exact List.suffix_cons _ _

theorem afterArraySuffixes_of_none (h : afterArraySuffix? text = none) :
    afterArraySuffixes text = text := by
  rw [afterArraySuffixes]
  split
  · next rest hrest =>
    rw [h] at hrest
    exact absurd hrest.symm (Option.some_ne_none _)
  · rfl

theorem afterArraySuffixes_of_some (h : afterArraySuffix? text = some rest) :
    afterArraySuffixes text = afterArraySuffixes rest := by
  rw [afterArraySuffixes]
  split
  · next rest' hrest =>
    rw [h] at hrest
    rw [Option.some_inj.1 hrest]
  · next hnone =>
    rw [h] at hnone
    exact absurd hnone (Option.some_ne_none _)

theorem suffix_afterArraySuffixes (text : List Char) : afterArraySuffixes text <:+ text := by
  fun_induction afterArraySuffixes text with
  | case1 text rest h ih => exact ih.trans (suffix_afterArraySuffix? h)
  | case2 text h => exact List.suffix_refl _

theorem suffix_afterType? (h : afterType? text = some rest) : rest <:+ text := by
  rw [afterType?_eq] at h
  split_ifs at h
  obtain rfl := Option.some_inj.1 h
  exact (suffix_afterArraySuffixes _).trans (List.dropWhile_suffix _)

theorem suffix_afterBlanks? (h : afterBlanks? text = some rest) : rest <:+ text := by
  rw [afterBlanks?_eq] at h
  split_ifs at h
  obtain rfl := Option.some_inj.1 h
  exact List.dropWhile_suffix _

theorem blankWords_of_none (h : afterBlanks? text = none) : blankWords text = ([], text) := by
  rw [blankWords]
  split
  · rfl
  · next behind hbehind =>
    rw [h] at hbehind
    exact absurd hbehind.symm (Option.some_ne_none _)

theorem blankWords_of_some {behind : List Char} (h : afterBlanks? text = some behind) :
    blankWords text = if behind.takeWhile isIdentChar = [] then ([], text) else
      (behind.takeWhile isIdentChar :: (blankWords (behind.dropWhile isIdentChar)).1,
        (blankWords (behind.dropWhile isIdentChar)).2) := by
  rw [blankWords]
  split
  · next hnone =>
    rw [h] at hnone
    exact absurd hnone (Option.some_ne_none _)
  · next behind' hbehind =>
    rw [h] at hbehind
    obtain rfl := Option.some_inj.1 hbehind
    split
    · next hword => rw [if_pos hword]
    · next hword => rw [if_neg hword]

theorem suffix_blankWords (text : List Char) : (blankWords text).2 <:+ text := by
  fun_induction blankWords text with
  | case1 text h => exact List.suffix_refl _
  | case2 text behind h hword => exact List.suffix_refl _
  | case3 text behind h words rest hmore hword ih =>
    rw [hmore] at ih
    exact ih.trans ((List.dropWhile_suffix _).trans (suffix_afterBlanks? h))

theorem suffix_typedName? (h : typedName? line = some (name, rest)) : rest <:+ line := by
  rw [typedName?_eq, Option.bind_eq_some_iff] at h
  obtain ⟨behind, htype, hname⟩ := h
  obtain ⟨name', -, heq⟩ := Option.map_eq_some_iff.1 hname
  rw [← (Prod.mk.inj heq).2]
  refine (List.dropWhile_suffix _).trans ((suffix_blankWords behind).trans ?_)
  exact (suffix_afterType? htype).trans (List.dropWhile_suffix _)

/-! ## Where declarations end -/

theorem plain?_ends (h : plain? line = some (name, rest)) : ';' :: rest <:+ line := by
  rw [plain?_eq, Option.bind_eq_some_iff] at h
  obtain ⟨found, hfound, hend⟩ := h
  rw [suffix_of_endedBy hend]
  exact suffix_typedName? hfound

theorem valued?_ends (h : valued? line = some (name, rest)) : ';' :: rest <:+ line := by
  rw [valued?_eq, Option.bind_eq_some_iff] at h
  obtain ⟨found, hfound, hvalue⟩ := h
  obtain ⟨value, hsign, hend⟩ := Option.bind_eq_some_iff.1 hvalue
  rw [valueEnd] at hend
  split_ifs at hend
  rw [suffix_of_endedBy hend]
  refine (List.dropWhile_suffix _).trans (List.IsSuffix.trans ?_ (suffix_typedName? hfound))
  rw [behindSign_eq_some.1 hsign]
  exact List.suffix_cons _ _

theorem endedName?_ends (h : endedName? text = some (name, rest)) : ';' :: rest <:+ text := by
  rw [endedName?_eq] at h
  split_ifs at h
  rw [suffix_of_endedBy h]
  exact (List.dropWhile_suffix _).trans (List.dropWhile_suffix _)

theorem mappedName?_ends (h : mappedName? text = some (name, rest)) : ';' :: rest <:+ text := by
  have hblank := List.dropWhile_suffix (l := text) isBlank
  rw [mappedName?, Option.or_eq_some_iff] at h
  rcases h with hvisible | ⟨-, hname⟩
  · split_ifs at hvisible
    obtain ⟨behind, hbehind, hname⟩ := Option.bind_eq_some_iff.1 hvisible
    refine (endedName?_ends hname).trans ((suffix_afterBlanks? hbehind).trans ?_)
    exact (List.dropWhile_suffix _).trans hblank
  · exact (endedName?_ends hname).trans hblank

theorem nameAfterParenthesis?_ends (h : nameAfterParenthesis? text = some (name, rest)) :
    ';' :: rest <:+ text := by
  induction text with
  | nil => exact absurd h.symm (Option.some_ne_none _)
  | cons c text ih =>
    rw [nameAfterParenthesis?] at h
    split_ifs at h
    · rcases Option.or_eq_some_iff.1 h with hname | ⟨-, hlater⟩
      · exact (mappedName?_ends hname).trans (List.suffix_cons _ _)
      · exact (ih hlater).trans (List.suffix_cons _ _)
    · exact (ih h).trans (List.suffix_cons _ _)

theorem mapping?_ends (h : mapping? line = some (name, rest)) : ';' :: rest <:+ line := by
  rw [mapping?_eq, Option.bind_eq_some_iff] at h
  obtain ⟨behind, hword, hname⟩ := h
  obtain ⟨inner, hsign, hinner⟩ := Option.bind_eq_some_iff.1 hname
  have hbehind : behind <:+ line := by
    refine List.IsSuffix.trans ?_ (List.dropWhile_suffix isIndent)
    rw [← List.isPrefixOf?_eq_some_iff_append_eq.1 hword]
    exact List.suffix_append _ _
  have hparenthesis : inner <:+ behind := by
    refine List.IsSuffix.trans ?_ (List.dropWhile_suffix isBlank)
    rw [behindSign_eq_some.1 hsign]
    exact List.suffix_cons _ _
  exact (nameAfterParenthesis?_ends hinner).trans (hparenthesis.trans hbehind)

/-! ## The search for declarations -/

section Search

variable {shape : List Char → Option (List Char × List Char)} {c : Char} {lineStart : Bool}

/-- The search goes on behind the next character where there is no declaration. -/
theorem declarationsFrom_of_none (h : lineStart = true → shape (c :: text) = none) :
    declarationsFrom shape lineStart 0 (c :: text) = declarationsFrom shape (c == '\n') 0 text := by
  cases lineStart with
  | false => rfl
  | true => simp only [declarationsFrom, if_true, h rfl]

/-- Behind a semicolon no line begins. -/
theorem declarationsFrom_skip (lineStart : Bool) (front rest : List Char) :
    declarationsFrom shape lineStart (front.length + 1) (front ++ ';' :: rest) =
      declarationsFrom shape false 0 rest := by
  induction front generalizing lineStart with
  | nil => rfl
  | cons c front ih => exact ih _

/-- A declaration is reported, and the search goes on behind its semicolon. -/
theorem declarationsFrom_of_some (h : shape (c :: text) = some (name, rest))
    (hends : ';' :: rest <:+ c :: text) : declarationsFrom shape true 0 (c :: text) =
      name :: declarationsFrom shape false 0 rest := by
  obtain ⟨front, hfront⟩ := hends
  simp only [declarationsFrom, if_true, h]
  cases front with
  | nil =>
    obtain ⟨rfl, rfl⟩ := List.cons.inj hfront
    rw [Nat.sub_self]
    rfl
  | cons d front =>
    obtain ⟨rfl, htext⟩ := List.cons.inj hfront
    have hskip : (front ++ ';' :: rest).length - rest.length = front.length + 1 := by
      rw [List.length_append, List.length_cons]
      omega
    rw [← htext]
    exact congrArg (name :: ·) ((congrArg (declarationsFrom shape _ · _) hskip).trans
      (declarationsFrom_skip _ front rest))

end Search

end PropertyIndex.Contract
