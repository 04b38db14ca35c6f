import PropertyIndex.Json.Reader
import PropertyIndex.Proofs.JsonToken

/-!
# Printed values are read back

Between a printed text and the value stands the list of tokens that the value is spelled with.  The
layout puts only white space between them, and the reading of the tokens, whatever containers are
open around the value, leaves it as a finished value in the innermost one.

* `tokensOf`: the tokens that spell a value.
* `IsPlain`: the values whose literals are texts and whose numbers are digits.
* `tokens_prettyAt`: the tokens of the indented layout.
* `foldlM_step_tokensOf`: the effect of the tokens of a value.
* `read?_pretty`: a printed value is read back.
-/

namespace PropertyIndex.Json

/-! ## The tokens of a value -/

mutual

/-- The tokens that spell a value. -/
def tokensOf : Json → List Token
  | null => [.null]
  | bool b => [.bool b]
  | number spelling => [.number spelling]
  | string literal => [.string literal]
  | array [] => [.openArray, .closeArray]
  | array (item :: items) =>
    .openArray :: (tokensOf item ++ (tokensOfItems items ++ [.closeArray]))
  | object [] => [.openObject, .closeObject]
  | object ((key, value) :: members) =>
    .openObject :: .string key :: .colon ::
      (tokensOf value ++ (tokensOfMembers members ++ [.closeObject]))

/-- The tokens of the items behind the first one of an array. -/
def tokensOfItems : List Json → List Token
  | [] => []
  | item :: items => .comma :: (tokensOf item ++ tokensOfItems items)

/-- The tokens of the members behind the first one of an object. -/
def tokensOfMembers : List (Literal × Json) → List Token
  | [] => []
  | (key, value) :: members =>
    .comma :: .string key :: .colon :: (tokensOf value ++ tokensOfMembers members)

end

mutual

/-- Whether each literal of a value is a text and each number the digits of a natural number. -/
def IsPlain : Json → Prop
  | number spelling => ∃ n : Nat, spelling = toString n
  | string literal => literal.isSome = true
  | array items => ArePlainItems items
  | object members => ArePlainMembers members
  | _ => True

/-- Whether all items are plain. -/
def ArePlainItems : List Json → Prop
  | [] => True
  | item :: items => IsPlain item ∧ ArePlainItems items

/-- Whether all keys and values are plain. -/
def ArePlainMembers : List (Literal × Json) → Prop
  | [] => True
  | (key, value) :: members => key.isSome = true ∧ IsPlain value ∧ ArePlainMembers members

end

/-! ## From text to tokens -/

/-- A text before which a scalar ends. -/
def EndsScalar (rest : List Char) : Prop :=
  rest.head?.any isScalarChar = false

theorem endsScalar_newLine (level : Nat) (rest : List Char) :
    EndsScalar (newLine level ++ rest) :=
  rfl

theorem tokens_comma (rest : List Char) : tokens (',' :: rest) = (tokens rest).map (.comma :: ·) :=
  tokens_sign rfl (by decide) rfl rest

/-- A key with the sign behind it is two tokens. -/
theorem tokens_key (key : String) (rest : List Char) :
    tokens (quoted (some key) ++ (": ".toList ++ rest)) =
      (tokens rest).map fun behind => .string (some key) :: .colon :: behind := by
  have hcolon : tokens (": ".toList ++ rest) = (tokens rest).map (.colon :: ·) := by
    show tokens (':' :: ' ' :: rest) = _
    rw [tokens_sign rfl (by decide) rfl, tokens_space rfl]
  rw [tokens_quoted, hcolon, Option.map_map]
  rfl

/-- The digits of a number are one token. -/
theorem tokens_number (n : Nat) {rest : List Char} (hrest : EndsScalar rest) :
    tokens ((toString n).toList ++ rest) =
      (tokens rest).map (.number (toString n) :: ·) := by
  rw [Nat.toString_eq_ofList_toDigits, String.toList_ofList]
  refine tokens_scalar Nat.toDigits_ne_nil (fun c hc => ?_) hrest ?_
  · simp [isScalarChar, Char.isAlphanum, isDigit_of_mem_toDigits c hc]
  · have hword : ∀ {word : List Char}, word.head?.all Char.isDigit = false →
        ¬ Nat.toDigits 10 n = word := by
      rintro _ hfirst rfl
      obtain ⟨c, digits, hdigits⟩ := List.exists_cons_of_ne_nil (Nat.toDigits_ne_nil (n := n))
      have hc : c.isDigit = true := isDigit_of_mem_toDigits c (hdigits ▸ List.mem_cons_self)
      rw [hdigits] at hfirst
      exact absurd hc (Bool.eq_false_iff.1 hfirst)
    rw [Token.ofScalar?]
    simp only [beq_iff_eq]
    rw [if_neg (hword rfl), if_neg (hword rfl), if_neg (hword rfl), if_pos (isNumber_toDigits n)]

/-- A word is one token. -/
theorem tokens_word {word : List Char} {scalar : Token} {rest : List Char}
    (hword : (!word.isEmpty && word.all isScalarChar) = true)
    (hscalar : Token.ofScalar? word = some scalar) (hrest : EndsScalar rest) :
    tokens (word ++ rest) = (tokens rest).map (scalar :: ·) := by
  rw [Bool.and_eq_true, Bool.not_eq_true', List.isEmpty_eq_false_iff, List.all_eq_true] at hword
  exact tokens_scalar hword.1 hword.2 hrest hscalar

mutual

/-- The indented layout of a value has the tokens of the value. -/
theorem tokens_prettyAt (level : Nat) : ∀ (value : Json) {rest : List Char}, IsPlain value →
    EndsScalar rest →
    tokens (prettyAt level value ++ rest) = (tokens rest).map (tokensOf value ++ ·)
  | null, rest, _, hrest => tokens_word rfl rfl hrest
  | bool true, rest, _, hrest => tokens_word rfl rfl hrest
  | bool false, rest, _, hrest => tokens_word rfl rfl hrest
  | number spelling, rest, hplain, hrest => by
    obtain ⟨n, rfl⟩ := hplain
    exact tokens_number n hrest
  | string literal, rest, hplain, hrest => by
    obtain ⟨text, rfl⟩ := Option.isSome_iff_exists.1 hplain
    exact tokens_quoted text rest
  | array [], rest, _, _ => by
    show tokens ('[' :: ']' :: rest) = _
    rw [tokens_sign rfl (by decide) rfl, tokens_sign rfl (by decide) rfl, Option.map_map]
    rfl
  | array (item :: items), rest, hplain, _ => by
    have hopen : prettyAt level (array (item :: items)) ++ rest =
        '[' :: (newLine (level + 1) ++ (prettyAt (level + 1) item ++
          (prettyItems (level + 1) items ++ (newLine level ++ ']' :: rest)))) := by
      simp [prettyAt]
    have hends : EndsScalar (prettyItems (level + 1) items ++ (newLine level ++ ']' :: rest)) := by
      cases items <;> rfl
    rw [hopen, tokens_sign rfl (by decide) rfl, tokens_newLine,
      tokens_prettyAt (level + 1) item hplain.1 hends,
      tokens_prettyItems (level + 1) items hplain.2 (endsScalar_newLine level _),
      tokens_newLine, tokens_sign rfl (by decide) rfl]
    simp only [Option.map_map, tokensOf]
    congr 1
    funext behind
    simp
  | object [], rest, _, _ => by
    show tokens ('\x7b' :: '\x7d' :: rest) = _
    rw [tokens_sign rfl (by decide) rfl, tokens_sign rfl (by decide) rfl, Option.map_map]
    rfl
  | object ((key, value) :: members), rest, hplain, _ => by
    obtain ⟨name, rfl⟩ := Option.isSome_iff_exists.1 hplain.1
    have hopen : prettyAt level (object ((some name, value) :: members)) ++ rest =
        '\x7b' :: (newLine (level + 1) ++ (quoted (some name) ++ (": ".toList ++
          (prettyAt (level + 1) value ++ (prettyMembers (level + 1) members ++
            (newLine level ++ '\x7d' :: rest)))))) := by
      simp [prettyAt]
    have hends :
        EndsScalar (prettyMembers (level + 1) members ++ (newLine level ++ '\x7d' :: rest)) := by
      rcases members with _ | ⟨⟨_, _⟩, _⟩ <;> rfl
    rw [hopen, tokens_sign rfl (by decide) rfl, tokens_newLine, tokens_key,
      tokens_prettyAt (level + 1) value hplain.2.1 hends,
      tokens_prettyMembers (level + 1) members hplain.2.2 (endsScalar_newLine level _),
      tokens_newLine, tokens_sign rfl (by decide) rfl]
    simp only [Option.map_map, tokensOf]
    congr 1
    funext behind
    simp

theorem tokens_prettyItems (level : Nat) : ∀ (items : List Json) {rest : List Char},
    ArePlainItems items → EndsScalar rest →
    tokens (prettyItems level items ++ rest) = (tokens rest).map (tokensOfItems items ++ ·)
  | [], rest, _, _ => Option.map_id'.symm
  | item :: items, rest, hplain, hrest => by
    have hcomma : prettyItems level (item :: items) ++ rest =
        ',' :: (newLine level ++ (prettyAt level item ++ (prettyItems level items ++ rest))) := by
      simp [prettyItems]
    have hends : EndsScalar (prettyItems level items ++ rest) := by
      cases items with
      | nil => exact hrest
      | cons => rfl
    rw [hcomma, tokens_comma, tokens_newLine, tokens_prettyAt level item hplain.1 hends,
      tokens_prettyItems level items hplain.2 hrest]
    simp only [Option.map_map, tokensOfItems]
    congr 1
    funext behind
    simp

theorem tokens_prettyMembers (level : Nat) : ∀ (members : List (Literal × Json))
    {rest : List Char}, ArePlainMembers members → EndsScalar rest →
    tokens (prettyMembers level members ++ rest) = (tokens rest).map (tokensOfMembers members ++ ·)
  | [], rest, _, _ => Option.map_id'.symm
  | (key, value) :: members, rest, hplain, hrest => by
    obtain ⟨name, rfl⟩ := Option.isSome_iff_exists.1 hplain.1
    have hcomma : prettyMembers level ((some name, value) :: members) ++ rest =
        ',' :: (newLine level ++ (quoted (some name) ++ (": ".toList ++
          (prettyAt level value ++ (prettyMembers level members ++ rest))))) := by
      simp [prettyMembers]
    have hends : EndsScalar (prettyMembers level members ++ rest) := by
      cases members with
      | nil => exact hrest
      | cons => rfl
    rw [hcomma, tokens_comma, tokens_newLine, tokens_key,
      tokens_prettyAt level value hplain.2.1 hends,
      tokens_prettyMembers level members hplain.2.2 hrest]
    simp only [Option.map_map, tokensOfMembers]
    congr 1
    funext behind
    simp

end

/-! ## From tokens to the value -/

open Reading (step)

/-- The tokens of a value do not close an array. -/
theorem foldlM_firstItem (stack : List Frame) (item : Json) (rest : List Token) :
    (tokensOf item ++ rest).foldlM step (.firstItem stack) =
      (tokensOf item ++ rest).foldlM step (.needValue (.array [] :: stack)) := by
  rcases item with _ | _ | _ | _ | (_ | _) | (_ | ⟨_, _⟩) <;> rfl

mutual

/-- Where a value has to come, its tokens leave it finished. -/
theorem foldlM_step_tokensOf : ∀ (value : Json) (stack : List Frame) (rest : List Token),
    (tokensOf value ++ rest).foldlM step (.needValue stack) =
      rest.foldlM step (.finished stack value)
  | null, stack, rest => rfl
  | bool b, stack, rest => rfl
  | number spelling, stack, rest => rfl
  | string literal, stack, rest => rfl
  | array [], stack, rest => rfl
  | array (item :: items), stack, rest => by
    show (tokensOf item ++ (tokensOfItems items ++ [Token.closeArray]) ++ rest).foldlM step
      (.firstItem stack) = _
    rw [List.append_assoc, List.append_assoc, foldlM_firstItem, foldlM_step_tokensOf item,
      List.singleton_append, foldlM_step_tokensOfItems items item [] stack rest]
    rfl
  | object [], stack, rest => rfl
  | object ((key, value) :: members), stack, rest => by
    show (tokensOf value ++ (tokensOfMembers members ++ [Token.closeObject]) ++ rest).foldlM step
      (.needValue (.object [] key :: stack)) = _
    rw [List.append_assoc, List.append_assoc, foldlM_step_tokensOf value,
      List.singleton_append, foldlM_step_tokensOfMembers members key value [] stack rest]
    rfl

/-- Behind an item, the other items and the end of the array leave the array finished. -/
theorem foldlM_step_tokensOfItems : ∀ (items : List Json) (item : Json) (held : List Json)
    (stack : List Frame) (rest : List Token),
    (tokensOfItems items ++ .closeArray :: rest).foldlM step
        (.finished (.array held :: stack) item) =
      rest.foldlM step (.finished stack (.array ((item :: held).reverse ++ items)))
  | [], item, held, stack, rest => by
    rw [List.append_nil]
    rfl
  | next :: items, item, held, stack, rest => by
    show ((tokensOf next ++ tokensOfItems items) ++ .closeArray :: rest).foldlM step
      (.needValue (.array (item :: held) :: stack)) = _
    rw [List.append_assoc, foldlM_step_tokensOf next,
      foldlM_step_tokensOfItems items next (item :: held) stack rest, List.reverse_cons,
      List.append_assoc, List.singleton_append]

/-- Behind a member, the other members and the end of the object leave the object finished. -/
theorem foldlM_step_tokensOfMembers : ∀ (members : List (Literal × Json)) (key : Literal)
    (value : Json) (held : List (Literal × Json)) (stack : List Frame) (rest : List Token),
    (tokensOfMembers members ++ .closeObject :: rest).foldlM step
        (.finished (.object held key :: stack) value) =
      rest.foldlM step (.finished stack (.object (((key, value) :: held).reverse ++ members)))
  | [], key, value, held, stack, rest => by
    rw [List.append_nil]
    rfl
  | (name, next) :: members, key, value, held, stack, rest => by
    show ((tokensOf next ++ tokensOfMembers members) ++ .closeObject :: rest).foldlM step
      (.needValue (.object ((key, value) :: held) name :: stack)) = _
    rw [List.append_assoc, foldlM_step_tokensOf next,
      foldlM_step_tokensOfMembers members name next ((key, value) :: held) stack rest,
      List.reverse_cons, List.append_assoc, List.singleton_append]

end

/-- The tokens of a value spell the value. -/
theorem ofTokens?_tokensOf (value : Json) : ofTokens? (tokensOf value) = some value := by
  have hfold := foldlM_step_tokensOf value [] []
  rw [List.append_nil] at hfold
  rw [ofTokens?, hfold]
  rfl

/-- A plain value is read back from its indented layout. -/
theorem read?_pretty {value : Json} (h : IsPlain value) : read? value.pretty = some value := by
  have htokens := @tokens_prettyAt 0 value [] h rfl
  rw [List.append_nil, tokens, Option.map_some, List.append_nil] at htokens
  rw [read?, pretty, htokens, Option.bind_some, ofTokens?_tokensOf]

end PropertyIndex.Json
