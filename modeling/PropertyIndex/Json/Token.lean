import PropertyIndex.Json.Value
import PropertyIndex.Text.Hex

/-!
# Tokens of a JSON text

* `Token`: the signs, words, numbers and string literals of a text.
* `readPieces`, `joinPieces`: a string literal, first as characters and halves of surrogate pairs
  and then as a text.
* `isNumber`: the grammar of numbers.
* `tokens`: the tokens of a text.
-/

namespace PropertyIndex.Json

open Text (hexValue?)

/-- A token of a JSON text. -/
inductive Token where
  | openArray
  | closeArray
  | openObject
  | closeObject
  | comma
  | colon
  | null
  | bool (value : Bool)
  | number (spelling : String)
  | string (literal : Literal)
  deriving DecidableEq, Repr

/-! ## String literals -/

/-- A part of a string literal: a character, or half of a surrogate pair from an escape. -/
inductive Piece where
  | char (c : Char)
  | half (unit : Nat)
  deriving DecidableEq, Repr

/-- The part that a code unit of UTF-16 stands for. -/
def Piece.ofUnit (unit : Nat) : Piece :=
  if 0xD800 ≤ unit && unit < 0xE000 then half unit else char (Char.ofNat unit)

/-- The value of four hexadecimal digits. -/
def unit? (a b c d : Char) : Option Nat := do
  let a ← hexValue? a
  let b ← hexValue? b
  let c ← hexValue? c
  let d ← hexValue? d
  return ((a * 16 + b) * 16 + c) * 16 + d

/-- The character that a backslash and a character stand for. -/
def escape? (c : Char) : Option Char :=
  match c with
  | '"' => some '"'
  | '\\' => some '\\'
  | '/' => some '/'
  | 'b' => some '\x08'
  | 'f' => some '\x0c'
  | 'n' => some '\n'
  | 'r' => some '\r'
  | 't' => some '\t'
  | _ => none

/-- The parts of a string literal whose opening quote has been read, and what follows its closing
quote.  Control characters have to be escaped. -/
def readPieces : List Char → Option (List Piece × List Char)
  | [] => none
  | '"' :: text => some ([], text)
  | '\\' :: 'u' :: a :: b :: c :: d :: text => do
    let unit ← unit? a b c d
    let (pieces, rest) ← readPieces text
    return (.ofUnit unit :: pieces, rest)
  | '\\' :: c :: text => do
    let c ← escape? c
    let (pieces, rest) ← readPieces text
    return (.char c :: pieces, rest)
  | c :: text =>
    if c.toNat < 32 then none
    else do
      let (pieces, rest) ← readPieces text
      return (.char c :: pieces, rest)

/-- What follows a string literal is shorter than the literal with what follows it. -/
theorem length_lt_of_readPieces {text rest : List Char} {pieces : List Piece}
    (h : readPieces text = some (pieces, rest)) : rest.length < text.length := by
  fun_induction readPieces text generalizing pieces rest with
  | case1 => simp at h
  | case2 text =>
    simp only [Option.some.injEq, Prod.mk.injEq] at h
    rw [← h.2, List.length_cons]
    omega
  | case3 a b c d text ih =>
    simp only [Option.pure_def, Option.bind_eq_bind, Option.bind_eq_some_iff] at h
    obtain ⟨_, _, ⟨_, behind⟩, hread, hpair⟩ := h
    have := ih hread
    simp only [Option.some.injEq, Prod.mk.injEq] at hpair
    simp only [List.length_cons, ← hpair.2]
    omega
  | case4 c text _ ih =>
    simp only [Option.pure_def, Option.bind_eq_bind, Option.bind_eq_some_iff] at h
    obtain ⟨_, _, ⟨_, behind⟩, hread, hpair⟩ := h
    have := ih hread
    simp only [Option.some.injEq, Prod.mk.injEq] at hpair
    simp only [List.length_cons, ← hpair.2]
    omega
  | case5 => simp at h
  | case6 c text _ _ _ _ ih =>
    simp only [Option.pure_def, Option.bind_eq_bind, Option.bind_eq_some_iff] at h
    obtain ⟨⟨_, behind⟩, hread, hpair⟩ := h
    have := ih hread
    simp only [Option.some.injEq, Prod.mk.injEq] at hpair
    simp only [List.length_cons, ← hpair.2]
    omega

/-- The text of a string literal, where two halves of a surrogate pair make one character. -/
def joinPieces : List Piece → Option (List Char)
  | [] => some []
  | .char c :: pieces => (joinPieces pieces).map (c :: ·)
  | .half high :: .half low :: pieces =>
    if high < 0xDC00 && 0xDC00 ≤ low then
      (joinPieces pieces).map
        (Char.ofNat (0x10000 + (high - 0xD800) * 0x400 + (low - 0xDC00)) :: ·)
    else none
  | .half _ :: _ => none

/-! ## Numbers and words -/

/-- Whether digits spell the whole part of a number: there is one, and a zero stands alone. -/
def isWholePart (digits : List Char) : Bool :=
  !digits.isEmpty && (digits.head? != some '0' || digits.length == 1)

/-- Whether a text is empty or an exponent. -/
def isExponent : List Char → Bool
  | [] => true
  | e :: text =>
    let digits := if text.head? == some '+' || text.head? == some '-' then text.tail else text
    (e == 'e' || e == 'E') && !digits.isEmpty && digits.all Char.isDigit

/-- Whether a text is a fraction with an exponent, both of which may be missing. -/
def isFraction : List Char → Bool
  | '.' :: text =>
    !(text.takeWhile Char.isDigit).isEmpty && isExponent (text.dropWhile Char.isDigit)
  | text => isExponent text

/-- Whether a text is a number. -/
def isNumber (text : List Char) : Bool :=
  let unsigned := if text.head? == some '-' then text.tail else text
  isWholePart (unsigned.takeWhile Char.isDigit) && isFraction (unsigned.dropWhile Char.isDigit)

/-- A character of which numbers and words consist. -/
def isScalarChar (c : Char) : Bool :=
  c.isAlphanum || c == '+' || c == '-' || c == '.'

/-- The token that a run of such characters is. -/
def Token.ofScalar? (run : List Char) : Option Token :=
  if run == "null".toList then some .null
  else if run == "true".toList then some (.bool true)
  else if run == "false".toList then some (.bool false)
  else if isNumber run then some (.number (String.ofList run))
  else none

/-! ## Tokens -/

/-- The white space of JSON. -/
def isSpace (c : Char) : Bool :=
  c == ' ' || c == '\t' || c == '\n' || c == '\r'

/-- The token that a single sign is. -/
def Token.ofSign? (c : Char) : Option Token :=
  if c == '[' then some .openArray
  else if c == ']' then some .closeArray
  else if c == '\x7b' then some .openObject
  else if c == '\x7d' then some .closeObject
  else if c == ',' then some .comma
  else if c == ':' then some .colon
  else none

/-- The tokens of a text. -/
def tokens : List Char → Option (List Token)
  | [] => some []
  | c :: text =>
    if isSpace c then tokens text
    else if c == '"' then
      match _h : readPieces text with
      | none => none
      | some (pieces, rest) =>
        (tokens rest).map (.string ((joinPieces pieces).map String.ofList) :: ·)
    else
      match Token.ofSign? c with
      | some sign => (tokens text).map (sign :: ·)
      | none => do
        let scalar ← Token.ofScalar? (c :: text.takeWhile isScalarChar)
        let behind ← tokens (text.dropWhile isScalarChar)
        return scalar :: behind
termination_by text => text.length
decreasing_by
  · exact Nat.lt_succ_self _
  · exact Nat.lt_succ_of_lt (length_lt_of_readPieces ‹_›)
  · exact Nat.lt_succ_self _
  · exact Nat.lt_succ_of_le (List.dropWhile_sublist _).length_le

end PropertyIndex.Json
