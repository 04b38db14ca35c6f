import Mathlib.Data.List.Basic
import PropertyIndex.Json.Printer
import PropertyIndex.Json.Token
import PropertyIndex.Proofs.Run

/-!
# The tokens of printed literals and numbers

A printed literal is read back by going through the characters of its text one by one: each is
written in a form that the reader takes for exactly that character.  A printed number is a run of
digits without a leading zero.

* `readPieces_escaped`, `readPieces_quoted`: reading back one character and a whole literal.
* `toDigits_head?`, `isNumber_toDigits`: printed numbers are numbers.
* `tokens_space`, `tokens_sign`, `tokens_quoted`, `tokens_scalar`: the first token of a text.
-/

namespace PropertyIndex.Json

open Text (hexDigit hexValue?)

/-! ## String literals -/

/-- The four digits of a control character name its code point. -/
theorem unit?_hexDigit {n : Nat} (h : n < 32) :
    unit? '0' '0' (hexDigit (n / 16)) (hexDigit (n % 16)) = some n := by
  have hhigh := Text.hexValue?_hexDigit (n / 16) (by omega)
  have hlow := Text.hexValue?_hexDigit (n % 16) (by omega)
  have hzero : hexValue? '0' = some 0 := rfl
  rw [unit?, hzero, hhigh, hlow]
  show some (((0 * 16 + 0) * 16 + n / 16) * 16 + n % 16) = some n
  congr 1
  omega

theorem readPieces_escape {c image : Char} (hunit : c ≠ 'u') (h : escape? c = some image)
    (rest : List Char) :
    readPieces ('\\' :: c :: rest) =
      (readPieces rest).map fun (pieces, behind) => (.char image :: pieces, behind) := by
  rw [readPieces.eq_4 c rest (by rintro _ _ _ _ _ rfl; exact absurd rfl hunit), h]
  cases readPieces rest <;> rfl

theorem readPieces_unit {a b c d : Char} {unit : Nat} (h : unit? a b c d = some unit)
    (rest : List Char) :
    readPieces ('\\' :: 'u' :: a :: b :: c :: d :: rest) =
      (readPieces rest).map fun (pieces, behind) => (.ofUnit unit :: pieces, behind) := by
  rw [readPieces, h]
  cases readPieces rest <;> rfl

theorem readPieces_plain {c : Char} (hquote : c ≠ '"') (hbackslash : c ≠ '\\')
    (hcontrol : ¬ c.toNat < 32) (rest : List Char) :
    readPieces (c :: rest) =
      (readPieces rest).map fun (pieces, behind) => (.char c :: pieces, behind) := by
  rw [readPieces.eq_5 c rest hquote (by rintro _ _ _ _ _ rfl; exact absurd rfl hbackslash)
    (by rintro _ _ rfl; exact absurd rfl hbackslash), if_neg hcontrol]
  cases readPieces rest <;> rfl

/-- A written character is read back as that character. -/
theorem readPieces_escaped (c : Char) (rest : List Char) :
    readPieces (escaped c ++ rest) =
      (readPieces rest).map fun (pieces, behind) => (.char c :: pieces, behind) := by
  -- The characters with an escape of their own come first, then the other control characters.
  by_cases hquote : c = '"'
  · subst hquote
    exact readPieces_escape (by decide) rfl rest
  by_cases hbackslash : c = '\\'
  · subst hbackslash
    exact readPieces_escape (by decide) rfl rest
  by_cases hfeed : c = '\n'
  · subst hfeed
    exact readPieces_escape (by decide) rfl rest
  by_cases hreturn : c = '\r'
  · subst hreturn
    exact readPieces_escape (by decide) rfl rest
  by_cases htab : c = '\t'
  · subst htab
    exact readPieces_escape (by decide) rfl rest
  by_cases hback : c = '\x08'
  · subst hback
    exact readPieces_escape (by decide) rfl rest
  by_cases hform : c = '\x0c'
  · subst hform
    exact readPieces_escape (by decide) rfl rest
  rw [escaped]
  simp only [beq_iff_eq, hquote, hbackslash, hfeed, hreturn, htab, hback, hform, if_false]
  by_cases hcontrol : c.toNat < 32
  · have hpiece : Piece.ofUnit c.toNat = .char c := by
      rw [Piece.ofUnit, if_neg (by simp; omega), Char.ofNat_toNat]
    rw [if_pos hcontrol, ← hpiece]
    exact readPieces_unit (unit?_hexDigit hcontrol) rest
  · rw [if_neg hcontrol]
    exact readPieces_plain hquote hbackslash hcontrol rest

/-- A written text is read back as its characters. -/
theorem readPieces_quoted (text rest : List Char) :
    readPieces (text.flatMap escaped ++ '"' :: rest) = some (text.map Piece.char, rest) := by
  induction text with
  | nil => rfl
  | cons c text ih =>
    rw [List.flatMap_cons, List.append_assoc, readPieces_escaped, ih]
    rfl

theorem joinPieces_map_char (text : List Char) : joinPieces (text.map Piece.char) = some text := by
  induction text with
  | nil => rfl
  | cons c text ih => rw [List.map_cons, joinPieces, ih, Option.map_some]

/-! ## Numbers -/

theorem digitChar_ne_zero {n : Nat} (h : n < 10) (hpos : 0 < n) : n.digitChar ≠ '0' := by
  intro heq
  have hvalue := Nat.toNat_digitChar_sub_48_of_lt_ten h
  rw [heq] at hvalue
  exact absurd hvalue (by simpa using (Nat.ne_of_gt hpos).symm)

/-- The digits of a positive number do not begin with a zero. -/
theorem toDigits_head? {n : Nat} (hpos : 0 < n) : (Nat.toDigits 10 n).head? ≠ some '0' := by
  induction n using Nat.strongRecOn with
  | ind n ih =>
    by_cases h : n < 10
    · rw [Nat.toDigits_of_lt_base h, List.head?_cons]
      exact fun heq => digitChar_ne_zero h hpos (Option.some.inj heq)
    · rw [Nat.toDigits_of_base_le (by decide) (by omega),
        List.head?_append_of_ne_nil _ Nat.toDigits_ne_nil]
      exact ih (n / 10) (by omega) (by omega)

theorem isDigit_of_mem_toDigits {n : Nat} : ∀ c ∈ Nat.toDigits 10 n, c.isDigit = true :=
  fun _ => Nat.isDigit_of_mem_toDigits (by decide) (by decide)

/-- The digits of a number are a number. -/
theorem isNumber_toDigits (n : Nat) : isNumber (Nat.toDigits 10 n) = true := by
  have hsign : ¬ (Nat.toDigits 10 n).head? = some '-' := fun h =>
    absurd (isDigit_of_mem_toDigits '-' (List.mem_of_mem_head? h)) (by decide)
  have hwhole : isWholePart (Nat.toDigits 10 n) = true := by
    rcases Nat.eq_zero_or_pos n with rfl | hpos
    · rfl
    · simp [isWholePart, Nat.toDigits_ne_nil, toDigits_head? hpos]
  simp only [isNumber, beq_iff_eq, hsign, if_false,
    List.takeWhile_eq_self_iff.2 isDigit_of_mem_toDigits,
    List.dropWhile_eq_nil_iff.2 isDigit_of_mem_toDigits, hwhole]
  rfl

/-! ## The first token of a text -/

theorem tokens_space {c : Char} (h : isSpace c = true) (rest : List Char) :
    tokens (c :: rest) = tokens rest := by
  rw [tokens, if_pos h]

/-- A new line has no token. -/
theorem tokens_newLine (level : Nat) (rest : List Char) :
    tokens (newLine level ++ rest) = tokens rest := by
  rw [newLine, List.cons_append, tokens_space rfl]
  induction 2 * level with
  | zero => rfl
  | succ n ih => rw [List.replicate_succ, List.cons_append, tokens_space rfl, ih]

/-- A sign is a token of its own. -/
theorem tokens_sign {c : Char} {sign : Token} (hspace : isSpace c = false) (hquote : c ≠ '"')
    (hsign : Token.ofSign? c = some sign) (rest : List Char) :
    tokens (c :: rest) = (tokens rest).map (sign :: ·) := by
  rw [tokens, if_neg (by simp [hspace]), if_neg (by simpa using hquote), hsign]

theorem quoted_append (text : String) (rest : List Char) :
    quoted (some text) ++ rest = '"' :: (text.toList.flatMap escaped ++ '"' :: rest) := by
  show '"' :: text.toList.flatMap escaped ++ ['"'] ++ rest = _
  rw [List.append_assoc, List.cons_append, List.singleton_append]

/-- A printed text is one token. -/
theorem tokens_quoted (text : String) (rest : List Char) :
    tokens (quoted (some text) ++ rest) = (tokens rest).map (.string (some text) :: ·) := by
  have hread := readPieces_quoted text.toList rest
  rw [quoted_append, tokens, if_neg (by decide), if_pos (by decide)]
  split
  · next h => exact absurd (h.symm.trans hread) (by simp)
  · next pieces behind h =>
    obtain ⟨rfl, rfl⟩ := Prod.mk.inj (Option.some.inj (h.symm.trans hread))
    rw [joinPieces_map_char, Option.map_some, String.ofList_toList]

/-- A run of scalar characters that is a token is read as that token. -/
theorem tokens_scalar {run rest : List Char} {scalar : Token} (hne : run ≠ [])
    (hrun : ∀ c ∈ run, isScalarChar c = true) (hrest : rest.head?.any isScalarChar = false)
    (hscalar : Token.ofScalar? run = some scalar) :
    tokens (run ++ rest) = (tokens rest).map (scalar :: ·) := by
  obtain ⟨c, run, rfl⟩ := List.exists_cons_of_ne_nil hne
  have hc : isScalarChar c = true := hrun c List.mem_cons_self
  have hrun' : ∀ c ∈ run, isScalarChar c = true := fun x hx => hrun x (List.mem_cons_of_mem _ hx)
  have hother : ∀ x : Char, isScalarChar x = false → c ≠ x := by
    rintro x hx rfl
    exact absurd hc (by simp [hx])
  have hspace : ¬ isSpace c = true := by
    simp [isSpace, hother ' ' rfl, hother '\t' rfl, hother '\n' rfl, hother '\r' rfl]
  have hsign : Token.ofSign? c = none := by
    simp [Token.ofSign?, hother '[' rfl, hother ']' rfl, hother '\x7b' rfl, hother '\x7d' rfl,
      hother ',' rfl, hother ':' rfl]
  rw [List.cons_append, tokens, if_neg hspace, if_neg (by simpa using hother '"' rfl), hsign]
  show (do
    let scalar ← Token.ofScalar? (c :: (run ++ rest).takeWhile isScalarChar)
    let behind ← tokens ((run ++ rest).dropWhile isScalarChar)
    return scalar :: behind) = _
  rw [takeWhile_run hrun' hrest, dropWhile_run hrun' hrest, hscalar]
  cases tokens rest <;> rfl

end PropertyIndex.Json
