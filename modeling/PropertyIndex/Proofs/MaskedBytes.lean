import PropertyIndex.Proofs.Masking
import PropertyIndex.Proofs.Run
import PropertyIndex.Proofs.Utf8
import PropertyIndex.Source.ByteMask

/-!
# The masked bytes are those of the masked copy

All the signs that the reading looks for are single bytes that no longer character has, so masking
the bytes of a text gives the bytes of its masked copy.

* `IsReached`: the regions that a reading comes into.
* `maskBytesFrom_code`, `maskBytesFrom_literal`, `maskBytesFrom_line`, `maskBytesFrom_block`: bytes
  that are no signs.
* `maskBytesFrom_encoded`: the bytes of the masked copy.
* `Shows`, `shows_maskBytesFrom`, `IsFree`, `isChain_maskBytesFrom`: what masking makes of any
  bytes.
* `maskedText_frame`: the masked text keeps the frame of its text.
-/

namespace PropertyIndex.Source

open Text

/-! ## Bytes that are no signs -/

section Runs

variable {bytes rest : List UInt8}

theorem maskBytesFrom_code (h : ∀ b ∈ bytes, b ≠ 0x2F ∧ b ≠ 0x22 ∧ b ≠ 0x27) :
    maskBytesFrom .code (bytes ++ rest) = bytes ++ maskBytesFrom .code rest := by
  induction bytes with
  | nil => rfl
  | cons b bytes ih =>
    obtain ⟨⟨hslash, hdouble, hsingle⟩, hbytes⟩ := List.forall_mem_cons.1 h
    rw [List.cons_append, maskBytesFrom, if_neg (by simpa using hdouble),
      if_neg (by simpa using hsingle), ih hbytes, List.cons_append]
    all_goals exact fun _ hb => absurd hb hslash

theorem maskBytesFrom_literal {quote : Char}
    (h : ∀ b ∈ bytes, b ≠ quote.toUInt8 ∧ b ≠ 0x0A ∧ b ≠ 0x5C) :
    maskBytesFrom (.literal quote) (bytes ++ rest) =
      bytes.map blankByte ++ maskBytesFrom (.literal quote) rest := by
  induction bytes with
  | nil => rfl
  | cons b bytes ih =>
    obtain ⟨⟨hquote, hfeed, hslash⟩, hbytes⟩ := List.forall_mem_cons.1 h
    have hblank : blankByte b = 0x20 := if_neg (by simpa using hfeed)
    rw [List.cons_append, maskBytesFrom, if_neg (by simp [hquote, hfeed]),
      if_neg (by simpa using hslash), ih hbytes, List.map_cons, hblank, List.cons_append]

theorem maskBytesFrom_line (h : ∀ b ∈ bytes, b ≠ 0x0A) :
    maskBytesFrom .lineComment (bytes ++ rest) =
      bytes.map blankByte ++ maskBytesFrom .lineComment rest := by
  induction bytes with
  | nil => rfl
  | cons b bytes ih =>
    obtain ⟨hfeed, hbytes⟩ := List.forall_mem_cons.1 h
    have hblank : blankByte b = 0x20 := if_neg (by simpa using hfeed)
    rw [List.cons_append, maskBytesFrom, if_neg (by simpa using hfeed), ih hbytes, List.map_cons,
      hblank, List.cons_append]

theorem maskBytesFrom_block (h : ∀ b ∈ bytes, b ≠ 0x2A) :
    maskBytesFrom .blockComment (bytes ++ rest) =
      bytes.map blankByte ++ maskBytesFrom .blockComment rest := by
  induction bytes with
  | nil => rfl
  | cons b bytes ih =>
    obtain ⟨hstar, hbytes⟩ := List.forall_mem_cons.1 h
    rw [List.cons_append, maskBytesFrom, ih hbytes, List.map_cons, List.cons_append]
    exact fun _ hb => absurd hb hstar

end Runs

/-! ## The bytes of the masked copy -/

/-- A region that a reading comes into: only two signs open string literals. -/
def IsReached : Region → Prop
  | .literal quote => quote = '"' ∨ quote = '\''
  | .escaped quote => quote = '"' ∨ quote = '\''
  | _ => True

/-- The byte of a sign is none of another character. -/
theorem ne_of_mem_utf8EncodeChar (sign : Char) {c : Char} {b : UInt8} (hsign : sign.toNat < 128)
    (hne : c ≠ sign) (hb : b ∈ String.utf8EncodeChar c) : b ≠ sign.toUInt8 := by
  rintro rfl
  exact hne ((mem_utf8EncodeChar_iff hsign).1 hb)

section Characters

variable {c quote : Char} {rest : List UInt8}

/-- The bytes of a character of the code stay, and a quote opens a string literal. -/
theorem maskBytesFrom_code_char (hline : ∀ more, c = '/' → rest = 0x2F :: more → False)
    (hblock : ∀ more, c = '/' → rest = 0x2A :: more → False) :
    maskBytesFrom .code (String.utf8EncodeChar c ++ rest) = String.utf8EncodeChar c ++
      maskBytesFrom (if c == '"' || c == '\'' then .literal c else .code) rest := by
  by_cases hdouble : c = '"'
  · subst hdouble
    rfl
  by_cases hsingle : c = '\''
  · subst hsingle
    rfl
  rw [if_neg (by simp [hdouble, hsingle])]
  by_cases hslash : c = '/'
  · subst hslash
    show maskBytesFrom .code (0x2F :: rest) = 0x2F :: maskBytesFrom .code rest
    rw [maskBytesFrom]
    · rfl
    · exact fun more _ h => hline more rfl h
    · exact fun more _ h => hblock more rfl h
  · exact maskBytesFrom_code fun b hb => ⟨ne_of_mem_utf8EncodeChar '/' (by decide) hslash hb,
      ne_of_mem_utf8EncodeChar '"' (by decide) hdouble hb,
      ne_of_mem_utf8EncodeChar '\'' (by decide) hsingle hb⟩

theorem IsReached.lt (h : IsReached (.literal quote)) : quote.toNat < 128 := by
  rcases h with rfl | rfl <;> decide

/-- The bytes inside a string literal are blanked. -/
theorem maskBytesFrom_literal_char (hquote : IsReached (.literal quote))
    (hends : ¬(c == quote || c == '\n') = true) :
    maskBytesFrom (.literal quote) (String.utf8EncodeChar c ++ rest) =
      (String.utf8EncodeChar c).map blankByte ++
        maskBytesFrom (if c == '\\' then .escaped quote else .literal quote) rest := by
  simp only [Bool.or_eq_true, beq_iff_eq, not_or] at hends
  obtain ⟨hne, hfeed⟩ := hends
  by_cases hslash : c = '\\'
  · subst hslash
    rcases hquote with rfl | rfl <;> rfl
  · rw [if_neg (by simpa using hslash)]
    exact maskBytesFrom_literal fun b hb => ⟨ne_of_mem_utf8EncodeChar quote hquote.lt hne hb,
      ne_of_mem_utf8EncodeChar '\n' (by decide) hfeed hb,
      ne_of_mem_utf8EncodeChar '\\' (by decide) hslash hb⟩

/-- Behind a backslash one byte is passed over, and what is left of a longer character is blanked
with the rest of the literal. -/
theorem maskBytesFrom_escaped_char (hquote : IsReached (.literal quote)) :
    maskBytesFrom (.escaped quote) (String.utf8EncodeChar c ++ rest) =
      (String.utf8EncodeChar c).map blankByte ++ maskBytesFrom (.literal quote) rest := by
  obtain ⟨b, more, hbytes⟩ := List.exists_cons_of_ne_nil (@String.utf8EncodeChar_ne_nil c)
  have hhigh : ∀ b ∈ more, 128 ≤ b.toNat := fun b hb => le_toNat_of_mem (.inr (by
    rw [hbytes]
    exact hb))
  have hmore : maskBytesFrom (.literal quote) (more ++ rest) =
      more.map blankByte ++ maskBytesFrom (.literal quote) rest := by
    refine maskBytesFrom_literal fun b hb => ?_
    have hb := hhigh b hb
    have hlow : quote.toUInt8.toNat < 128 := by
      rw [toNat_toUInt8 hquote.lt]
      exact hquote.lt
    refine ⟨?_, ?_, ?_⟩
    · rintro rfl
      omega
    all_goals
      rintro rfl
      exact absurd hb (by decide)
  rw [hbytes, List.cons_append, maskBytesFrom, hmore, List.map_cons, List.cons_append]

/-- The bytes of a block comment are blanked, if they do not close it. -/
theorem maskBytesFrom_block_char (hopen : ∀ more, c = '*' → rest = 0x2F :: more → False) :
    maskBytesFrom .blockComment (String.utf8EncodeChar c ++ rest) =
      (String.utf8EncodeChar c).map blankByte ++ maskBytesFrom .blockComment rest := by
  by_cases hstar : c = '*'
  · subst hstar
    show maskBytesFrom .blockComment (0x2A :: rest) = 0x20 :: maskBytesFrom .blockComment rest
    rw [maskBytesFrom]
    · rfl
    · exact fun more _ h => hopen more rfl h
  · exact maskBytesFrom_block fun b hb =>
      ne_of_mem_utf8EncodeChar '*' (by decide) hstar hb

end Characters

/-- A hidden character shows a space for each of its bytes, but for a line feed. -/
theorem map_blankByte_utf8EncodeChar (c : Char) : (String.utf8EncodeChar c).map blankByte =
    if c = '\n' then [0x0A] else List.replicate c.utf8Size 0x20 := by
  by_cases hfeed : c = '\n'
  · subst hfeed
    rfl
  · rw [if_neg hfeed, ← String.length_utf8EncodeChar, ← List.map_const']
    refine List.map_congr_left fun b hb => if_neg ?_
    have hne : b ≠ 0x0A := ne_of_mem_utf8EncodeChar '\n' (by decide) hfeed hb
    simpa using hne

theorem encoded_shownText_code (c : Char) (cells : List Cell) :
    encoded (shownText (⟨c, .code⟩ :: cells)) =
      String.utf8EncodeChar c ++ encoded (shownText cells) :=
  encoded_cons c (shownText cells)

/-- A cell outside the code shows the blanked bytes of its character. -/
theorem encoded_shownText_hidden {part : Part} (hpart : part ≠ .code) (c : Char)
    (cells : List Cell) : encoded (shownText (⟨c, part⟩ :: cells)) =
      (String.utf8EncodeChar c).map blankByte ++ encoded (shownText cells) := by
  have hcell : encoded (Cell.mk c part).shownText = (String.utf8EncodeChar c).map blankByte := by
    have hshows : (Cell.mk c part).shows = (c == '\n') := by
      rw [Cell.shows, beq_false_of_ne hpart, Bool.false_or]
    rw [Cell.shownText, hshows, map_blankByte_utf8EncodeChar]
    by_cases hfeed : c = '\n'
    · subst hfeed
      rfl
    · rw [if_neg (by simpa using hfeed), if_neg hfeed, encoded, List.flatMap_replicate]
      exact List.flatten_replicate_singleton
  rw [← hcell, ← encoded_append]
  rfl

/-- The masked bytes of a text are the bytes of its masked copy. -/
theorem maskBytesFrom_encoded {region : Region} (text : List Char) (hregion : IsReached region) :
    maskBytesFrom region (encoded text) = encoded (shownText (maskFrom region text)) := by
  induction region, text using maskFrom.induct with
  | case1 region =>
    rw [maskFrom]
    exact maskBytesFrom.eq_1 region
  | case2 text ih =>
    rw [maskFrom, encoded_shownText_hidden (by decide), encoded_shownText_hidden (by decide),
      ← ih trivial]
    rfl
  | case3 text ih =>
    rw [maskFrom, encoded_shownText_hidden (by decide), encoded_shownText_hidden (by decide),
      ← ih trivial]
    rfl
  | case4 c text hline hblock ih =>
    have hafter : IsReached (if c == '"' || c == '\'' then .literal c else .code) := by
      split_ifs with hquote
      · simpa [IsReached] using hquote
      · trivial
    rw [maskFrom, encoded_shownText_code, ← ih hafter, encoded_cons, maskBytesFrom_code_char]
    · intro more hc hrest
      obtain ⟨behind, rfl⟩ := exists_of_encoded_eq_cons '/' (by decide) hrest
      exact hline _ hc rfl
    · intro more hc hrest
      obtain ⟨behind, rfl⟩ := exists_of_encoded_eq_cons '*' (by decide) hrest
      exact hblock _ hc rfl
    all_goals assumption
  | case5 quote c text hends ih =>
    have hsign : c = quote ∨ c = '\n' := by simpa using hends
    rw [maskFrom, if_pos hends, encoded_shownText_code, ← ih trivial]
    rcases hregion with rfl | rfl <;> rcases hsign with rfl | rfl <;> rfl
  | case6 quote c text hends ih =>
    have hafter : IsReached (if c == '\\' then .escaped quote else .literal quote) := by
      split_ifs <;> exact hregion
    rw [maskFrom, if_neg hends, encoded_shownText_hidden (by decide), ← ih hafter, encoded_cons,
      maskBytesFrom_literal_char hregion hends]
  | case7 quote c text ih =>
    rw [maskFrom, encoded_shownText_hidden (by decide), ← ih hregion, encoded_cons,
      maskBytesFrom_escaped_char hregion]
  | case8 c text hends ih =>
    obtain rfl : c = '\n' := beq_iff_eq.1 hends
    rw [maskFrom, if_pos hends, encoded_shownText_code, ← ih trivial]
    rfl
  | case9 c text hends ih =>
    have hfeed : c ≠ '\n' := mt beq_iff_eq.2 hends
    rw [maskFrom, if_neg hends, encoded_shownText_hidden (by decide), ← ih trivial, encoded_cons,
      maskBytesFrom_line fun b hb => ne_of_mem_utf8EncodeChar '\n' (by decide) hfeed hb]
  | case10 text ih =>
    rw [maskFrom, encoded_shownText_hidden (by decide), encoded_shownText_hidden (by decide),
      ← ih trivial]
    rfl
  | case11 c text hopen ih =>
    rw [maskFrom, encoded_shownText_hidden (by decide), ← ih trivial, encoded_cons,
      maskBytesFrom_block_char]
    · intro more hc hrest
      obtain ⟨behind, rfl⟩ := exists_of_encoded_eq_cons '/' (by decide) hrest
      exact hopen _ hc rfl
    · assumption

/-! ## The frame of any bytes -/

/-- What masking makes of a byte: it stays or gives way to a space, and is a line feed as before. -/
def Shows (b shown : UInt8) : Prop :=
  (shown = b ∨ shown = 0x20) ∧ (shown = lineFeedByte ↔ b = lineFeedByte)

theorem shows_self (b : UInt8) : Shows b b :=
  ⟨.inl rfl, Iff.rfl⟩

theorem shows_space {b : UInt8} (h : b ≠ 0x0A) : Shows b 0x20 :=
  ⟨.inr rfl, iff_of_false (by decide) h⟩

theorem shows_blankByte (b : UInt8) : Shows b (blankByte b) := by
  rw [blankByte]
  split_ifs with hfeed
  · exact shows_self b
  · exact shows_space (by simpa using hfeed)

/-- Masking works byte by byte, on any bytes. -/
theorem shows_maskBytesFrom (region : Region) (bytes : List UInt8) :
    List.Forall₂ Shows bytes (maskBytesFrom region bytes) := by
  fun_induction maskBytesFrom region bytes with
  | case1 region => exact .nil
  | case2 bytes ih => exact .cons (shows_space (by decide)) (.cons (shows_space (by decide)) ih)
  | case3 bytes ih => exact .cons (shows_space (by decide)) (.cons (shows_space (by decide)) ih)
  | case4 b bytes hline hblock ih => exact .cons (shows_self b) ih
  | case5 quote b bytes hends ih => exact .cons (shows_self b) ih
  | case6 quote b bytes hends ih =>
    simp only [Bool.or_eq_true, beq_iff_eq, not_or] at hends
    exact .cons (shows_space hends.2) ih
  | case7 quote b bytes ih => exact .cons (shows_blankByte b) ih
  | case8 b bytes hends ih => exact .cons (shows_self b) ih
  | case9 b bytes hends ih => exact .cons (shows_space (by simpa using hends)) ih
  | case10 bytes ih => exact .cons (shows_space (by decide)) (.cons (shows_space (by decide)) ih)
  | case11 b bytes hopen ih => exact .cons (shows_blankByte b) ih

/-- In masked bytes a slash does not stand in front of a slash or a star. -/
def IsFree (x y : UInt8) : Prop :=
  ¬(x = 0x2F ∧ (y = 0x2F ∨ y = 0x2A))

theorem isChain_cons_of_ne {x : UInt8} {bytes : List UInt8} (hx : x ≠ 0x2F)
    (h : bytes.IsChain IsFree) : (x :: bytes).IsChain IsFree :=
  List.isChain_cons.2 ⟨fun _ _ hfree => hx hfree.1, h⟩

theorem blankByte_ne (b : UInt8) : blankByte b ≠ 0x2F := by
  rw [blankByte]
  split_ifs with hfeed
  · rw [beq_iff_eq.1 hfeed]
    decide
  · decide

/-- No sign of a comment is left.  A slash that stays has the byte behind it that it had before, or
a space. -/
theorem isChain_maskBytesFrom {region : Region} (bytes : List UInt8) (hregion : IsReached region) :
    (maskBytesFrom region bytes).IsChain IsFree := by
  fun_induction maskBytesFrom region bytes with
  | case1 region => exact List.isChain_nil
  | case2 bytes ih =>
    exact isChain_cons_of_ne (by decide) (isChain_cons_of_ne (by decide) (ih trivial))
  | case3 bytes ih =>
    exact isChain_cons_of_ne (by decide) (isChain_cons_of_ne (by decide) (ih trivial))
  | case4 b bytes hline hblock ih =>
    refine List.isChain_cons.2 ⟨?_, ih ?_⟩
    · rintro shown hshown ⟨rfl, hsign⟩
      have hframe := shows_maskBytesFrom (if (0x2F : UInt8) == 0x22 then .literal '"'
        else if (0x2F : UInt8) == 0x27 then .literal '\'' else .code) bytes
      obtain ⟨rest, hrest⟩ := List.head?_eq_some_iff.1 hshown
      rw [hrest] at hframe
      cases hframe with
      | cons hhead _ =>
        rcases hhead.1 with rfl | rfl
        · rcases hsign with rfl | rfl
          · exact hline _ rfl rfl
          · exact hblock _ rfl rfl
        · exact absurd hsign (by decide)
    · split_ifs
      · exact .inl rfl
      · exact .inr rfl
      · trivial
  | case5 quote b bytes hends ih =>
    refine isChain_cons_of_ne ?_ (ih trivial)
    simp only [Bool.or_eq_true, beq_iff_eq] at hends
    rcases hregion with rfl | rfl <;> rcases hends with rfl | rfl <;> decide
  | case6 quote b bytes hends ih =>
    refine isChain_cons_of_ne (by decide) (ih ?_)
    split_ifs <;> exact hregion
  | case7 quote b bytes ih => exact isChain_cons_of_ne (blankByte_ne b) (ih hregion)
  | case8 b bytes hends ih =>
    obtain rfl := beq_iff_eq.1 hends
    exact isChain_cons_of_ne (by decide) (ih trivial)
  | case9 b bytes hends ih => exact isChain_cons_of_ne (by decide) (ih trivial)
  | case10 bytes ih =>
    exact isChain_cons_of_ne (by decide) (isChain_cons_of_ne (by decide) (ih trivial))
  | case11 b bytes hopen ih => exact isChain_cons_of_ne (blankByte_ne b) (ih trivial)

/-! ## The masked text -/

theorem fromUTF8?_encoded (text : List Char) :
    String.fromUTF8? (encoded text).toByteArray = some (String.ofList text) :=
  dif_pos ByteArray.isValidUTF8_utf8Encode

/-- The masked bytes of a text make up a text, which is its masked copy.  It has as many bytes as
the text; each of them is the one that was there or a space, and a line feed exactly where one was;
and no sign that opens a comment is left. -/
theorem maskedText_frame (text : String) :
    (String.fromUTF8? (maskBytes (utf8Bytes text)).toByteArray).isSome = true ∧
      maskedText text = String.ofList (masked text.toList) ∧
      (utf8Bytes (maskedText text)).length = (utf8Bytes text).length ∧
      List.Forall₂ Shows (utf8Bytes text) (utf8Bytes (maskedText text)) ∧
      ¬ [0x2F, 0x2F] <:+: utf8Bytes (maskedText text) ∧
      ¬ [0x2F, 0x2A] <:+: utf8Bytes (maskedText text) := by
  have hbytes : maskBytes (utf8Bytes text) = encoded (masked text.toList) := by
    rw [utf8Bytes_eq]
    exact maskBytesFrom_encoded text.toList trivial
  have hvalid : String.fromUTF8? (maskBytes (utf8Bytes text)).toByteArray =
      some (String.ofList (masked text.toList)) := by
    rw [hbytes, fromUTF8?_encoded]
  have htext : maskedText text = String.ofList (masked text.toList) := by
    show (String.fromUTF8? (maskBytes (utf8Bytes text)).toByteArray).getD text = _
    rw [hvalid, Option.getD_some]
  have hmasked : utf8Bytes (maskedText text) = maskBytes (utf8Bytes text) := by
    rw [htext, utf8Bytes_ofList, hbytes]
  have hframe := shows_maskBytesFrom .code (utf8Bytes text)
  have hfree : (maskBytes (utf8Bytes text)).IsChain IsFree := isChain_maskBytesFrom _ trivial
  rw [hmasked]
  refine ⟨by rw [hvalid]; rfl, htext, hframe.length_eq.symm, hframe, ?_, ?_⟩
  · exact isChain_iff_not_adjacent.1 (hfree.imp fun _ _ h hsigns => h ⟨hsigns.1, .inl hsigns.2⟩)
  · exact isChain_iff_not_adjacent.1 (hfree.imp fun _ _ h hsigns => h ⟨hsigns.1, .inr hsigns.2⟩)

/-- A backslash in front of a character of two bytes, and another one at the end of the text. -/
example : maskBytes [0x22, 0x5C, 0xC3, 0xBC, 0x5C] = [0x22, 0x20, 0x20, 0x20, 0x20] := by decide

end PropertyIndex.Source
