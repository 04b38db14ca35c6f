import Mathlib.Data.List.Basic
import PropertyIndex.Text.Line

/-!
# Texts as bytes

Offsets into a text count the bytes of its UTF-8 form.  A line feed is a byte of its own there, and
no other character has a byte of that value.

* `utf8Bytes`, `encoded`: the bytes of a text and of a list of characters.
* `length_encoded`, `count_encoded`: widths and line feeds are counted in bytes.
* `isValid_of_eq_append`: the offset between two parts of a text.
* `mem_utf8EncodeChar_iff`: the byte of an ASCII sign is a byte of no other character.
* `count_encoded_init`: the line feeds in front of the last byte.
-/

namespace PropertyIndex.Text

/-- The bytes of a text in its UTF-8 form. -/
def utf8Bytes (text : String) : List UInt8 :=
  text.toUTF8.data.toList

/-- The value of a line feed as a byte. -/
def lineFeedByte : UInt8 := 10

/-- The bytes of a list of characters. -/
def encoded (text : List Char) : List UInt8 :=
  text.flatMap String.utf8EncodeChar

theorem utf8Bytes_ofList (text : List Char) : utf8Bytes (String.ofList text) = encoded text := by
  rw [utf8Bytes, String.toUTF8, String.toByteArray_ofList, List.utf8Encode, List.data_toByteArray]
  rfl

theorem utf8Bytes_eq (text : String) : utf8Bytes text = encoded text.toList := by
  rw [← utf8Bytes_ofList, String.ofList_toList]

theorem encoded_append (front back : List Char) :
    encoded (front ++ back) = encoded front ++ encoded back :=
  List.flatMap_append

theorem width_append (front back : List Char) :
    width (front ++ back) = width front + width back := by
  induction front with
  | nil => exact (Nat.zero_add _).symm
  | cons c front ih => rw [List.cons_append, width, width, ih, Nat.add_assoc]

theorem width_pos {text : List Char} (h : text ≠ []) : 0 < width text := by
  obtain ⟨c, text, rfl⟩ := List.exists_cons_of_ne_nil h
  exact Nat.add_pos_left c.utf8Size_pos _

/-- Of two parts from the front of a text, the one with the smaller width begins the other. -/
theorem exists_append_of_width_le {front rest other behind : List Char}
    (h : front ++ rest = other ++ behind) (hwidth : width front ≤ width other) :
    ∃ more, other = front ++ more := by
  rcases List.append_eq_append_iff.1 h with ⟨more, hmore, -⟩ | ⟨more, rfl, -⟩
  · exact ⟨more, hmore⟩
  · rcases eq_or_ne more [] with rfl | hne
    · exact ⟨[], by rw [List.append_nil, List.append_nil]⟩
    · have hpos := width_pos hne
      rw [width_append] at hwidth
      omega

/-- The width of a text is the number of its bytes. -/
theorem length_encoded (text : List Char) : (encoded text).length = width text := by
  induction text with
  | nil => rfl
  | cons c text ih =>
    rw [encoded, List.flatMap_cons, List.length_append, String.length_utf8EncodeChar, ← encoded, ih,
      width]

theorem utf8ByteSize_ofList (text : List Char) :
    (String.ofList text).utf8ByteSize = width text := by
  rw [← String.size_toByteArray, ← length_encoded, ← utf8Bytes_ofList]
  rfl

theorem utf8ByteSize_eq (text : String) : text.utf8ByteSize = width text.toList := by
  rw [← utf8ByteSize_ofList, String.ofList_toList]

/-- Between two parts of a text lies a valid offset. -/
theorem isValid_of_eq_append {text : String} {front back : List Char}
    (h : text.toList = front ++ back) : (⟨width front⟩ : String.Pos.Raw).IsValid text := by
  refine String.Pos.Raw.isValid_iff_exists_append.2
    ⟨String.ofList front, String.ofList back, ?_, ?_⟩
  · rw [← String.ofList_append, ← h, String.ofList_toList]
  · rw [String.rawEndPos, utf8ByteSize_ofList]

/-! ## Signs -/

theorem toNat_toUInt8 {c : Char} (h : c.toNat < 128) : c.toUInt8.toNat = c.toNat := by
  rw [Char.toUInt8, UInt32.toNat_toUInt8]
  exact Nat.mod_eq_of_lt (Nat.lt_trans h (by decide))

/-- An ASCII character is one byte. -/
theorem utf8EncodeChar_of_lt {c : Char} (h : c.toNat < 128) :
    String.utf8EncodeChar c = [c.toUInt8] := by
  refine String.utf8EncodeChar_eq_singleton ?_
  rw [Char.utf8Size_eq_one_iff, UInt32.le_iff_toNat_le]
  exact Nat.le_of_lt_succ h

/-- The bytes of a longer character have their highest bit set, and so have all bytes behind the
first one. -/
theorem le_toNat_of_mem {c : Char} {b : UInt8}
    (h : (128 ≤ c.toNat ∧ b ∈ String.utf8EncodeChar c) ∨ b ∈ (String.utf8EncodeChar c).tail) :
    128 ≤ b.toNat := by
  have hvalue : c.val.toNat = c.toNat := rfl
  rw [String.utf8EncodeChar] at h
  split_ifs at h with hone htwo hthree <;>
    simp only [List.mem_cons, List.not_mem_nil, or_false, List.tail_cons, hvalue] at h hone
  · omega
  · rcases h with ⟨-, rfl | rfl⟩ | rfl <;> rw [UInt8.toNat_ofNat'] <;> omega
  · rcases h with ⟨-, rfl | rfl | rfl⟩ | rfl | rfl <;> rw [UInt8.toNat_ofNat'] <;> omega
  · rcases h with ⟨-, rfl | rfl | rfl | rfl⟩ | rfl | rfl | rfl <;>
      rw [UInt8.toNat_ofNat'] <;> omega

/-- The byte of an ASCII sign is a byte of no other character. -/
theorem mem_utf8EncodeChar_iff {c sign : Char} (hsign : sign.toNat < 128) :
    sign.toUInt8 ∈ String.utf8EncodeChar c ↔ c = sign := by
  constructor
  · intro hmem
    have hlow := toNat_toUInt8 hsign
    by_cases hc : c.toNat < 128
    · rw [utf8EncodeChar_of_lt hc, List.mem_singleton] at hmem
      have hvalue : sign.toNat = c.toNat := by
        rw [← hlow, hmem, toNat_toUInt8 hc]
      exact Char.ext (UInt32.toNat_inj.1 hvalue.symm)
    · have hhigh := le_toNat_of_mem (.inl ⟨Nat.le_of_not_lt hc, hmem⟩)
      omega
  · rintro rfl
    rw [utf8EncodeChar_of_lt hsign]
    exact List.mem_cons_self

theorem encoded_cons (c : Char) (text : List Char) :
    encoded (c :: text) = String.utf8EncodeChar c ++ encoded text :=
  List.flatMap_cons

/-- A text whose bytes begin with the byte of a sign begins with the sign. -/
theorem exists_of_encoded_eq_cons (sign : Char) (hsign : sign.toNat < 128) {text : List Char}
    {bytes : List UInt8} (h : encoded text = sign.toUInt8 :: bytes) :
    ∃ behind, text = sign :: behind := by
  cases text with
  | nil => exact absurd h.symm (List.cons_ne_nil _ _)
  | cons c behind =>
    refine ⟨behind, ?_⟩
    obtain ⟨b, more, hbytes⟩ := List.exists_cons_of_ne_nil (@String.utf8EncodeChar_ne_nil c)
    rw [encoded_cons, hbytes, List.cons_append] at h
    have hmem : sign.toUInt8 ∈ String.utf8EncodeChar c := by
      rw [hbytes, ← (List.cons.inj h).1]
      exact List.mem_cons_self
    rw [(mem_utf8EncodeChar_iff hsign).1 hmem]

/-! ## Line feeds -/

/-- Only a line feed has the byte of a line feed. -/
theorem eq_of_lineFeedByte_mem {c : Char} (h : lineFeedByte ∈ String.utf8EncodeChar c) :
    c = '\n' :=
  (mem_utf8EncodeChar_iff (by decide)).1 h

theorem count_utf8EncodeChar (c : Char) :
    (String.utf8EncodeChar c).count lineFeedByte = if c = '\n' then 1 else 0 := by
  by_cases h : c = '\n'
  · subst h
    decide
  · rw [if_neg h, List.count_eq_zero]
    exact fun hmem => h (eq_of_lineFeedByte_mem hmem)

/-- The line feeds of a text are those of its bytes. -/
theorem count_encoded (text : List Char) : (encoded text).count lineFeedByte = text.count '\n' := by
  induction text with
  | nil => rfl
  | cons c text ih =>
    rw [encoded, List.flatMap_cons, List.count_append, count_utf8EncodeChar, ← encoded, ih,
      List.count_cons, Nat.add_comm]
    simp only [beq_iff_eq]

/-- In front of its last byte a text has the line feeds that stand in front of its last
character. -/
theorem count_encoded_init {text : List Char} (h : text ≠ []) :
    ((encoded text).take (width text - 1)).count lineFeedByte = text.dropLast.count '\n' := by
  obtain ⟨init, c, rfl⟩ := (List.eq_nil_or_concat' text).resolve_left h
  have hlast : (String.utf8EncodeChar c).dropLast.count lineFeedByte = 0 := by
    rw [List.count_eq_zero]
    intro hmem
    obtain rfl := eq_of_lineFeedByte_mem (List.dropLast_subset _ hmem)
    exact absurd hmem (by decide)
  have hsingle : encoded [c] = String.utf8EncodeChar c := List.append_nil _
  rw [← length_encoded, ← List.dropLast_eq_take, encoded_append, hsingle,
    List.dropLast_append_of_ne_nil String.utf8EncodeChar_ne_nil, List.count_append, count_encoded,
    hlast, Nat.add_zero, List.dropLast_concat]

end PropertyIndex.Text
