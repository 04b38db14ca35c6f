import PropertyIndex.Proofs.BlockCut
import PropertyIndex.Proofs.LineSpan
import PropertyIndex.Proofs.Utf8

/-!
# Where a block stands

A block is found on the masked copy of a text and cut out of the text itself.  Since cells keep
the characters of the text, the cut leaves what is in front of the block and what is behind it,
and all that a block says about its place can be read off these three parts.

* `lineNumbered`: a line of a text by its number.
* `Block.HasOffsets`, `Block.HasLines`, `Block.IsFaithful`: what a block says about its place is
  true of a text.
* `Block.IsBetween`: a block that is cut out of a text between two other parts; it is faithful.
* `pairwise_start_scan`: the order in which a scan finds blocks.
* `scan_faithful`: every block of a scan, and the order of their starts.
-/

namespace PropertyIndex.Source

open Text

/-- The line of a text with a number, counting from one. -/
def lineNumbered (text : String) (number : Nat) : Option String :=
  ((lines text.toList).map String.ofList)[number - 1]?

/-- The offsets of a block are valid in a text, and the block holds what is between them. -/
structure Block.HasOffsets (text : String) (block : Block) : Prop where
  start_lt_stop : block.start < block.stop
  stop_le : block.stop ≤ text.utf8ByteSize
  start_valid : (⟨block.start⟩ : String.Pos.Raw).IsValid text
  stop_valid : (⟨block.stop⟩ : String.Pos.Raw).IsValid text
  bytes_eq : utf8Bytes block.text = ((utf8Bytes text).take block.stop).drop block.start

/-- The lines of a block are those of a text between its line numbers, but for what the cut takes
off the first and the last one.  The numbers count the line feeds in front of its first and its
last byte. -/
structure Block.HasLines (text : String) (block : Block) : Prop where
  startLine_eq : block.startLine = 1 + ((utf8Bytes text).take block.start).count lineFeedByte
  endLine_eq : block.endLine = 1 + ((utf8Bytes text).take (block.stop - 1)).count lineFeedByte
  startLine_le : block.startLine ≤ block.endLine
  length_lines : block.lines.length = block.endLine - block.startLine + 1
  first_line : block.startLine < block.endLine → ∃ line whole, block.lines[0]? = some line ∧
    lineNumbered text block.startLine = some whole ∧ line.toList <:+ whole.toList
  last_line : block.startLine < block.endLine → ∃ line whole,
    block.lines[block.endLine - block.startLine]? = some line ∧
    lineNumbered text block.endLine = some whole ∧ line.toList <+: whole.toList
  inner_line : ∀ k, 0 < k → block.startLine + k < block.endLine →
    block.lines[k]? = lineNumbered text (block.startLine + k)

/-- What a block says about its place is true of a text. -/
structure Block.IsFaithful (text : String) (block : Block) : Prop extends
  block.HasOffsets text, block.HasLines text

/-! ## A block between two other parts -/

/-- A block that is cut out of a text between two other parts.  It goes up to the end of the text
or does not end inside a line end. -/
structure Block.IsBetween (text : String) (block : Block) (front middle back : List Char) :
    Prop where
  text_eq : text.toList = front ++ middle ++ back
  ne_nil : middle ≠ []
  ends : back = [] ∨ ∀ c, middle.getLast? = some c → c ≠ '\n' ∧ c ≠ '\r'
  start_eq : block.start = width front
  stop_eq : block.stop = width front + width middle
  startLine_eq : block.startLine = lineNumber front
  endLine_eq : block.endLine = lineNumber (front ++ middle.dropLast)
  block_eq : block.text = String.ofList middle

namespace Block.IsBetween

variable {text : String} {block : Block} {front middle back : List Char}

/-- The bytes up to the end of a block, or short of some of them at the end. -/
theorem take_utf8Bytes (h : block.IsBetween text front middle back) {n : Nat}
    (hn : n ≤ width middle) :
    (utf8Bytes text).take (width front + n) = encoded front ++ (encoded middle).take n := by
  rw [utf8Bytes_eq, h.text_eq, List.append_assoc, encoded_append, encoded_append, ← length_encoded,
    List.take_length_add_append, List.take_append_of_le_length (by rwa [length_encoded])]

theorem hasOffsets (h : block.IsBetween text front middle back) : block.HasOffsets text where
  start_lt_stop := by
    rw [h.start_eq, h.stop_eq]
    exact Nat.lt_add_of_pos_right (width_pos h.ne_nil)
  stop_le := by
    rw [h.stop_eq, utf8ByteSize_eq, h.text_eq, width_append, width_append]
    exact Nat.le_add_right _ _
  start_valid := by
    rw [h.start_eq]
    exact isValid_of_eq_append (h.text_eq.trans (List.append_assoc _ _ _))
  stop_valid := by
    rw [h.stop_eq, ← width_append]
    exact isValid_of_eq_append h.text_eq
  bytes_eq := by
    rw [h.start_eq, h.stop_eq, h.take_utf8Bytes (Nat.le_refl _), ← length_encoded middle,
      List.take_length, ← length_encoded front, List.drop_left, h.block_eq, utf8Bytes_ofList]

/-- The number of the first line counts the line feeds in front of the block. -/
theorem startLine_eq_count (h : block.IsBetween text front middle back) :
    block.startLine = front.count '\n' + 1 :=
  h.startLine_eq

/-- The number of the last line counts those in front of the last character of the block. -/
theorem endLine_eq_count (h : block.IsBetween text front middle back) :
    block.endLine = front.count '\n' + middle.dropLast.count '\n' + 1 := by
  rw [h.endLine_eq, lineNumber, List.count_append]

theorem endLine_sub (h : block.IsBetween text front middle back) :
    block.endLine - block.startLine = middle.dropLast.count '\n' := by
  rw [h.startLine_eq_count, h.endLine_eq_count]
  omega

theorem lines_eq (h : block.IsBetween text front middle back) :
    block.lines = (Text.lines middle).map String.ofList := by
  rw [Block.lines, h.block_eq, String.toList_ofList]

theorem getElem?_lines_eq (h : block.IsBetween text front middle back) (k : Nat) :
    block.lines[k]? = (Text.lines middle)[k]?.map String.ofList := by
  rw [h.lines_eq, List.getElem?_map]

/-- The lines of a text from the first line of a block on. -/
theorem lineNumbered_eq (h : block.IsBetween text front middle back) (k : Nat) :
    lineNumbered text (front.count '\n' + k + 1) =
      (Text.lines (front ++ middle ++ back))[front.count '\n' + k]?.map String.ofList := by
  rw [lineNumbered, h.text_eq, List.getElem?_map, Nat.add_sub_cancel]

theorem hasLines (h : block.IsBetween text front middle back) : block.HasLines text where
  startLine_eq := by
    rw [h.startLine_eq_count, h.start_eq, ← Nat.add_zero (width front),
      h.take_utf8Bytes (Nat.zero_le _), List.take_zero, List.append_nil, count_encoded,
      Nat.add_comm]
  endLine_eq := by
    have hpos : 1 ≤ width middle := width_pos h.ne_nil
    rw [h.stop_eq, Nat.add_sub_assoc hpos, h.take_utf8Bytes (Nat.sub_le _ _), List.count_append,
      count_encoded, count_encoded_init h.ne_nil, h.endLine_eq_count, Nat.add_comm]
  startLine_le := by
    rw [h.startLine_eq_count, h.endLine_eq_count]
    exact Nat.succ_le_succ (Nat.le_add_right _ _)
  length_lines := by
    rw [h.lines_eq, List.length_map, Text.length_lines h.ne_nil, h.endLine_sub]
  first_line := by
    intro hlt
    have hlines : 0 < middle.dropLast.count '\n' := h.endLine_sub ▸ Nat.sub_pos_of_lt hlt
    obtain ⟨⟨line, whole, hline, hwhole, hsuffix⟩, -, -⟩ :=
      @getElem?_lines front middle back hlines h.ends
    refine ⟨String.ofList line, String.ofList whole, ?_, ?_, ?_⟩
    · rw [h.getElem?_lines_eq, hline, Option.map_some]
    · rw [h.startLine_eq_count]
      exact (h.lineNumbered_eq 0).trans (congrArg (Option.map String.ofList) hwhole)
    · rwa [String.toList_ofList, String.toList_ofList]
  last_line := by
    intro hlt
    have hlines : 0 < middle.dropLast.count '\n' := h.endLine_sub ▸ Nat.sub_pos_of_lt hlt
    obtain ⟨-, ⟨line, whole, hline, hwhole, hprefix⟩, -⟩ :=
      @getElem?_lines front middle back hlines h.ends
    refine ⟨String.ofList line, String.ofList whole, ?_, ?_, ?_⟩
    · rw [h.endLine_sub, h.getElem?_lines_eq, hline, Option.map_some]
    · rw [h.endLine_eq_count, h.lineNumbered_eq, hwhole, Option.map_some]
    · rwa [String.toList_ofList, String.toList_ofList]
  inner_line := by
    intro k hk hlt
    have hk' : k < middle.dropLast.count '\n' := by
      rw [← h.endLine_sub]
      exact Nat.lt_sub_of_add_lt (Nat.add_comm _ _ ▸ hlt)
    obtain ⟨-, -, hinner⟩ := @getElem?_lines front middle back (Nat.zero_lt_of_lt hk') h.ends
    rw [h.getElem?_lines_eq, hinner k hk hk', h.startLine_eq_count, Nat.add_right_comm,
      h.lineNumbered_eq]

theorem isFaithful (h : block.IsBetween text front middle back) : block.IsFaithful text where
  toHasOffsets := h.hasOffsets
  toHasLines := h.hasLines

end Block.IsBetween

/-! ## The blocks of a scan -/

section Scan

variable {text : String} {extent : Extent} {keyword : String} {place : Occurrence}

/-- The character of a cell that shows a sign is the sign. -/
theorem char_of_shown {cell : Cell} {sign : Char} (h : cell.shown = sign) (hsign : sign ≠ ' ') :
    cell.char = sign := by
  rw [Cell.shown] at h
  split_ifs at h
  · exact h
  · exact absurd h.symm hsign

/-- A block ends with the text or with a sign that closes it, so not inside a line end. -/
theorem IsCut.getLast?_source {cells taken more : List Cell} (hcut : IsCut cells taken more)
    (header : List Cell) : source more = [] ∨
      ∀ c, (source (header ++ taken)).getLast? = some c → c ≠ '\n' ∧ c ≠ '\r' := by
  refine hcut.ends.imp (fun h => by rw [h]; rfl) ?_
  rintro ⟨front, cell, rfl, hshown⟩ c hc
  rw [← List.append_assoc, source, List.map_append, List.map_singleton, List.getLast?_concat,
    Option.some_inj] at hc
  subst hc
  rcases hshown with h | h
  · rw [char_of_shown h (by decide)]
    decide
  · rw [char_of_shown h (by decide)]
    decide

/-- A block at a place of a keyword is faithful. -/
theorem isFaithful_of_block? (hkeyword : IsKeyword keyword.toList)
    (hplace : place ∈ occurrences keyword.toList (mask text.toList)) {block : Block}
    (hblock : place.block? extent = some block) : block.IsFaithful text := by
  obtain ⟨⟨taken, terminated⟩, htaken, rfl⟩ := Option.map_eq_some_iff.1 hblock
  obtain ⟨hcells, hheader⟩ := eq_of_mem_occurrences hkeyword hplace
  obtain ⟨more, hcut⟩ := isCut_block? htaken
  have htext : text.toList =
      source place.before.reverse ++ source (place.header ++ taken) ++ source more := by
    rw [← source_mask text.toList, hcells, hcut.eq]
    simp only [source, List.map_append, List.append_assoc]
  have hne : source (place.header ++ taken) ≠ [] := by
    rw [source, Ne, List.map_eq_nil_iff]
    exact List.append_ne_nil_of_left_ne_nil hheader taken
  exact Block.IsBetween.isFaithful
    ⟨htext, hne, hcut.getLast?_source place.header, rfl, rfl, rfl, rfl, rfl⟩

/-- A place in front of another one stands at a smaller offset. -/
theorem width_before_lt {cells : List Cell} {first second : Occurrence}
    (hfirst : cells = first.before.reverse ++ (first.header ++ first.rest))
    (hsecond : cells = second.before.reverse ++ (second.header ++ second.rest))
    (hlt : first.before.length < second.before.length) :
    width (source first.before.reverse) < width (source second.before.reverse) := by
  have hprefix : first.before.reverse <+: second.before.reverse := by
    refine List.prefix_of_prefix_length_le ⟨_, hfirst.symm⟩ ⟨_, hsecond.symm⟩ ?_
    rw [List.length_reverse, List.length_reverse]
    exact Nat.le_of_lt hlt
  obtain ⟨between, hbetween⟩ := hprefix
  have hne : between ≠ [] := by
    rintro rfl
    have hlength := congrArg List.length hbetween
    rw [List.append_nil, List.length_reverse, List.length_reverse] at hlength
    exact absurd hlength (Nat.ne_of_lt hlt)
  rw [← hbetween, source, source, List.map_append, width_append]
  refine Nat.lt_add_of_pos_right (width_pos ?_)
  rwa [Ne, List.map_eq_nil_iff]

/-- The blocks of a scan come in the order of their starts. -/
theorem pairwise_start_scan (extent : Extent) (text : String)
    (hkeyword : IsKeyword keyword.toList) :
    (scan extent keyword text).Pairwise fun first second => first.start < second.start := by
  refine List.pairwise_filterMap.2 ?_
  refine (pairwise_occurrences hkeyword).imp_of_mem ?_
  intro first second hfirst hsecond hlt block hblock other hother
  obtain ⟨_, -, rfl⟩ := Option.map_eq_some_iff.1 hblock
  obtain ⟨_, -, rfl⟩ := Option.map_eq_some_iff.1 hother
  exact width_before_lt (eq_of_mem_occurrences hkeyword hfirst).1
    (eq_of_mem_occurrences hkeyword hsecond).1 hlt

end Scan

/-- The blocks of a scan start one behind the other, and what each one says about its place is
true of the text. -/
theorem scan_faithful (extent : Extent) (keyword text : String)
    (hkeyword : IsKeyword keyword.toList) :
    (scan extent keyword text).Pairwise (fun first second => first.start < second.start) ∧
      ∀ block ∈ scan extent keyword text, block.IsFaithful text := by
  refine ⟨pairwise_start_scan extent text hkeyword, fun block hblock => ?_⟩
  obtain ⟨place, hplace, hplaced⟩ := List.mem_filterMap.1 hblock
  exact isFaithful_of_block? hkeyword hplace hplaced

/-- Characters of two bytes in the code, in a comment and in a literal, both kinds of line end, a
keyword in a comment and a block that nothing closes. -/
def twoRules : String :=
  "é rule a \x7b\r\n  // ü rule\r\n  s = \"\x7d\"; \x7d\nrule b\x7b\n \"ü\n\r"

theorem scan_faithful_twoRules :
    IsKeyword "rule".toList ∧
      (scan .body "rule" twoRules).map (fun block =>
          (block.start, block.stop, block.startLine, block.endLine, block.terminated)) =
        [(3, 39, 1, 3, true), (40, 54, 4, 6, false)] ∧
      (scan .body "rule" twoRules).Pairwise (fun first second => first.start < second.start) ∧
      ∀ block ∈ scan .body "rule" twoRules, block.IsFaithful twoRules := by
  have hkeyword : IsKeyword "rule".toList :=
    ⟨by decide, List.all_eq_true.1 (by decide)⟩
  exact ⟨hkeyword, by decide +kernel, scan_faithful .body "rule" twoRules hkeyword⟩

end PropertyIndex.Source
