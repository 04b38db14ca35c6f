import PropertyIndex.Proofs.BlockPosition
import PropertyIndex.Proofs.FinishedBody

/-!
# What follows finished blocks

A block with a body that is closed in a text is the same block in every longer text, and a longer
text has no other block that is closed within the first one.  What follows may change what the last
slash means, lengthen the last name, take away the last match, close a clause or supply a brace; all
of this concerns blocks that end behind it.

* `SameStart`, `sameStart_maskFrom`: the cells of a text and those of a longer one.
* `prefix_of_closing`: a brace that stands behind some cells without braces.
* `Occurrence.closedBlock?`, `closedBlocks`: the blocks that are closed up to an offset.
* `closedBlocks_eq_nil`: cells without a closing brace close no block.
* `occurrenceAt_append_some`, `isIdentChar_of_occurrenceAt_append`: a place in longer cells.
* `closedBlocks_append`: the blocks closed within some cells do not depend on what follows.
* `scanBodies_append`: the same for the scans of two texts.
-/

namespace PropertyIndex.Source

open Text

/-! ## The cells of a longer text -/

/-- Two lists of cells begin alike.  Behind the common part the first one goes on with cells that
hold the same characters in the second one, and no closing brace shows among them. -/
def SameStart (cells others : List Cell) : Prop :=
  ∃ front last last' more, cells = front ++ last ∧ others = front ++ (last' ++ more) ∧
    source last' = source last ∧ (∀ c ∈ visible last, c ≠ '}') ∧ ∀ c ∈ visible last', c ≠ '}'

section Mask

variable {cells others : List Cell}

theorem SameStart.cons (h : SameStart cells others) (cell : Cell) :
    SameStart (cell :: cells) (cell :: others) := by
  obtain ⟨front, last, last', more, rfl, rfl, hsource, hlast, hlast'⟩ := h
  exact ⟨cell :: front, last, last', more, rfl, rfl, hsource, hlast, hlast'⟩

theorem sameStart_nil (others : List Cell) : SameStart [] others :=
  ⟨[], [], [], others, rfl, rfl, rfl, fun _ h => absurd h List.not_mem_nil,
    fun _ h => absurd h List.not_mem_nil⟩

/-- A slash at the end of a text may begin a comment in a longer one. -/
theorem sameStart_slash (part : Part) (more : List Cell) :
    SameStart [⟨'/', .code⟩] (⟨'/', part⟩ :: more) := by
  refine ⟨[], [⟨'/', .code⟩], [⟨'/', part⟩], more, rfl, rfl, rfl, ?_, ?_⟩
  · exact List.forall_mem_singleton.2 (by decide)
  · cases part with
    | code => exact List.forall_mem_singleton.2 (by decide)
    | literal => exact List.forall_mem_singleton.2 (by decide)
    | comment => exact List.forall_mem_singleton.2 (by decide)

theorem maskFrom_slash (suffix : List Char) :
    ∃ part more, maskFrom .code ('/' :: suffix) = ⟨'/', part⟩ :: more := by
  rcases suffix with _ | ⟨c, suffix⟩
  · exact ⟨_, _, rfl⟩
  by_cases hline : c = '/'
  · subst hline
    exact ⟨_, _, rfl⟩
  by_cases hblock : c = '*'
  · subst hblock
    exact ⟨_, _, rfl⟩
  · rw [maskFrom]
    · exact ⟨_, _, rfl⟩
    · exact fun _ _ h => hline (List.cons.inj h).1
    · exact fun _ _ h => hblock (List.cons.inj h).1

theorem maskFrom_star (suffix : List Char) :
    ∃ more, maskFrom .blockComment ('*' :: suffix) = ⟨'*', .comment⟩ :: more := by
  rcases suffix with _ | ⟨c, suffix⟩
  · exact ⟨_, rfl⟩
  by_cases hclose : c = '/'
  · subst hclose
    exact ⟨_, rfl⟩
  · rw [maskFrom]
    · exact ⟨_, rfl⟩
    · exact fun _ _ h => hclose (List.cons.inj h).1

/-- Only the last slash of a text can be read otherwise in a longer one. -/
theorem sameStart_maskFrom (region : Region) (text suffix : List Char) :
    SameStart (maskFrom region text) (maskFrom region (text ++ suffix)) := by
  fun_induction maskFrom region text with
  | case1 region => exact sameStart_nil _
  | case2 text ih | case3 text ih | case10 text ih => exact (ih.cons _).cons _
  | case4 c text hline hblock ih =>
    by_cases hlast : c = '/' → text ≠ []
    · rw [List.cons_append, maskFrom]
      · exact ih.cons _
      · exact neighbour_append hline hlast suffix
      · exact neighbour_append hblock hlast suffix
    · obtain ⟨rfl, hnil⟩ := Classical.not_imp.1 hlast
      obtain rfl := not_ne_iff.1 hnil
      obtain ⟨part, more, hmask⟩ := maskFrom_slash suffix
      rw [List.singleton_append, hmask]
      exact sameStart_slash part more
  | case5 quote c text hends ih =>
    rw [List.cons_append, maskFrom, if_pos hends]
    exact ih.cons _
  | case6 quote c text hends ih =>
    rw [List.cons_append, maskFrom, if_neg hends]
    exact ih.cons _
  | case7 quote c text ih =>
    rw [List.cons_append, maskFrom]
    exact ih.cons _
  | case8 c text hfeed ih =>
    rw [List.cons_append, maskFrom, if_pos hfeed]
    exact ih.cons _
  | case9 c text hfeed ih =>
    rw [List.cons_append, maskFrom, if_neg hfeed]
    exact ih.cons _
  | case11 c text hclose ih =>
    by_cases hlast : c = '*' → text ≠ []
    · rw [List.cons_append, maskFrom]
      · exact ih.cons _
      · exact neighbour_append hclose hlast suffix
    · obtain ⟨rfl, hnil⟩ := Classical.not_imp.1 hlast
      obtain rfl := not_ne_iff.1 hnil
      obtain ⟨more, hmask⟩ := maskFrom_star suffix
      rw [List.singleton_append, hmask]
      exact (sameStart_nil more).cons _

end Mask

/-! ## Offsets of cells -/

section Offsets

variable {first second cells front last more pre tail : List Cell} {closing : Cell}

theorem source_append (cells others : List Cell) :
    source (cells ++ others) = source cells ++ source others :=
  List.map_append

/-- Of two parts from the front of some cells, the one with the smaller width begins the other. -/
theorem prefix_of_width_le (hfirst : first <+: cells) (hsecond : second <+: cells)
    (hwidth : width (source first) ≤ width (source second)) : first <+: second := by
  refine List.prefix_of_prefix_length_le hfirst hsecond ?_
  obtain ⟨rest, rfl⟩ := hfirst
  obtain ⟨behind, hbehind⟩ := hsecond
  have htext : source first ++ source rest = source second ++ source behind := by
    rw [← source_append, ← source_append, hbehind]
  obtain ⟨more, hmore⟩ := exists_append_of_width_le htext hwidth
  have hlength := congrArg List.length hmore
  rw [List.length_append, source, source, List.length_map, List.length_map] at hlength
  omega

theorem width_source_le (h : first <+: second) :
    width (source first) ≤ width (source second) := by
  obtain ⟨rest, rfl⟩ := h
  rw [source_append, width_append]
  exact Nat.le_add_right _ _

/-- A closing brace that stands no later than some cells without one stands in front of them. -/
theorem prefix_of_closing (hcells : pre ++ [closing] <+: front ++ (last ++ more))
    (hclosing : closing.shown = '}') (hlast : ∀ c ∈ visible last, c ≠ '}')
    (hwidth : width (source (pre ++ [closing])) ≤ width (source (front ++ last))) :
    pre ++ [closing] <+: front := by
  have hprefix : pre ++ [closing] <+: front ++ last := by
    refine prefix_of_width_le hcells ?_ hwidth
    rw [← List.append_assoc]
    exact List.prefix_append _ _
  rcases List.prefix_or_prefix_of_prefix hprefix (List.prefix_append front last) with
    h | ⟨part, hpart⟩
  · exact h
  · rcases part.eq_nil_or_concat with rfl | ⟨init, cell, rfl⟩
    · rw [← hpart, List.append_nil]
    · -- The brace would be among the cells that show none.
      rw [List.concat_eq_append, ← List.append_assoc] at hpart
      obtain ⟨rfl, hcell⟩ := List.append_inj' hpart rfl
      obtain rfl := List.head_eq_of_cons_eq hcell
      rw [List.append_assoc] at hprefix
      have hmem : cell ∈ last :=
        ((List.prefix_append_right_inj front).1 hprefix).subset
          (List.mem_append_right _ List.mem_cons_self)
      exact absurd hclosing (hlast _ (List.mem_map_of_mem hmem))

end Offsets

/-! ## Closed blocks -/

/-- The block of a place whose cells behind the name are given. -/
def Occurrence.cut (place : Occurrence) (found : List Cell × Bool) : Block :=
  let before := source place.before.reverse
  let text := source (place.header ++ found.1)
  { name := place.name
    start := width before
    stop := width before + width text
    startLine := lineNumber before
    endLine := lineNumber (before ++ text.dropLast)
    text := String.ofList text
    terminated := found.2 }

/-- The block of a place, if it is closed up to an offset. -/
def Occurrence.closedBlock? (limit : Nat) (place : Occurrence) : Option Block :=
  (place.block? .body).filter fun block => block.terminated && decide (block.stop ≤ limit)

/-- The blocks of the places behind some cells that are closed up to an offset. -/
def closedBlocks (keyword : List Char) (limit : Nat) (before cells : List Cell) : List Block :=
  (occurrencesFrom keyword before 0 false cells).filterMap (·.closedBlock? limit)

section Closed

variable {keyword : List Char} {before cells front last more rest : List Cell} {limit : Nat}
  {place : Occurrence} {block : Block}

theorem block?_body_eq (place : Occurrence) :
    place.block? .body = (bodyBlock? place.rest).map place.cut :=
  rfl

theorem stop_cut (place : Occurrence) (found : List Cell × Bool) :
    (place.cut found).stop =
      width (source (place.before.reverse ++ (place.header ++ found.1))) := by
  rw [source_append, width_append]
  rfl

theorem closedBlock?_eq_some_iff : place.closedBlock? limit = some block ↔
    ∃ taken, ClosesWith [] place.rest taken ∧ block = place.cut (taken, true) ∧
      width (source (place.before.reverse ++ (place.header ++ taken))) ≤ limit := by
  rw [Occurrence.closedBlock?, Option.filter_eq_some_iff, block?_body_eq, Option.map_eq_some_iff,
    Bool.and_eq_true, decide_eq_true_eq]
  constructor
  · rintro ⟨⟨⟨taken, terminated⟩, htaken, rfl⟩, hterminated, hstop⟩
    obtain rfl : terminated = true := hterminated
    rw [stop_cut] at hstop
    exact ⟨taken, bodyBlock?_eq_some_true_iff.1 htaken, rfl, hstop⟩
  · rintro ⟨taken, hcloses, rfl, hstop⟩
    refine ⟨⟨(taken, true), bodyBlock?_eq_some_true_iff.2 hcloses, rfl⟩, rfl, ?_⟩
    rw [stop_cut]
    exact hstop

/-- The cells of a closed block end with a closing brace. -/
theorem ends_of_closesWith (hplace : IsPlaceBehind before cells place) {taken : List Cell}
    (hcloses : ClosesWith [] place.rest taken) :
    ∃ pre closing, place.before.reverse ++ (place.header ++ taken) = pre ++ [closing] ∧
      closing.shown = '}' ∧ pre ++ [closing] <+: before.reverse ++ cells ∧
      before.length ≤ pre.length := by
  obtain ⟨⟨more, hrest⟩, front, closing, rfl, hclosing⟩ := hcloses.ends
  refine ⟨place.before.reverse ++ (place.header ++ front), closing, ?_, hclosing, ⟨more, ?_⟩, ?_⟩
  · rw [List.append_assoc, List.append_assoc]
  · rw [hplace.eq, ← hrest]
    simp only [List.append_assoc]
  · rw [List.length_append, List.length_reverse]
    exact Nat.le_add_right_of_le hplace.length_le

/-- No block is closed within cells that show no closing brace. -/
theorem closedBlocks_eq_nil (hkeyword : IsKeyword keyword)
    (hfront : ∀ c ∈ visible front, c ≠ '}') (rest : List Cell) :
    closedBlocks keyword (width (source (before.reverse ++ front))) before (front ++ rest) =
      [] := by
  refine List.filterMap_eq_nil_iff.2 fun place hplace => ?_
  have hbehind := (isPlaceBehind_and_pairwise hkeyword).1 place hplace
  rw [Option.eq_none_iff_forall_ne_some]
  intro block hblock
  obtain ⟨taken, hcloses, -, hstop⟩ := closedBlock?_eq_some_iff.1 hblock
  obtain ⟨pre, closing, heq, hclosing, hprefix, hlength⟩ := ends_of_closesWith hbehind hcloses
  rw [heq] at hstop
  have hle := (prefix_of_closing hprefix hclosing hfront hstop).length_le
  rw [List.length_append, List.length_reverse, List.length_singleton] at hle
  omega

/-- At the end of the offsets cells that show no closing brace do not count. -/
theorem closedBlocks_of_last (hkeyword : IsKeyword keyword) (hlast : ∀ c ∈ visible last, c ≠ '}')
    (more : List Cell) :
    closedBlocks keyword (width (source (front ++ last))) [] (front ++ (last ++ more)) =
      closedBlocks keyword (width (source front)) [] (front ++ (last ++ more)) := by
  refine List.filterMap_congr fun place hplace => ?_
  have hbehind := (isPlaceBehind_and_pairwise hkeyword).1 place hplace
  refine Option.ext fun block => ?_
  rw [closedBlock?_eq_some_iff, closedBlock?_eq_some_iff]
  refine exists_congr fun taken => and_congr_right fun hcloses => and_congr_right fun _ => ?_
  obtain ⟨pre, closing, heq, hclosing, hprefix, -⟩ := ends_of_closesWith hbehind hcloses
  rw [heq]
  constructor
  · intro hstop
    exact width_source_le (prefix_of_closing hprefix hclosing hlast hstop)
  · intro hstop
    exact hstop.trans (width_source_le (List.prefix_append front last))

end Closed

/-! ## Places in longer cells -/

section Places

variable {keyword : List Char} {before cells rest : List Cell} {limit : Nat} {place : Occurrence}

/-- A place that leaves some cells is the same in longer cells. -/
theorem occurrenceAt_append_some (hkeyword : IsKeyword keyword)
    (h : occurrenceAt keyword before cells = some place) (hne : place.rest ≠ [])
    (rest : List Cell) : occurrenceAt keyword before (cells ++ rest) =
      some { place with rest := place.rest ++ rest } := by
  obtain ⟨word, behind, rfl, hword, halone, rfl⟩ := exists_of_occurrenceAt hkeyword h
  have hgap : (behind.dropWhile fun cell => isBlank cell.shown) ≠ [] := by
    intro hnil
    rw [place, hnil] at hne
    exact hne rfl
  have hbehind : visible behind ≠ [] := by
    intro hnil
    rw [List.map_eq_nil_iff.1 hnil] at hgap
    exact hgap rfl
  rw [List.append_assoc, occurrenceAt_append hkeyword hword, visible_append,
    List.head?_append_of_ne_nil _ hbehind, halone, (run_append hgap rest).1,
    (run_append hgap rest).2]
  have hname := run_append hne rest
  rw [place, hname.1, hname.2]
  rfl

/-- Where only longer cells have a place, those that are there are part of its keyword. -/
theorem isIdentChar_of_occurrenceAt_append (hkeyword : IsKeyword keyword)
    (hnone : occurrenceAt keyword before cells = none)
    (h : occurrenceAt keyword before (cells ++ rest) = some place) :
    ∀ c ∈ visible cells, isIdentChar c = true := by
  obtain ⟨word, behind, hcells, hword, halone, -⟩ := exists_of_occurrenceAt hkeyword h
  rcases List.append_eq_append_iff.1 hcells with ⟨part, hpart, -⟩ | ⟨ahead, rfl, rfl⟩
  · intro c hc
    refine hkeyword.ident c ?_
    rw [← hword, hpart, visible_append]
    exact List.mem_append_left _ hc
  · rcases eq_or_ne ahead [] with rfl | hne
    · rw [List.append_nil, hword]
      exact hkeyword.ident
    · -- Already in the shorter cells something is behind the keyword.
      have hahead : visible ahead ≠ [] := fun hnil => hne (List.map_eq_nil_iff.1 hnil)
      rw [visible_append, List.head?_append_of_ne_nil _ hahead] at halone
      rw [occurrenceAt_append hkeyword hword, halone] at hnone
      exact absurd hnone (Option.some_ne_none _)

/-- What a place takes up shows no closing brace. -/
theorem ne_of_mem_header (hkeyword : IsKeyword keyword)
    (h : occurrenceAt keyword before cells = some place) :
    ∀ c ∈ visible place.header, c ≠ '}' := by
  obtain ⟨word, behind, -, hword, -, rfl⟩ := exists_of_occurrenceAt hkeyword h
  intro c hc
  rw [place, visible_append, visible_append, List.mem_append, List.mem_append, hword] at hc
  have hclass : isIdentChar c = true ∨ isBlank c = true := by
    rcases hc with (hc | hc) | hc
    · exact Or.inl (hkeyword.ident c hc)
    · obtain ⟨cell, hcell, rfl⟩ := List.mem_map.1 hc
      exact Or.inr (List.mem_takeWhile_imp (p := fun cell : Cell => isBlank cell.shown) hcell)
    · obtain ⟨cell, hcell, rfl⟩ := List.mem_map.1 hc
      exact Or.inl (List.mem_takeWhile_imp (p := fun cell : Cell => isIdentChar cell.shown) hcell)
  rintro rfl
  exact absurd hclass (by decide)

/-- Whether a place has a closed block does not depend on what follows the offset. -/
theorem closedBlock?_append (rest : List Cell)
    (hlimit : limit = width (source (place.before.reverse ++ (place.header ++ place.rest)))) :
    Occurrence.closedBlock? limit { place with rest := place.rest ++ rest } =
      place.closedBlock? limit := by
  refine Option.ext fun block => ?_
  rw [closedBlock?_eq_some_iff, closedBlock?_eq_some_iff]
  refine exists_congr fun taken => ?_
  constructor
  · rintro ⟨hcloses, rfl, hstop⟩
    have hprefix : taken <+: place.rest := by
      refine prefix_of_width_le hcloses.ends.1 (List.prefix_append _ rest) ?_
      rw [hlimit] at hstop
      simp only [source_append, width_append] at hstop
      omega
    exact ⟨(closesWith_append_iff hprefix).1 hcloses, rfl, hstop⟩
  · rintro ⟨hcloses, rfl, hstop⟩
    exact ⟨(closesWith_append_iff hcloses.ends.1).2 hcloses, rfl, hstop⟩

end Places

/-! ## The blocks of a longer text -/

/-- The blocks that are closed within some cells do not depend on what follows them. -/
theorem closedBlocks_append {keyword : List Char} (hkeyword : IsKeyword keyword)
    (before cells rest : List Cell) :
    closedBlocks keyword (width (source (before.reverse ++ cells))) before (cells ++ rest) =
      closedBlocks keyword (width (source (before.reverse ++ cells))) before cells := by
  -- Without a closing brace there is no block in either case.
  have hplain : ∀ before cells, (∀ c ∈ visible cells, c ≠ '}') →
      closedBlocks keyword (width (source (before.reverse ++ cells))) before (cells ++ rest) =
        closedBlocks keyword (width (source (before.reverse ++ cells))) before cells := by
    intro before cells hcells
    have hnil := @closedBlocks_eq_nil keyword before cells hkeyword hcells []
    rw [List.append_nil] at hnil
    rw [closedBlocks_eq_nil hkeyword hcells, hnil]
  induction before, cells using search_induction hkeyword with
  | nil before => exact hplain before [] fun _ h => absurd h List.not_mem_nil
  | pass before cell cells hnone ih =>
    rcases hlater : occurrenceAt keyword before (cell :: cells ++ rest) with _ | place
    · rw [List.reverse_cons, List.append_assoc, List.singleton_append] at ih
      rw [List.cons_append] at hlater ⊢
      rw [closedBlocks, occurrencesFrom_cons hlater, closedBlocks, occurrencesFrom_cons hnone]
      exact ih
    · refine hplain before (cell :: cells) fun c hc => ?_
      have hident := isIdentChar_of_occurrenceAt_append hkeyword hnone hlater c hc
      rintro rfl
      exact Bool.noConfusion hident
  | found place hplace ih =>
    rcases eq_or_ne place.rest [] with hnil | hne
    · refine hplain place.before (place.header ++ place.rest) ?_
      rw [hnil, List.append_nil]
      exact ne_of_mem_header hkeyword hplace
    · have hlater := occurrenceAt_append_some hkeyword hplace hne rest
      rw [List.reverse_append, List.reverse_reverse, List.append_assoc] at ih
      rw [closedBlocks, occurrencesFrom_of_some hkeyword hlater, closedBlocks,
        occurrencesFrom_of_some hkeyword hplace, List.filterMap_cons, List.filterMap_cons,
        closedBlock?_append rest rfl]
      rw [closedBlocks, closedBlocks] at ih
      rw [ih]

/-- The terminated blocks of a scan up to an offset. -/
theorem filter_scanBodies (keyword text : String) (limit : Nat) :
    (scanBodies keyword text).filter
        (fun block => block.terminated && decide (block.stop ≤ limit)) =
      closedBlocks keyword.toList limit [] (mask text.toList) := by
  rw [scanBodies, scan, List.filter_filterMap]
  rfl

/-- What follows a text cannot disturb its finished blocks: those that are terminated in the text
are the blocks of any longer text that are terminated and end within it. -/
theorem scanBodies_append (keyword text suffix : String) (hkeyword : IsKeyword keyword.toList) :
    (scanBodies keyword text).filter (·.terminated) =
      (scanBodies keyword (text ++ suffix)).filter
        fun block => block.terminated && decide (block.stop ≤ text.utf8ByteSize) := by
  have hwithin : (scanBodies keyword text).filter (·.terminated) =
      (scanBodies keyword text).filter
        fun block => block.terminated && decide (block.stop ≤ text.utf8ByteSize) := by
    refine List.filter_congr fun block hblock => ?_
    have hle := ((scan_faithful .body keyword text hkeyword).2 block hblock).stop_le
    rw [decide_eq_true hle, Bool.and_true]
  obtain ⟨front, last, last', more, hcells, hothers, hsource, hlast, hlast'⟩ :=
    sameStart_maskFrom .code text.toList suffix.toList
  have hsize : text.utf8ByteSize = width (source (front ++ last)) := by
    rw [utf8ByteSize_eq, ← hcells]
    exact congrArg width (source_mask text.toList).symm
  have hsize' : text.utf8ByteSize = width (source (front ++ last')) := by
    rw [hsize, source_append, source_append, hsource]
  have hmore := @closedBlocks_append keyword.toList hkeyword [] front (last' ++ more)
  have hfront := @closedBlocks_append keyword.toList hkeyword [] front last
  rw [List.reverse_nil, List.nil_append] at hmore hfront
  rw [hwithin, filter_scanBodies, filter_scanBodies, String.toList_append]
  calc closedBlocks keyword.toList text.utf8ByteSize [] (mask text.toList)
      = closedBlocks keyword.toList (width (source front)) [] (front ++ last) := by
        have h := @closedBlocks_of_last keyword.toList front last hkeyword hlast []
        rw [List.append_nil] at h
        rw [mask, hcells, hsize, h]
    _ = closedBlocks keyword.toList (width (source front)) [] (front ++ (last' ++ more)) := by
        rw [hfront, hmore]
    _ = closedBlocks keyword.toList text.utf8ByteSize []
          (mask (text.toList ++ suffix.toList)) := by
        rw [mask, hothers, hsize', closedBlocks_of_last hkeyword hlast']

/-- A text that ends with a slash inside a clause that is still open. -/
def cutRules : String :=
  "rule é \x7b\x7d rule a \x7b x; \x7d rule b filtered \x7b y /"

/-- What follows begins a comment with that slash and closes the clause. -/
def restOfRules : String :=
  "* \x7d */ \x7d \x7b z; \x7d rule c \x7b\x7d"

theorem scanBodies_append_cutRules :
    IsKeyword "rule".toList ∧
      (scanBodies "rule" cutRules).map (fun block =>
          (block.name, block.start, block.stop, block.terminated)) =
        [("", 0, 10, true), ("a", 11, 24, true), ("b", 25, 46, false)] ∧
      (scanBodies "rule" (cutRules ++ restOfRules)).map (fun block =>
          (block.name, block.start, block.stop, block.terminated)) =
        [("", 0, 10, true), ("a", 11, 24, true), ("b", 25, 61, true), ("c", 62, 71, true)] ∧
      (scanBodies "rule" cutRules).filter (·.terminated) =
        (scanBodies "rule" (cutRules ++ restOfRules)).filter
          fun block => block.terminated && decide (block.stop ≤ cutRules.utf8ByteSize) := by
  have hkeyword : IsKeyword "rule".toList :=
    ⟨by decide, List.all_eq_true.1 (by decide)⟩
  exact ⟨hkeyword, by decide +kernel, by decide +kernel,
    scanBodies_append "rule" cutRules restOfRules hkeyword⟩

end PropertyIndex.Source
