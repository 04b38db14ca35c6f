import PropertyIndex.Proofs.BlockPosition
import PropertyIndex.Proofs.HeaderReading

/-!
# The blocks of any text

What a scan for blocks with a body gives can be read off the masked copy of a text alone, whatever
the text is.  The keyword is looked for from the left, each of its matches has a header behind it,
and where that header comes to a body the braces of the body tell where the block ends.

* `Match`, `matchAt`, `Finds`: the matches of a keyword; `Finds.unique` says that there is one list
  of them.
* `HasExtent`, `HasOutcome`: what a match gives.
* `takeWhile_shownText`, `width_shownText`: the masked copy of cells that are taken from others.
* `finds_occurrencesFrom`: the places that a search finds are the matches.
* `scanBodies_extent`: the scan as a whole.
-/

namespace PropertyIndex.Source

open Text

/-! ## Matches -/

/-- A match of a keyword in a text: what stands in front of it, what it takes up, the name at its
end and what is behind it. -/
structure Match where
  before : List Char
  taken : List Char
  name : List Char
  rest : List Char

/-- The match of a keyword between two parts of a text.  Blanks may follow the keyword, and behind
them a name; both are as long as they can be. -/
def matchAt (keyword before behind : List Char) : Match :=
  let afterGap := behind.dropWhile isBlank
  let name := afterGap.takeWhile isIdentChar
  ⟨before, keyword ++ behind.takeWhile isBlank ++ name, name, afterGap.dropWhile isIdentChar⟩

/-- What stands between two parts of a text is a whole word. -/
def StandsAlone (before behind : List Char) : Prop :=
  before.getLast?.any isWordChar = false ∧ behind.head?.any isWordChar = false

/-- The matches of a keyword in what follows the first part of a text, from the left and without
overlap. -/
inductive Finds (keyword : List Char) : List Char → List Char → List Match → Prop
  | nil (before : List Char) : Finds keyword before [] []
  /-- A character at which the keyword is no whole word is passed over. -/
  | pass {before text : List Char} {c : Char} {found : List Match}
    (none : ∀ behind, c :: text = keyword ++ behind → ¬ StandsAlone before behind)
    (later : Finds keyword (before ++ [c]) text found) : Finds keyword before (c :: text) found
  /-- Behind a match the search goes on with what is behind its name. -/
  | take {before behind : List Char} {found : List Match} (alone : StandsAlone before behind)
    (later : Finds keyword (before ++ (matchAt keyword before behind).taken)
      (matchAt keyword before behind).rest found) :
    Finds keyword before (keyword ++ behind) (matchAt keyword before behind :: found)

section Matches

variable {keyword before text : List Char} {found other : List Match}

theorem finds_nil_iff (hkeyword : keyword ≠ []) : Finds keyword before [] found ↔ found = [] := by
  constructor
  · intro h
    generalize htext : ([] : List Char) = text at h
    cases h with
    | nil => rfl
    | pass => exact absurd htext.symm (List.cons_ne_nil _ _)
    | take => exact absurd (List.append_eq_nil_iff.1 htext.symm).1 hkeyword
  · rintro rfl
    exact Finds.nil before

/-- What is found from some character on. -/
theorem finds_cons {c : Char} (h : Finds keyword before (c :: text) found) :
    ((∀ behind, c :: text = keyword ++ behind → ¬ StandsAlone before behind) ∧
      Finds keyword (before ++ [c]) text found) ∨
    ∃ behind later, c :: text = keyword ++ behind ∧ StandsAlone before behind ∧
      found = matchAt keyword before behind :: later ∧
      Finds keyword (before ++ (matchAt keyword before behind).taken)
        (matchAt keyword before behind).rest later := by
  generalize htext : c :: text = whole at h
  cases h with
  | nil => exact absurd htext (List.cons_ne_nil _ _)
  | pass hnone hlater =>
    obtain ⟨rfl, rfl⟩ := List.cons.inj htext
    exact Or.inl ⟨hnone, hlater⟩
  | take halone hlater => exact Or.inr ⟨_, _, rfl, halone, rfl, hlater⟩

/-- The search has one result. -/
theorem Finds.unique (hkeyword : keyword ≠ []) (h : Finds keyword before text found)
    (hother : Finds keyword before text other) : other = found := by
  induction h generalizing other with
  | nil before => exact (finds_nil_iff hkeyword).1 hother
  | pass hnone hlater ih =>
    rcases finds_cons hother with ⟨-, hother⟩ | ⟨behind, later, heq, halone, -, -⟩
    · exact ih hother
    · exact absurd halone (hnone behind heq)
  | @take before behind found halone hlater ih =>
    obtain ⟨c, keyword, rfl⟩ := List.exists_cons_of_ne_nil hkeyword
    rcases finds_cons hother with ⟨hnone, -⟩ | ⟨behind', later, heq, -, rfl, hlater'⟩
    · exact absurd halone (hnone behind rfl)
    · have hbehind : (c :: keyword) ++ behind = (c :: keyword) ++ behind' := heq
      obtain rfl := List.append_cancel_left hbehind
      rw [ih hlater']

end Matches

/-! ## What a match gives -/

/-- Where a block ends whose body is behind some part of a text.  It ends with the group that the
body begins with, if the braces of the body are equal in number at some place, and otherwise with
the text. -/
structure HasExtent (text : String) (front body : List Char) (block : Block) : Prop where
  terminated_iff : block.terminated = true ↔
    ∃ part, part <+: body ∧ part ≠ [] ∧ part.count '{' = part.count '}'
  stop_group : block.terminated = true → ∃ group, IsClosedGroup group ∧ group <+: body ∧
    block.stop = width (front ++ group)
  stop_text : block.terminated = false → block.stop = text.utf8ByteSize

/-- What a match gives: no block if a header without a body follows it, and otherwise one. -/
structure HasOutcome (text : String) (found : Match) (outcome : Option Block) : Prop where
  eq_none_iff : outcome = none ↔ IsBodiless found.rest
  extent : ∀ block, outcome = some block →
    block.name = String.ofList found.name ∧ block.start = width found.before ∧
      ∃ header body, HasBody found.rest header body ∧
        HasExtent text (found.before ++ found.taken ++ header) body block

/-! ## The masked copy of cells -/

section Cells

variable {p : Char → Bool} {cell : Cell} {cells : List Cell}

/-- A run in the masked copy is that of the cells which show it. -/
theorem takeWhile_shownText (p : Char → Bool) (cells : List Cell) :
    (shownText cells).takeWhile p = shownText (cells.takeWhile fun cell => p cell.shown) ∧
      (shownText cells).dropWhile p = shownText (cells.dropWhile fun cell => p cell.shown) := by
  induction cells with
  | nil => exact ⟨rfl, rfl⟩
  | cons cell cells ih =>
    rw [shownText_cons]
    by_cases hcell : p cell.shown = true
    · have hall : ∀ c ∈ cell.shownText, p c = true := forall_mem_shownText hcell
      rw [List.takeWhile_append_of_pos hall, List.dropWhile_append_of_pos hall, ih.1, ih.2,
        List.takeWhile_cons_of_pos (p := fun cell : Cell => p cell.shown) hcell,
        List.dropWhile_cons_of_pos (p := fun cell : Cell => p cell.shown) hcell, shownText_cons]
      exact ⟨rfl, rfl⟩
    · have hhead : (shownText (cell :: cells)).head?.any p = false := by
        rw [head?_shownText]
        exact Bool.eq_false_iff.2 hcell
      rw [shownText_cons] at hhead
      rw [takeWhile_eq_nil hhead, dropWhile_eq_self hhead,
        List.takeWhile_cons_of_neg (p := fun cell : Cell => p cell.shown) hcell,
        List.dropWhile_cons_of_neg (p := fun cell : Cell => p cell.shown) hcell, shownText_cons]
      exact ⟨rfl, rfl⟩

theorem width_replicate_space (n : Nat) : width (List.replicate n ' ') = n := by
  induction n with
  | zero => rfl
  | succ n ih =>
    rw [List.replicate_succ, width, ih, Nat.add_comm]
    rfl

/-- The masked copy has the offsets of the text. -/
theorem width_shownText (cells : List Cell) : width (shownText cells) = width (source cells) := by
  induction cells with
  | nil => rfl
  | cons cell cells ih =>
    have hcell : width cell.shownText = cell.char.utf8Size := by
      rw [Cell.shownText]
      split_ifs
      · rfl
      · exact width_replicate_space _
    rw [shownText_cons, width_append, hcell, ih]
    rfl

/-- Cells that show no blank show the characters that they hold. -/
theorem source_eq_shownText (h : ∀ c ∈ visible cells, c ≠ ' ') :
    source cells = shownText cells := by
  rw [shownText_eq_visible h]
  refine List.map_congr_left fun cell hcell => ?_
  exact char_of_shown rfl (h cell.shown (List.mem_map_of_mem hcell))

end Cells

/-! ## The matches of a keyword -/

/-- A place as it stands in the masked copy. -/
def Occurrence.shownMatch (place : Occurrence) : Match :=
  ⟨shownText place.before.reverse, shownText place.header, place.name.toList,
    shownText place.rest⟩

section Search

variable {keyword : List Char} {before cells : List Cell} {found : List Match}

/-- Cells that show a keyword put it into the masked copy. -/
theorem shownText_keyword (hkeyword : IsKeyword keyword) {word : List Cell}
    (hword : visible word = keyword) : shownText word = keyword := by
  rw [shownText_eq_visible, hword]
  rw [hword]
  exact fun c hc => ne_space_of_isIdentChar (hkeyword.ident c hc)

/-- The word in front of a place stands alone exactly when no cell of a word is next to it. -/
theorem standsAlone_iff {behind : List Cell} :
    StandsAlone (shownText before.reverse) (shownText behind) ↔
      ((visible before).head?.any isWordChar || (visible behind).head?.any isWordChar) = false := by
  rw [StandsAlone, Bool.or_eq_false_iff, getLast?_shownText, head?_shownText, visible_reverse,
    List.getLast?_reverse]

/-- The place at a keyword is its match. -/
theorem shownMatch_place {word behind : List Cell} (hword : visible word = keyword)
    (hkeyword : IsKeyword keyword) :
    (place before word (behind.takeWhile fun cell => isBlank cell.shown)
      (behind.dropWhile fun cell => isBlank cell.shown)).shownMatch =
      matchAt keyword (shownText before.reverse) (shownText behind) := by
  have hname : ∀ c ∈ visible ((behind.dropWhile fun cell => isBlank cell.shown).takeWhile
      fun cell => isIdentChar cell.shown), c ≠ ' ' := by
    intro c hc
    obtain ⟨cell, hcell, rfl⟩ := List.mem_map.1 hc
    exact ne_space_of_isIdentChar
      (List.mem_takeWhile_imp (p := fun cell : Cell => isIdentChar cell.shown) hcell)
  rw [matchAt, Occurrence.shownMatch, place]
  simp only [String.toList_ofList, shownText_append, (takeWhile_shownText _ _).1,
    (takeWhile_shownText _ _).2, source_eq_shownText hname, shownText_keyword hkeyword hword]

/-- At a place the keyword stands alone. -/
theorem matchAt_of_occurrenceAt (hkeyword : IsKeyword keyword) {place : Occurrence}
    (h : occurrenceAt keyword before cells = some place) :
    ∃ behind, shownText cells = keyword ++ behind ∧
      StandsAlone (shownText before.reverse) behind ∧
      place.shownMatch = matchAt keyword (shownText before.reverse) behind := by
  obtain ⟨word, behind, rfl, hword, halone, rfl⟩ := exists_of_occurrenceAt hkeyword h
  refine ⟨shownText behind, ?_, standsAlone_iff.2 halone, shownMatch_place hword hkeyword⟩
  rw [shownText_append, shownText_keyword hkeyword hword]

/-- Where there is no place the keyword does not stand alone. -/
theorem not_standsAlone_of_occurrenceAt (hkeyword : IsKeyword keyword)
    (h : occurrenceAt keyword before cells = none) {behind : List Char}
    (hcells : shownText cells = keyword ++ behind) :
    ¬ StandsAlone (shownText before.reverse) behind := by
  intro halone
  obtain ⟨word, behind, rfl, hword, rfl⟩ := exists_cells_of_prefix
    (fun c hc => ne_space_of_isIdentChar (hkeyword.ident c hc)) hcells
  rw [occurrenceAt_append hkeyword hword, standsAlone_iff.1 halone] at h
  exact absurd h (Option.some_ne_none _)

/-- No keyword begins with a space. -/
theorem Finds.spaces (hkeyword : IsKeyword keyword) {before text : List Char} (n : Nat)
    (h : Finds keyword (before ++ List.replicate n ' ') text found) :
    Finds keyword before (List.replicate n ' ' ++ text) found := by
  induction n generalizing before with
  | zero => rwa [List.replicate_zero, List.append_nil] at h
  | succ n ih =>
    rw [List.replicate_succ, List.append_cons] at h
    rw [List.replicate_succ, List.cons_append]
    refine Finds.pass (fun behind hbehind => ?_) (ih h)
    obtain ⟨c, keyword, rfl⟩ := List.exists_cons_of_ne_nil hkeyword.ne_nil
    obtain ⟨rfl, -⟩ := List.cons.inj hbehind
    exact absurd rfl (ne_space_of_isIdentChar (hkeyword.ident ' ' List.mem_cons_self))

/-- The places that the search finds are the matches of the masked copy. -/
theorem finds_occurrencesFrom (hkeyword : IsKeyword keyword) (before cells : List Cell) :
    Finds keyword (shownText before.reverse) (shownText cells)
      ((occurrencesFrom keyword before 0 false cells).map Occurrence.shownMatch) := by
  induction before, cells using search_induction hkeyword with
  | nil before =>
    rw [occurrencesFrom_nil hkeyword]
    exact Finds.nil _
  | pass before cell cells hnone ih =>
    have hcell : shownText [cell] = cell.shownText := List.append_nil _
    have hpass := fun behind hbehind =>
      @not_standsAlone_of_occurrenceAt _ _ _ hkeyword hnone behind hbehind
    rw [List.reverse_cons, shownText_append, hcell] at ih
    rw [occurrencesFrom_cons hnone, shownText_cons]
    rw [shownText_cons] at hpass
    rcases cell.shownText_eq with ⟨n, htext, -⟩ | htext
    · rw [htext] at ih ⊢
      exact Finds.spaces hkeyword (n + 1) ih
    · rw [htext] at ih hpass ⊢
      exact Finds.pass hpass ih
  | found place hplace ih =>
    obtain ⟨behind, hcells, halone, hmatch⟩ := matchAt_of_occurrenceAt hkeyword hplace
    rw [List.reverse_append, List.reverse_reverse, shownText_append] at ih
    rw [occurrencesFrom_of_some hkeyword hplace, List.map_cons, hcells, hmatch]
    refine Finds.take halone ?_
    rw [← hmatch]
    exact ih

end Search

/-! ## The blocks of a text -/

section Blocks

variable {text : String} {place : Occurrence} {header body group : List Cell}

/-- The block of a body that closes. -/
theorem hasExtent_of_some (hsplit : splitHeader [] 0 place.rest = some (header, body))
    (hclose : throughClose 0 body = some group) {block : Block}
    (hterminated : block.terminated = true)
    (hstop : block.stop = width (source place.before.reverse) +
      width (source (place.header ++ (header ++ group)))) :
    HasExtent text (shownText place.before.reverse ++ shownText place.header ++ shownText header)
      (shownText body) block := by
  have hhead := (hasBody_of_splitHeader hsplit).2.head
  rw [head?_shownText] at hhead
  obtain ⟨hclosed, more, hbody⟩ := closedGroup_of_throughClose hhead hclose
  have hprefix : shownText group <+: shownText body := by
    rw [hbody, shownText_append]
    exact List.prefix_append _ _
  refine ⟨?_, fun _ => ⟨shownText group, hclosed, hprefix, ?_⟩, ?_⟩
  · exact iff_of_true hterminated ⟨shownText group, hprefix, hclosed.ne_nil, hclosed.balanced⟩
  · rw [hstop, ← width_shownText, ← width_shownText, ← width_append]
    simp only [shownText_append, List.append_assoc]
  · intro hfalse
    exact Bool.noConfusion (hterminated.symm.trans hfalse)

/-- The block of a body that does not close. -/
theorem hasExtent_of_none
    (htext : mask text.toList = place.before.reverse ++ (place.header ++ place.rest))
    (hsplit : splitHeader [] 0 place.rest = some (header, body))
    (hclose : throughClose 0 body = none) {block : Block} (hterminated : block.terminated = false)
    (hstop : block.stop = width (source place.before.reverse) +
      width (source (place.header ++ (header ++ body)))) {front : List Char} :
    HasExtent text front (shownText body) block := by
  have hhead := (hasBody_of_splitHeader hsplit).2.head
  rw [head?_shownText] at hhead
  refine ⟨?_, ?_, fun _ => ?_⟩
  · refine iff_of_false (Bool.eq_false_iff.1 hterminated) ?_
    rintro ⟨part, hpart, hne, hcount⟩
    exact absurd hcount.symm (Nat.ne_of_lt (lt_count_of_throughClose hhead hclose hpart hne))
  · intro htrue
    exact Bool.noConfusion (hterminated.symm.trans htrue)
  · rw [hstop, ← eq_of_splitHeader hsplit, ← width_append, utf8ByteSize_eq,
      ← source_mask text.toList, htext]
    simp only [source, List.map_append]

/-- What a place gives is what its match gives. -/
theorem hasOutcome_block? (text : String) (place : Occurrence)
    (htext : mask text.toList = place.before.reverse ++ (place.header ++ place.rest)) :
    HasOutcome text place.shownMatch (place.block? .body) := by
  have hname : place.name = String.ofList place.shownMatch.name := String.ofList_toList.symm
  have hstart : width (source place.before.reverse) = width place.shownMatch.before :=
    (width_shownText _).symm
  rw [Occurrence.block?, Extent.block?, bodyBlock?]
  rcases hsplit : splitHeader [] 0 place.rest with _ | ⟨header, body⟩
  · exact ⟨iff_of_true rfl (isBodiless_of_splitHeader hsplit), fun _ h =>
      absurd h.symm (Option.some_ne_none _)⟩
  · have hbody := hasBody_of_splitHeader hsplit
    simp only [Option.map_some]
    refine ⟨iff_of_false (Option.some_ne_none _) hbody.not_isBodiless, fun block hblock => ?_⟩
    rcases hclose : throughClose 0 body with _ | group
    · rw [hclose] at hblock
      obtain rfl := Option.some_inj.1 hblock
      exact ⟨hname, hstart, _, _, hbody, hasExtent_of_none htext hsplit hclose rfl rfl⟩
    · rw [hclose] at hblock
      obtain rfl := Option.some_inj.1 hblock
      exact ⟨hname, hstart, _, _, hbody, hasExtent_of_some hsplit hclose rfl rfl⟩

end Blocks

/-- The scan of any text for blocks with a body, by its masked copy.  Each match of the keyword
gives one block or none, and it is told which and where the block ends. -/
theorem scanBodies_extent (keyword text : String) (hkeyword : IsKeyword keyword.toList) :
    ∃ found outcomes, Finds keyword.toList [] (masked text.toList) found ∧
      (∀ other, Finds keyword.toList [] (masked text.toList) other → other = found) ∧
      List.Forall₂ (HasOutcome text) found outcomes ∧
      scanBodies keyword text = outcomes.reduceOption := by
  have hfinds : Finds keyword.toList [] (masked text.toList)
      ((occurrences keyword.toList (mask text.toList)).map Occurrence.shownMatch) :=
    finds_occurrencesFrom hkeyword [] (mask text.toList)
  refine ⟨_, (occurrences keyword.toList (mask text.toList)).map (·.block? .body), hfinds,
    fun other hother => hfinds.unique hkeyword.ne_nil hother, ?_, ?_⟩
  · rw [List.forall₂_map_left_iff, List.forall₂_map_right_iff, List.forall₂_same]
    exact fun place hplace => hasOutcome_block? text place (eq_of_mem_occurrences hkeyword hplace).1
  · show _ = List.filterMap id (List.map _ _)
    rw [scanBodies, scan, List.filterMap_map]
    rfl

/-- A rule with two clauses, a declaration without a body, a rule with a stray brace and a clause
that never closes, a rule inside that clause and a keyword at the end. -/
def clausedRules : String :=
  "rule a(é) filtered \x7b f -> ü \x7d filtered\x7bg\x7d // \x7b\n \x7b s = \"\x7d\"; \x7d " ++
    "rule c; rule \x7d d filtered \x7b rule e \x7b \x7d rule"

theorem scanBodies_extent_clausedRules :
    IsKeyword "rule".toList ∧
      (scanBodies "rule" clausedRules).map (fun block =>
          (block.name, block.start, block.stop, block.terminated)) =
        [("a", 0, 62, true), ("", 71, 106, false), ("e", 91, 101, true)] ∧
      ∃ found outcomes, Finds "rule".toList [] (masked clausedRules.toList) found ∧
        List.Forall₂ (HasOutcome clausedRules) found outcomes ∧
        scanBodies "rule" clausedRules = outcomes.reduceOption := by
  have hkeyword : IsKeyword "rule".toList :=
    ⟨by decide, List.all_eq_true.1 (by decide)⟩
  obtain ⟨found, outcomes, hfound, -, houtcomes, hblocks⟩ :=
    scanBodies_extent "rule" clausedRules hkeyword
  exact ⟨hkeyword, by decide +kernel, found, outcomes, hfound, houtcomes, hblocks⟩

end PropertyIndex.Source
