import PropertyIndex.Proofs.Identifier
import PropertyIndex.Proofs.Masking
import PropertyIndex.Proofs.Run
import PropertyIndex.Source.Block

/-!
# The search for a keyword

The search goes from place to place: it passes over cells in which the keyword is no whole word,
and at a place it takes up the keyword, the blanks and the name behind it.

* `IsKeyword`: a nonempty word of identifier characters.
* `splitWord_eq_some`: the cells that show a word.
* `exists_of_occurrenceAt`: the keyword of a place.
* `occurrenceAt_eq_some`, `occurrenceAt_eq_none`: whether a place is at the front.
* `occurrencesFrom_of_not_hasWord`, `occurrencesFrom_of_place`: the two steps of the search.
-/

namespace PropertyIndex.Source

open Text

/-! ## Keywords -/

/-- A word that a search may look for. -/
structure IsKeyword (keyword : List Char) : Prop where
  ne_nil : keyword ≠ []
  ident : ∀ c ∈ keyword, isIdentChar c = true

/-- A word that cells show stands in the masked copy as well. -/
theorem hasWord_shownText {inside : Char → Bool} {word : List Char} {cells : List Cell}
    (hword : ∀ c ∈ word, isIdentChar c = true) (h : HasWord inside word (visible cells)) :
    HasWord inside word (shownText cells) := by
  obtain ⟨before, after, htext, hbefore, hafter⟩ := h
  have hspace : ∀ c ∈ word, c ≠ ' ' := fun c hc => ne_space_of_isIdentChar (hword c hc)
  obtain ⟨front, back, hshown, rfl, rfl⟩ := shownText_of_visible hspace htext
  refine ⟨shownText front, shownText back, hshown, ?_, ?_⟩
  · rw [getLast?_shownText]
    exact hbefore
  · rw [head?_shownText]
    exact hafter

theorem splitWord_cons {c : Char} (hc : isIdentChar c = true) (word : List Char) (cell : Cell)
    (cells : List Cell) : splitWord (c :: word) (cell :: cells) = if cell.shown = c then
      (splitWord word cells).map fun (taken, rest) => (cell :: taken, rest) else none := by
  rw [splitWord]
  rcases cell.shownText_eq with ⟨n, htext, hshown⟩ | htext
  · have hne : ' ' ≠ c := by
      rintro rfl
      exact Bool.noConfusion hc
    rw [htext, hshown, if_neg hne, List.replicate_succ, List.isPrefixOf?,
      if_neg (by rwa [beq_iff_eq])]
    rfl
  · rw [htext, List.isPrefixOf?]
    by_cases h : cell.shown = c
    · rw [if_pos h, if_pos (beq_iff_eq.2 h)]
      rfl
    · rw [if_neg h, if_neg (by rwa [beq_iff_eq])]
      rfl

/-- The front of a list of cells shows a word exactly when it can be split off. -/
theorem splitWord_eq_some {word : List Char} (hword : ∀ c ∈ word, isIdentChar c = true)
    {cells taken rest : List Cell} :
    splitWord word cells = some (taken, rest) ↔ cells = taken ++ rest ∧ visible taken = word := by
  induction word generalizing cells taken with
  | nil =>
    rw [splitWord, Option.some_inj, Prod.mk.injEq, visible, List.map_eq_nil_iff]
    constructor
    · rintro ⟨rfl, rfl⟩
      exact ⟨rfl, rfl⟩
    · rintro ⟨rfl, rfl⟩
      exact ⟨rfl, rfl⟩
  | cons c word ih =>
    obtain ⟨hc, hword'⟩ := List.forall_mem_cons.1 hword
    cases cells with
    | nil =>
      rw [splitWord]
      constructor
      · intro h
        exact absurd h.symm (Option.some_ne_none _)
      · rintro ⟨hnil, hvisible⟩
        rw [(List.append_eq_nil_iff.1 hnil.symm).1] at hvisible
        exact absurd hvisible.symm (List.cons_ne_nil _ _)
    | cons cell cells =>
      rw [splitWord_cons hc]
      constructor
      · intro h
        by_cases hcell : cell.shown = c
        · rw [if_pos hcell, Option.map_eq_some_iff] at h
          obtain ⟨⟨taken', rest'⟩, hsplit, heq⟩ := h
          obtain ⟨rfl, rfl⟩ := Prod.mk.inj heq
          obtain ⟨rfl, hvisible⟩ := (ih hword').1 hsplit
          exact ⟨rfl, by rw [visible, List.map_cons, hcell, ← hvisible, visible]⟩
        · rw [if_neg hcell] at h
          exact absurd h.symm (Option.some_ne_none _)
      · rintro ⟨happend, hvisible⟩
        cases taken with
        | nil => exact absurd hvisible.symm (List.cons_ne_nil _ _)
        | cons cell' taken =>
          obtain ⟨rfl, hcells⟩ := List.cons.inj happend
          obtain ⟨hcell, hvisible'⟩ := List.cons.inj hvisible
          rw [if_pos hcell, (ih hword').2 ⟨hcells, hvisible'⟩]
          rfl

section Place

variable {keyword : List Char} {before cells word behind rest : List Cell}

/-- The place at a keyword, given the blanks behind it and what follows those. -/
def place (before word gap afterGap : List Cell) : Occurrence :=
  let name := afterGap.takeWhile fun cell => isIdentChar cell.shown
  ⟨before, word ++ gap ++ name, String.ofList (source name),
    afterGap.dropWhile fun cell => isIdentChar cell.shown⟩

/-- A keyword at the front is a place exactly when it has no character of a word on either side. -/
theorem occurrenceAt_append (hkeyword : IsKeyword keyword) (hword : visible word = keyword) :
    occurrenceAt keyword before (word ++ behind) =
      if (visible before).head?.any isWordChar || (visible behind).head?.any isWordChar then none
      else some (place before word
        (behind.takeWhile fun cell => isBlank cell.shown)
        (behind.dropWhile fun cell => isBlank cell.shown)) := by
  have hne : visible word ≠ [] := by
    rw [hword]
    exact hkeyword.ne_nil
  have hident : ∀ c ∈ visible word, isWordChar c = true := by
    rw [hword]
    exact fun c hc => isWordChar_of_isIdentChar (hkeyword.ident c hc)
  have hfront : ((word ++ behind).head?.map Cell.shown).any isWordChar = true := by
    rw [← List.head?_map, ← visible, visible_append, List.head?_append_of_ne_nil _ hne]
    exact head?_any_of_forall hne hident
  have hback : ((word.getLast?.or before.head?).map Cell.shown).any isWordChar = true := by
    rcases word.eq_nil_or_concat with rfl | ⟨init, cell, rfl⟩
    · exact absurd rfl hne
    · rw [List.concat_eq_append] at hident ⊢
      rw [List.getLast?_concat]
      exact hident cell.shown (List.mem_map_of_mem (List.mem_append_right _ List.mem_cons_self))
  rw [occurrenceAt, (splitWord_eq_some hkeyword.ident).2 ⟨rfl, hword⟩, visible, List.head?_map,
    visible, List.head?_map]
  show (Option.bind (guard (isWordBoundary _ _ = true)) fun _ =>
    Option.bind (guard (isWordBoundary _ _ = true)) fun _ => some (place before word _ _)) = _
  rw [isWordBoundary, isWordBoundary, hfront, hback]
  cases (before.head?.map Cell.shown).any isWordChar with
  | true => rfl
  | false =>
    cases (behind.head?.map Cell.shown).any isWordChar with
    | true => rfl
    | false => rfl

/-- Where there is a place the keyword is at the front and stands alone. -/
theorem exists_of_occurrenceAt (hkeyword : IsKeyword keyword) {found : Occurrence}
    (h : occurrenceAt keyword before cells = some found) :
    ∃ word behind, cells = word ++ behind ∧ visible word = keyword ∧
      ((visible before).head?.any isWordChar || (visible behind).head?.any isWordChar) = false ∧
      found = place before word (behind.takeWhile fun cell => isBlank cell.shown)
        (behind.dropWhile fun cell => isBlank cell.shown) := by
  rcases hsplit : splitWord keyword cells with _ | ⟨word, behind⟩
  · rw [occurrenceAt, hsplit] at h
    exact absurd h.symm (Option.some_ne_none _)
  · obtain ⟨rfl, hword⟩ := (splitWord_eq_some hkeyword.ident).1 hsplit
    rw [occurrenceAt_append hkeyword hword] at h
    split_ifs at h with halone
    rw [Bool.not_eq_true] at halone
    exact ⟨word, behind, rfl, hword, halone, (Option.some_inj.1 h).symm⟩

/-- At a keyword with blanks and a name behind it there is a place. -/
theorem occurrenceAt_eq_some {gap name : List Cell} (hkeyword : IsKeyword keyword)
    (hword : visible word = keyword) (hbefore : (visible before).head?.any isWordChar = false)
    (hgap : ∀ c ∈ visible gap, isAsciiBlank c = true) (hgapne : gap ≠ [])
    (hname : ∀ c ∈ visible name, isIdentChar c = true) (hnamene : name ≠ [])
    (hrest : (visible rest).head?.any isIdentChar = false) :
    occurrenceAt keyword before (word ++ (gap ++ (name ++ rest))) =
      some ⟨before, word ++ gap ++ name, String.ofList (source name), rest⟩ := by
  have hgap' : ∀ cell ∈ gap, isBlank cell.shown = true := fun cell hcell =>
    isBlank_of_isAsciiBlank (hgap _ (List.mem_map_of_mem hcell))
  have hname' : ∀ cell ∈ name, isIdentChar cell.shown = true := fun cell hcell =>
    hname _ (List.mem_map_of_mem hcell)
  have hbehind : (visible (gap ++ (name ++ rest))).head?.any isWordChar = false := by
    obtain ⟨cell, gap, rfl⟩ := List.exists_cons_of_ne_nil hgapne
    exact isWordChar_of_isAsciiBlank (hgap _ List.mem_cons_self)
  have hnamefront : (name ++ rest).head?.any (fun cell => isBlank cell.shown) = false := by
    obtain ⟨cell, name, rfl⟩ := List.exists_cons_of_ne_nil hnamene
    exact isBlank_of_isIdentChar (hname _ List.mem_cons_self)
  rw [head?_visible_any] at hrest
  rw [occurrenceAt_append hkeyword hword, hbefore, hbehind, dropWhile_run hgap' hnamefront,
    takeWhile_run hgap' hnamefront, place, takeWhile_run hname' hrest,
    dropWhile_run hname' hrest]
  rfl

/-- Where the keyword is no whole word there is no place. -/
theorem occurrenceAt_eq_none (hkeyword : IsKeyword keyword)
    (h : ∀ after, visible cells = keyword ++ after →
      (visible before).head?.any isWordChar = false → after.head?.any isWordChar = true) :
    occurrenceAt keyword before cells = none := by
  rcases hsplit : splitWord keyword cells with _ | ⟨word, behind⟩
  · rw [occurrenceAt, hsplit]
    rfl
  · obtain ⟨rfl, hword⟩ := (splitWord_eq_some hkeyword.ident).1 hsplit
    rw [occurrenceAt_append hkeyword hword, if_pos]
    rw [Bool.or_eq_true, or_iff_not_imp_left, Bool.not_eq_true]
    refine h (visible behind) ?_
    rw [visible_append, hword]

end Place

/-! ## The search -/

section Search

variable {keyword : List Char} {before cells taken front rest : List Cell}

theorem occurrenceAt_nil (hkeyword : IsKeyword keyword) :
    occurrenceAt keyword before [] = none := by
  refine occurrenceAt_eq_none hkeyword fun after hafter _ => ?_
  exact absurd (List.append_eq_nil_iff.1 hafter.symm).1 hkeyword.ne_nil

theorem occurrencesFrom_nil (hkeyword : IsKeyword keyword) :
    occurrencesFrom keyword before 0 false [] = [] := by
  simp only [occurrencesFrom, occurrenceAt_nil hkeyword]

theorem occurrencesFrom_cons {cell : Cell}
    (h : occurrenceAt keyword before (cell :: cells) = none) :
    occurrencesFrom keyword before 0 false (cell :: cells) =
      occurrencesFrom keyword (cell :: before) 0 false cells := by
  simp only [occurrencesFrom, h]

/-- A place takes up at least its keyword. -/
theorem header_ne_nil (hkeyword : IsKeyword keyword) {place : Occurrence}
    (h : occurrenceAt keyword before cells = some place) : place.header ≠ [] := by
  obtain ⟨word, behind, -, rfl, -, rfl⟩ := exists_of_occurrenceAt hkeyword h
  have hne : word ≠ [] := fun hnil => hkeyword.ne_nil (congrArg visible hnil)
  exact List.append_ne_nil_of_left_ne_nil (List.append_ne_nil_of_left_ne_nil hne _) _

/-- Places that take up cells are reported wherever the one in front of them ends. -/
theorem occurrencesFrom_adjacent (hkeyword : IsKeyword keyword) (skip : Nat) (adjacent : Bool) :
    occurrencesFrom keyword before skip adjacent cells =
      occurrencesFrom keyword before skip false cells := by
  cases cells with
  | nil =>
    cases skip with
    | zero => simp only [occurrencesFrom, occurrenceAt_nil hkeyword]
    | succ n => rfl
  | cons cell cells =>
    cases skip with
    | zero =>
      rcases hplace : occurrenceAt keyword before (cell :: cells) with _ | place
      · simp only [occurrencesFrom, hplace]
      · obtain ⟨cell', taken, hheader⟩ := List.exists_cons_of_ne_nil (header_ne_nil hkeyword hplace)
        simp only [occurrencesFrom, hplace, hheader]
    | succ n => rfl

/-- The search goes on behind the cells that belong to a place. -/
theorem occurrencesFrom_skip (hkeyword : IsKeyword keyword) (adjacent : Bool) :
    occurrencesFrom keyword before taken.length adjacent (taken ++ rest) =
      occurrencesFrom keyword (taken.reverse ++ before) 0 false rest := by
  induction taken generalizing before adjacent with
  | nil => exact occurrencesFrom_adjacent hkeyword 0 adjacent
  | cons cell taken ih =>
    rw [List.reverse_cons, List.append_assoc]
    exact ih _

/-- A place is reported, and the search goes on behind its name. -/
theorem occurrencesFrom_of_place (hkeyword : IsKeyword keyword) {name : String}
    (h : occurrenceAt keyword before (taken ++ rest) = some ⟨before, taken, name, rest⟩) :
    occurrencesFrom keyword before 0 false (taken ++ rest) =
      ⟨before, taken, name, rest⟩ ::
        occurrencesFrom keyword (taken.reverse ++ before) 0 false rest := by
  obtain ⟨cell, taken, rfl⟩ := List.exists_cons_of_ne_nil (header_ne_nil hkeyword h)
  rw [List.cons_append] at h ⊢
  simp only [occurrencesFrom, h]
  rw [occurrencesFrom_skip hkeyword, List.reverse_cons, List.append_assoc]
  rfl

/-- The search passes over cells that do not show the keyword as a whole word, unless the word
could go on behind them. -/
theorem occurrencesFrom_of_not_hasWord (hkeyword : IsKeyword keyword)
    (hword : ¬HasWord isWordChar keyword (visible front))
    (hseam : (visible front).getLast?.any isIdentChar = false ∨
      (visible rest).head?.any isIdentChar = false) :
    occurrencesFrom keyword before 0 false (front ++ rest) =
      occurrencesFrom keyword (front.reverse ++ before) 0 false rest := by
  have hnone : ∀ passed ahead, front = passed ++ ahead → ahead ≠ [] →
      occurrenceAt keyword (passed.reverse ++ before) (ahead ++ rest) = none := by
    rintro passed ahead rfl hne
    refine occurrenceAt_eq_none hkeyword fun after hafter hbefore => ?_
    rw [visible_append] at hafter hword hseam
    have hne' : visible ahead ≠ [] := fun hnil => hne (List.map_eq_nil_iff.1 hnil)
    obtain ⟨shift, hshift, rfl⟩ := eq_append_of_seam hkeyword.ident hne'
      (hseam.imp_left getLast?_any_of_append) hafter
    by_contra hright
    rw [Bool.not_eq_true] at hright
    refine hword ⟨visible passed, shift, ?_, ?_, head?_any_of_append hright⟩
    · rw [hshift, List.append_assoc]
    · rw [visible_append] at hbefore
      rw [← List.head?_reverse, visible, ← List.map_reverse]
      exact head?_any_of_append hbefore
  suffices h : ∀ ahead passed, front = passed ++ ahead →
      occurrencesFrom keyword (passed.reverse ++ before) 0 false (ahead ++ rest) =
        occurrencesFrom keyword (front.reverse ++ before) 0 false rest from h front [] rfl
  intro ahead
  induction ahead with
  | nil =>
    rintro passed rfl
    rw [List.append_nil, List.nil_append]
  | cons cell ahead ih =>
    intro passed hfront
    have hhere : occurrenceAt keyword (passed.reverse ++ before) (cell :: (ahead ++ rest)) = none :=
      hnone passed (cell :: ahead) hfront (List.cons_ne_nil _ _)
    have hfront' : front = (passed ++ [cell]) ++ ahead := by
      rw [hfront, List.append_assoc, List.singleton_append]
    rw [List.cons_append, occurrencesFrom_cons hhere, ← ih (passed ++ [cell]) hfront',
      List.reverse_append]
    rfl

end Search

end PropertyIndex.Source
