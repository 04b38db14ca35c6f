import PropertyIndex.Proofs.KeywordSearch
import PropertyIndex.Proofs.Nesting

/-!
# What a scan cuts out of a text

Whatever the text looks like, a scan takes cells from it without loss: each place of a keyword
stands between the cells in front of it and the cells behind it, and the cells of a block are the
first ones behind its place.  They end with a sign that closes the block, or they are all that is
left.

* `eq_of_occurrenceAt`, `occurrencesFrom_of_some`: a place takes up the cells at the front.
* `search_induction`: the steps of the search.
* `IsPlaceBehind`, `isPlaceBehind_and_pairwise`: what the search finds from some point on.
* `eq_of_mem_occurrences`, `pairwise_occurrences`: the places of a keyword lie one behind the
  other.
* `ends_of_throughClose`: the cells up to a closing brace.
* `IsCut`, `isCut_block?`: the cells of a block.
-/

namespace PropertyIndex.Source

open Text

/-! ## Places -/

section Place

variable {keyword : List Char} {before cells : List Cell} {place : Occurrence}

/-- A place takes up cells at the front and leaves the rest. -/
theorem eq_of_occurrenceAt (hkeyword : IsKeyword keyword)
    (h : occurrenceAt keyword before cells = some place) :
    place.before = before ∧ cells = place.header ++ place.rest := by
  obtain ⟨word, behind, rfl, -, -, rfl⟩ := exists_of_occurrenceAt hkeyword h
  refine ⟨rfl, ?_⟩
  show word ++ behind = word ++ _ ++ List.takeWhile _ _ ++ List.dropWhile _ _
  rw [List.append_assoc, List.takeWhile_append_dropWhile, List.append_assoc,
    List.takeWhile_append_dropWhile]

/-- Where there is a place, the search reports it and goes on behind it. -/
theorem occurrencesFrom_of_some (hkeyword : IsKeyword keyword)
    (h : occurrenceAt keyword before cells = some place) :
    occurrencesFrom keyword before 0 false cells =
      place :: occurrencesFrom keyword (place.header.reverse ++ before) 0 false place.rest := by
  obtain ⟨rfl, rfl⟩ := eq_of_occurrenceAt hkeyword h
  exact occurrencesFrom_of_place hkeyword h

/-- The search takes three kinds of step: it ends, passes over a cell, or goes on behind a place. -/
theorem search_induction (hkeyword : IsKeyword keyword) {motive : List Cell → List Cell → Prop}
    (nil : ∀ before, motive before [])
    (pass : ∀ before cell cells, occurrenceAt keyword before (cell :: cells) = none →
      motive (cell :: before) cells → motive before (cell :: cells))
    (found : ∀ place : Occurrence,
      occurrenceAt keyword place.before (place.header ++ place.rest) = some place →
      motive (place.header.reverse ++ place.before) place.rest →
      motive place.before (place.header ++ place.rest))
    (before cells : List Cell) : motive before cells := by
  induction hlength : cells.length using Nat.strong_induction_on generalizing before cells with
  | _ n ih =>
    subst hlength
    rcases hplace : occurrenceAt keyword before cells with _ | place
    · cases cells with
      | nil => exact nil before
      | cons cell cells =>
        exact pass before cell cells hplace (ih cells.length (Nat.lt_succ_self _) _ cells rfl)
    · obtain ⟨rfl, rfl⟩ := eq_of_occurrenceAt hkeyword hplace
      refine found place hplace (ih place.rest.length ?_ _ _ rfl)
      rw [List.length_append]
      exact Nat.lt_add_of_pos_left (List.length_pos_iff.2 (header_ne_nil hkeyword hplace))

/-- A place that the search finds in cells with others in front of them. -/
structure IsPlaceBehind (before cells : List Cell) (place : Occurrence) : Prop where
  /-- The cells around the place make up all of them. -/
  eq : before.reverse ++ cells = place.before.reverse ++ (place.header ++ place.rest)
  header_ne_nil : place.header ≠ []
  length_le : before.length ≤ place.before.length

/-- What is found behind some cells is found from in front of them. -/
theorem IsPlaceBehind.of_append {taken rest : List Cell}
    (h : IsPlaceBehind (taken.reverse ++ before) rest place) :
    IsPlaceBehind before (taken ++ rest) place where
  eq := by
    rw [← h.eq, List.reverse_append, List.reverse_reverse, List.append_assoc]
  header_ne_nil := h.header_ne_nil
  length_le := by
    have hle := h.length_le
    rw [List.length_append] at hle
    exact Nat.le_of_add_left_le hle

/-- The search goes on behind each place that it finds. -/
theorem isPlaceBehind_and_pairwise (hkeyword : IsKeyword keyword) :
    (∀ place ∈ occurrencesFrom keyword before 0 false cells, IsPlaceBehind before cells place) ∧
      (occurrencesFrom keyword before 0 false cells).Pairwise
        fun a b => a.before.length < b.before.length := by
  induction before, cells using search_induction hkeyword with
  | nil before =>
    rw [occurrencesFrom_nil hkeyword]
    exact ⟨fun _ hmem => absurd hmem List.not_mem_nil, List.Pairwise.nil⟩
  | pass before cell cells hnone ih =>
    obtain ⟨hall, hpairwise⟩ := ih
    rw [occurrencesFrom_cons hnone]
    refine ⟨fun place hmem => ?_, hpairwise⟩
    exact @IsPlaceBehind.of_append before place [cell] cells (hall place hmem)
  | found place hplace ih =>
    have hne := header_ne_nil hkeyword hplace
    have hpos := List.length_pos_iff.2 hne
    obtain ⟨hall, hpairwise⟩ := ih
    rw [occurrencesFrom_of_some hkeyword hplace]
    refine ⟨List.forall_mem_cons.2 ⟨⟨rfl, hne, Nat.le_refl _⟩, fun other hmem => ?_⟩,
      List.pairwise_cons.2 ⟨fun other hmem => ?_, hpairwise⟩⟩
    · exact (hall other hmem).of_append
    · have hle := (hall other hmem).length_le
      rw [List.length_append, List.length_reverse] at hle
      omega

end Place

section Occurrences

variable {keyword : List Char} {cells : List Cell}

/-- Each place of a keyword stands between the cells in front of it and those behind it. -/
theorem eq_of_mem_occurrences (hkeyword : IsKeyword keyword) {place : Occurrence}
    (h : place ∈ occurrences keyword cells) :
    cells = place.before.reverse ++ (place.header ++ place.rest) ∧ place.header ≠ [] := by
  have hbehind := (isPlaceBehind_and_pairwise hkeyword).1 place h
  exact ⟨hbehind.eq, hbehind.header_ne_nil⟩

/-- The places of a keyword lie one behind the other. -/
theorem pairwise_occurrences (hkeyword : IsKeyword keyword) :
    (occurrences keyword cells).Pairwise fun a b => a.before.length < b.before.length :=
  (isPlaceBehind_and_pairwise hkeyword).2

end Occurrences

/-! ## Blocks -/

section Cut

variable {seen cells taken more : List Cell} {cell : Cell}

/-- Cells that are taken from the front of others up to a sign that closes a block, or all of
them. -/
structure IsCut (cells taken more : List Cell) : Prop where
  eq : cells = taken ++ more
  ends : more = [] ∨ ∃ front cell, taken = front ++ [cell] ∧ (cell.shown = '}' ∨ cell.shown = ';')

theorem isCut_singleton (h : cell.shown = '}' ∨ cell.shown = ';') :
    IsCut (cell :: cells) [cell] cells :=
  ⟨rfl, Or.inr ⟨[], cell, rfl, h⟩⟩

theorem isCut_all (cells : List Cell) : IsCut cells cells [] :=
  ⟨(List.append_nil cells).symm, Or.inl rfl⟩

theorem IsCut.append (h : IsCut cells taken more) (front : List Cell) :
    IsCut (front ++ cells) (front ++ taken) more := by
  refine ⟨by rw [h.eq, List.append_assoc], h.ends.imp_right ?_⟩
  rintro ⟨init, cell, rfl, hshown⟩
  exact ⟨front ++ init, cell, (List.append_assoc _ _ _).symm, hshown⟩

/-- The search for a closing brace stops at one or takes the cell along, whatever is behind it. -/
theorem throughClose_cons_cases (depth : Nat) (cell : Cell) :
    (cell.shown = '}' ∧ ∀ cells, throughClose depth (cell :: cells) = some [cell]) ∨
      ∃ next, ∀ cells,
        throughClose depth (cell :: cells) = (throughClose next cells).map (cell :: ·) := by
  simp only [throughClose]
  split_ifs with hopen hclose hdepth
  · exact Or.inr ⟨_, fun _ => rfl⟩
  · exact Or.inl ⟨beq_iff_eq.1 hclose, fun _ => rfl⟩
  · exact Or.inr ⟨_, fun _ => rfl⟩
  · exact Or.inr ⟨_, fun _ => rfl⟩

/-- The cells up to a closing brace end with it. -/
theorem ends_of_throughClose {depth : Nat} (h : throughClose depth cells = some taken) :
    taken <+: cells ∧ ∃ front closing, taken = front ++ [closing] ∧ closing.shown = '}' := by
  induction cells generalizing depth taken with
  | nil => exact absurd h.symm (Option.some_ne_none _)
  | cons cell cells ih =>
    rcases throughClose_cons_cases depth cell with ⟨hclose, hstop⟩ | ⟨next, honward⟩
    · rw [hstop] at h
      obtain rfl := Option.some_inj.1 h
      exact ⟨⟨cells, rfl⟩, [], cell, rfl, hclose⟩
    · rw [honward] at h
      obtain ⟨group, hgroup, rfl⟩ := Option.map_eq_some_iff.1 h
      obtain ⟨hbegins, front, closing, rfl, hclose⟩ := ih hgroup
      exact ⟨List.cons_prefix_cons.2 ⟨rfl, hbegins⟩, cell :: front, closing, rfl, hclose⟩

theorem isCut_throughClose {depth : Nat} (h : throughClose depth cells = some taken) :
    ∃ more, IsCut cells taken more := by
  obtain ⟨⟨more, hmore⟩, front, closing, hends, hclosing⟩ := ends_of_throughClose h
  exact ⟨more, hmore.symm, Or.inr ⟨front, closing, hends, Or.inl hclosing⟩⟩

/-- The search for a body gives up, stops or takes the cell along. -/
theorem splitHeader_cons_cases (seen : List Cell) (depth : Nat) (cell : Cell) (cells : List Cell) :
    splitHeader seen depth (cell :: cells) = none ∨
      splitHeader seen depth (cell :: cells) = some ([], cell :: cells) ∨
      ∃ next, splitHeader seen depth (cell :: cells) =
        (splitHeader (cell :: seen) next cells).map (prepend [cell]) := by
  cases depth with
  | succ opened =>
    rw [splitHeader]
    refine Or.inr (Or.inr ?_)
    split_ifs
    · exact ⟨_, rfl⟩
    · exact ⟨_, rfl⟩
    · exact ⟨_, rfl⟩
  | zero =>
    rw [splitHeader]
    split_ifs
    · exact Or.inl rfl
    · exact Or.inr (Or.inr ⟨_, rfl⟩)
    · exact Or.inr (Or.inl rfl)
    · exact Or.inr (Or.inr ⟨_, rfl⟩)

/-- A header and the body behind it are all of the cells. -/
theorem eq_of_splitHeader {depth : Nat} {header body : List Cell}
    (h : splitHeader seen depth cells = some (header, body)) : cells = header ++ body := by
  induction cells generalizing seen depth header with
  | nil => exact absurd h.symm (Option.some_ne_none _)
  | cons cell cells ih =>
    rcases splitHeader_cons_cases seen depth cell cells with hnone | hstop | ⟨next, honward⟩
    · rw [hnone] at h
      exact absurd h.symm (Option.some_ne_none _)
    · rw [hstop] at h
      obtain ⟨rfl, rfl⟩ := Prod.mk.inj (Option.some_inj.1 h)
      rfl
    · rw [honward] at h
      obtain ⟨⟨header', body'⟩, hsplit, heq⟩ := Option.map_eq_some_iff.1 h
      obtain ⟨rfl, rfl⟩ := Prod.mk.inj heq
      exact congrArg (cell :: ·) (ih hsplit)

/-- The reading of a statement stops at a sign that ends it or takes the cell along. -/
theorem statementFrom_cons_cases (depth : Nat) (cell : Cell) (cells : List Cell) :
    (statementFrom depth (cell :: cells) = ([cell], true) ∧
        (cell.shown = '}' ∨ cell.shown = ';')) ∨
      ∃ next, statementFrom depth (cell :: cells) = prepend [cell] (statementFrom next cells) := by
  rw [statementFrom]
  split_ifs with hopen hparen hbrace hends hsemicolon
  · exact Or.inr ⟨_, rfl⟩
  · exact Or.inr ⟨_, rfl⟩
  · exact Or.inl ⟨rfl, Or.inl (beq_iff_eq.1 hbrace)⟩
  · exact Or.inr ⟨_, rfl⟩
  · exact Or.inl ⟨rfl, Or.inr (beq_iff_eq.1 (Bool.and_eq_true_iff.1 hsemicolon).1)⟩
  · exact Or.inr ⟨_, rfl⟩

theorem isCut_statementFrom (depth : Nat) (cells : List Cell) :
    ∃ more, IsCut cells (statementFrom depth cells).1 more := by
  induction cells generalizing depth with
  | nil => exact ⟨[], isCut_all []⟩
  | cons cell cells ih =>
    rcases statementFrom_cons_cases depth cell cells with ⟨hstop, hsign⟩ | ⟨next, honward⟩
    · rw [hstop]
      exact ⟨cells, isCut_singleton hsign⟩
    · rw [honward]
      obtain ⟨more, hcut⟩ := ih next
      exact ⟨more, hcut.append [cell]⟩

/-- The cells of a block are the first ones behind its place. -/
theorem isCut_block? {extent : Extent} {terminated : Bool}
    (h : extent.block? cells = some (taken, terminated)) : ∃ more, IsCut cells taken more := by
  cases extent with
  | body =>
    obtain ⟨⟨header, body⟩, hsplit, hblock⟩ := Option.map_eq_some_iff.1 h
    obtain rfl := eq_of_splitHeader hsplit
    rcases hclose : throughClose 0 body with _ | group
    · simp only [hclose] at hblock
      obtain ⟨rfl, -⟩ := Prod.mk.inj hblock
      exact ⟨[], isCut_all _⟩
    · simp only [hclose] at hblock
      obtain ⟨rfl, -⟩ := Prod.mk.inj hblock
      obtain ⟨more, hcut⟩ := isCut_throughClose hclose
      exact ⟨more, hcut.append header⟩
  | statement =>
    obtain ⟨more, hcut⟩ := isCut_statementFrom 0 cells
    have htaken : (statementFrom 0 cells).1 = taken := congrArg Prod.fst (Option.some_inj.1 h)
    rw [htaken] at hcut
    exact ⟨more, hcut⟩

end Cut

end PropertyIndex.Source
