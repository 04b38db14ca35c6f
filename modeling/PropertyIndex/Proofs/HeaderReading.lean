import Mathlib.Logic.Relation
import PropertyIndex.Proofs.BlockEnd

/-!
# The header in front of a body

The search for a body reads the masked copy behind a place of a keyword.  It passes over one
character after another and over each whole group that the word `filtered` introduces.  It comes
to a stop at the end of the text, at a semicolon or at an opening brace, and only the last one
opens a body.

* `HeaderStep`, `rightUnique_headerStep`: the steps of the reading, of which at most one is
  possible.
* `HasBody`, `IsBodiless`: where the reading comes to a stop.
* `HasBody.unique`, `HasBody.not_isBodiless`: it does so at one place.
* `header_induction`: the steps of the search over cells.
* `hasBody_of_splitHeader`, `isBodiless_of_splitHeader`: the search does what the reading does.
-/

namespace PropertyIndex.Source

open Text

/-! ## The reading of a header -/

/-- One step of the reading of a header, of which the first part has been passed over and the second
part is ahead.  A group that never closes takes no step. -/
inductive HeaderStep : List Char × List Char → List Char × List Char → Prop
  /-- Over a character that neither ends the header nor opens a group. -/
  | char {passed ahead : List Char} {c : Char} (semicolon : c ≠ ';') (opening : c ≠ '{') :
    HeaderStep (passed, c :: ahead) (passed ++ [c], ahead)
  /-- Over a group that the word `filtered` introduces. -/
  | clause {passed group ahead : List Char} (filtered : EndsInWord "filtered".toList passed)
    (closed : IsClosedGroup group) : HeaderStep (passed, group ++ ahead) (passed ++ group, ahead)

/-- The opening brace at the front of a text opens a body: it is not that of a closed group which
the word `filtered` introduces. -/
structure OpensBody (header body : List Char) : Prop where
  head : body.head? = some '{'
  not_clause : EndsInWord "filtered".toList header →
    ¬ ∃ group, IsClosedGroup group ∧ group <+: body

/-- There is nothing, or a semicolon, at the front of a text. -/
def EndsHeader (ahead : List Char) : Prop :=
  ahead = [] ∨ ahead.head? = some ';'

/-- A text is a header and a body behind it. -/
def HasBody (text header body : List Char) : Prop :=
  Relation.ReflTransGen HeaderStep ([], text) (header, body) ∧ OpensBody header body

/-- A text comes to its end or to a semicolon before a body opens. -/
def IsBodiless (text : List Char) : Prop :=
  ∃ header ahead, Relation.ReflTransGen HeaderStep ([], text) (header, ahead) ∧ EndsHeader ahead

section Reading

variable {passed ahead header body text : List Char} {state next : List Char × List Char}

theorem headerStep_cases (h : HeaderStep (passed, ahead) next) :
    (∃ c rest, ahead = c :: rest ∧ c ≠ ';' ∧ c ≠ '{' ∧ next = (passed ++ [c], rest)) ∨
      ∃ group rest, ahead = group ++ rest ∧ EndsInWord "filtered".toList passed ∧
        IsClosedGroup group ∧ next = (passed ++ group, rest) := by
  generalize hstate : (passed, ahead) = state at h
  cases h with
  | char hsemicolon hopen =>
    obtain ⟨rfl, rfl⟩ := Prod.mk.inj hstate
    exact Or.inl ⟨_, _, rfl, hsemicolon, hopen, rfl⟩
  | clause hfiltered hclosed =>
    obtain ⟨rfl, rfl⟩ := Prod.mk.inj hstate
    exact Or.inr ⟨_, _, rfl, hfiltered, hclosed, rfl⟩

theorem IsClosedGroup.eq_of_append_eq_cons {group rest : List Char} {c : Char}
    (h : IsClosedGroup group) (heq : group ++ rest = c :: text) : c = '{' := by
  have hhead := congrArg List.head? heq
  rw [List.head?_append_of_ne_nil _ h.ne_nil, h.head] at hhead
  exact (Option.some_inj.1 hhead).symm

/-- The reading has no choice between two steps. -/
theorem rightUnique_headerStep : Relator.RightUnique HeaderStep := by
  rintro ⟨passed, ahead⟩ first second hfirst hsecond
  rcases headerStep_cases hfirst with ⟨c, rest, rfl, -, hopen, rfl⟩ |
    ⟨group, rest, rfl, -, hclosed, rfl⟩
  · rcases headerStep_cases hsecond with ⟨c', rest', heq, -, -, rfl⟩ |
      ⟨group', rest', heq, -, hclosed', -⟩
    · obtain ⟨rfl, rfl⟩ := List.cons.inj heq
      rfl
    · exact absurd (hclosed'.eq_of_append_eq_cons heq.symm) hopen
  · rcases headerStep_cases hsecond with ⟨c', rest', heq, -, hopen', -⟩ |
      ⟨group', rest', heq, -, hclosed', rfl⟩
    · exact absurd (hclosed.eq_of_append_eq_cons heq) hopen'
    · obtain rfl := hclosed.unique hclosed' ⟨rest, rfl⟩ ⟨rest', heq.symm⟩
      rw [List.append_cancel_left heq]

theorem OpensBody.not_headerStep (h : OpensBody header body) :
    ¬ HeaderStep (header, body) next := by
  intro hstep
  rcases headerStep_cases hstep with ⟨c, rest, rfl, -, hopen, -⟩ |
    ⟨group, rest, rfl, hfiltered, hclosed, -⟩
  · exact hopen (Option.some_inj.1 h.head)
  · exact h.not_clause hfiltered ⟨group, hclosed, rest, rfl⟩

theorem EndsHeader.not_headerStep (h : EndsHeader ahead) : ¬ HeaderStep (passed, ahead) next := by
  intro hstep
  rcases headerStep_cases hstep with ⟨c, rest, rfl, hsemicolon, -, -⟩ |
    ⟨group, rest, rfl, -, hclosed, -⟩
  · rcases h with hnil | hhead
    · exact absurd hnil (List.cons_ne_nil c rest)
    · exact hsemicolon (Option.some_inj.1 hhead)
  · rcases h with hnil | hhead
    · exact absurd (List.append_eq_nil_iff.1 hnil).1 hclosed.ne_nil
    · rw [List.head?_append_of_ne_nil _ hclosed.ne_nil, hclosed.head, Option.some_inj] at hhead
      exact absurd hhead (by decide)

/-- The reading comes to a stop at one place only. -/
theorem eq_of_stops {first second : List Char × List Char}
    (hfirst : Relation.ReflTransGen HeaderStep state first)
    (hsecond : Relation.ReflTransGen HeaderStep state second)
    (hstop : ∀ next, ¬ HeaderStep first next) (hstop' : ∀ next, ¬ HeaderStep second next) :
    first = second := by
  rcases Relation.ReflTransGen.total_of_right_unique rightUnique_headerStep hfirst hsecond with
    h | h
  · refine h.cases_head.resolve_right ?_
    rintro ⟨next, hstep, -⟩
    exact hstop next hstep
  · refine (h.cases_head.resolve_right ?_).symm
    rintro ⟨next, hstep, -⟩
    exact hstop' next hstep

/-- A text has at most one body. -/
theorem HasBody.unique {header' body' : List Char} (h : HasBody text header body)
    (h' : HasBody text header' body') : header = header' ∧ body = body' :=
  Prod.mk.inj (eq_of_stops h.1 h'.1 (fun _ => h.2.not_headerStep) fun _ => h'.2.not_headerStep)

/-- A text with a body does not end before it. -/
theorem HasBody.not_isBodiless (h : HasBody text header body) : ¬ IsBodiless text := by
  rintro ⟨header', ahead, hreach, hends⟩
  obtain ⟨-, rfl⟩ := Prod.mk.inj (eq_of_stops h.1 hreach (fun _ => h.2.not_headerStep)
    fun _ => hends.not_headerStep)
  rcases hends with rfl | hhead
  · exact absurd h.2.head.symm (Option.some_ne_none _)
  · exact absurd (h.2.head.symm.trans hhead) (by decide)

/-- The reading passes over characters that neither end the header nor open a group. -/
theorem reaches_append (h : ∀ c ∈ text, c ≠ ';' ∧ c ≠ '{') :
    Relation.ReflTransGen HeaderStep (passed, text ++ ahead) (passed ++ text, ahead) := by
  induction text generalizing passed with
  | nil =>
    rw [List.append_nil]
    exact Relation.ReflTransGen.refl
  | cons c text ih =>
    obtain ⟨⟨hsemicolon, hopen⟩, htext⟩ := List.forall_mem_cons.1 h
    have hrest := @ih (passed ++ [c]) htext
    rw [List.append_assoc, List.singleton_append] at hrest
    exact Relation.ReflTransGen.head (HeaderStep.char hsemicolon hopen) hrest

end Reading

/-! ## The search over cells -/

section Cells

variable {seen cells group rest header body : List Cell} {cell : Cell}

theorem head?_visible_of_shown {c : Char} (h : cell.shown = c) :
    (visible (cell :: cells)).head? = some c :=
  congrArg some h

/-- A group that closes begins with the brace that opens it. -/
theorem head?_of_throughClose (hopen : cell.shown = '{')
    (h : throughClose 0 (cell :: cells) = some group) : (visible group).head? = some '{' := by
  rw [← head?_shownText]
  exact (closedGroup_of_throughClose (head?_visible_of_shown hopen) h).1.head

theorem throughClose_open_isSome (hopen : cell.shown = '{') :
    (throughClose 0 (cell :: cells)).isSome = (throughClose 1 cells).isSome := by
  rw [throughClose_cons_open hopen, Option.isSome_map]

theorem splitHeader_semicolon (hsemicolon : cell.shown = ';') :
    splitHeader seen 0 (cell :: cells) = none := by
  rw [splitHeader, hsemicolon]
  rfl

/-- A brace opens the body unless it is that of a clause. -/
theorem splitHeader_opener (hopen : cell.shown = '{')
    (hclause : endsFiltered seen = true → throughClose 0 (cell :: cells) = none) :
    splitHeader seen 0 (cell :: cells) = some ([], cell :: cells) := by
  have hcond : ¬ (endsFiltered seen && (throughClose 1 cells).isSome) = true := by
    rw [Bool.and_eq_true]
    rintro ⟨hends, hsome⟩
    rw [← throughClose_open_isSome hopen, hclause hends] at hsome
    exact Bool.noConfusion hsome
  rw [splitHeader, hopen, if_neg (by decide), if_pos (by decide), if_neg hcond]

/-- The search for a body ends, stops at a brace, or passes over a group or a cell. -/
theorem header_induction {motive : List Cell → List Cell → Prop} (nil : ∀ seen, motive seen [])
    (semicolon : ∀ seen cell cells, cell.shown = ';' → motive seen (cell :: cells))
    (opener : ∀ seen cell cells, cell.shown = '{' →
      (endsFiltered seen = true → throughClose 0 (cell :: cells) = none) →
      motive seen (cell :: cells))
    (group : ∀ seen group rest, (visible group).head? = some '{' → endsFiltered seen = true →
      throughClose 0 (group ++ rest) = some group → motive (group.reverse ++ seen) rest →
      motive seen (group ++ rest))
    (pass : ∀ seen cell cells, cell.shown ≠ ';' → cell.shown ≠ '{' →
      motive (cell :: seen) cells → motive seen (cell :: cells))
    (seen cells : List Cell) : motive seen cells := by
  induction hlength : cells.length using Nat.strong_induction_on generalizing seen cells with
  | _ n ih =>
    subst hlength
    cases cells with
    | nil => exact nil seen
    | cons cell cells =>
      by_cases hsemicolon : cell.shown = ';'
      · exact semicolon seen cell cells hsemicolon
      by_cases hopen : cell.shown = '{'
      · rcases hclose : throughClose 0 (cell :: cells) with _ | taken
        · exact opener seen cell cells hopen fun _ => hclose
        by_cases hends : endsFiltered seen = true
        · obtain ⟨hclosed, more, hcells⟩ :=
            closedGroup_of_throughClose (head?_visible_of_shown hopen) hclose
          have hhead := head?_of_throughClose hopen hclose
          have hne : taken ≠ [] := fun hnil => hclosed.ne_nil (congrArg shownText hnil)
          rw [hcells] at hclose ⊢
          refine group seen taken more hhead hends hclose (ih more.length ?_ _ more rfl)
          rw [hcells, List.length_append]
          exact Nat.lt_add_of_pos_left (List.length_pos_iff.2 hne)
        · exact opener seen cell cells hopen fun h => absurd h hends
      · exact pass seen cell cells hsemicolon hopen
          (ih cells.length (Nat.lt_succ_self _) _ cells rfl)

theorem splitHeader_pass (hsemicolon : cell.shown ≠ ';') (hopen : cell.shown ≠ '{') :
    splitHeader seen 0 (cell :: cells) =
      (splitHeader (cell :: seen) 0 cells).map (prepend [cell]) :=
  @splitHeader_append_outside seen [cell] cells
    (List.forall_mem_singleton.2 ⟨hsemicolon, hopen⟩)

/-- The header that cells show ends in the word exactly when the masked copy of them does. -/
theorem endsFiltered_iff_shownText :
    endsFiltered seen = true ↔ EndsInWord "filtered".toList (shownText seen.reverse) := by
  rw [← List.reverse_reverse seen, endsFiltered_iff, List.reverse_reverse]
  exact ⟨endsInWord_shownText filtered_ident, endsInWord_visible (by decide) filtered_ident⟩

theorem opensBody_of_opener (hopen : cell.shown = '{')
    (hclause : endsFiltered seen = true → throughClose 0 (cell :: cells) = none) :
    OpensBody (shownText seen.reverse) (shownText (cell :: cells)) where
  head := by
    rw [head?_shownText]
    exact head?_visible_of_shown hopen
  not_clause := by
    rintro hfiltered ⟨group, hclosed, hprefix⟩
    have hnone := hclause (endsFiltered_iff_shownText.2 hfiltered)
    have hlt := lt_count_of_throughClose (head?_visible_of_shown hopen) hnone hprefix
      hclosed.ne_nil
    exact absurd hclosed.balanced.symm (Nat.ne_of_lt hlt)

/-- The reading passes over the group of a clause in one step. -/
theorem reaches_group (hopen : (visible group).head? = some '{') (hends : endsFiltered seen = true)
    (hclose : throughClose 0 (group ++ rest) = some group) :
    Relation.ReflTransGen HeaderStep (shownText seen.reverse, shownText (group ++ rest))
      (shownText (group.reverse ++ seen).reverse, shownText rest) := by
  have hopen' : (visible (group ++ rest)).head? = some '{' := by
    rw [visible_append, List.head?_append, hopen]
    rfl
  have hclosed := (closedGroup_of_throughClose hopen' hclose).1
  rw [List.reverse_append, List.reverse_reverse, shownText_append, shownText_append]
  exact Relation.ReflTransGen.single
    (HeaderStep.clause (endsFiltered_iff_shownText.1 hends) hclosed)

/-- A hidden cell may take the reading several steps. -/
theorem reaches_cell (hsemicolon : cell.shown ≠ ';') (hopen : cell.shown ≠ '{') :
    Relation.ReflTransGen HeaderStep (shownText seen.reverse, shownText (cell :: cells))
      (shownText (cell :: seen).reverse, shownText cells) := by
  have hcell : shownText [cell] = cell.shownText := List.append_nil _
  rw [List.reverse_cons, shownText_append, shownText_cons, hcell]
  exact reaches_append (forall_mem_shownText ⟨hsemicolon, hopen⟩)

theorem hasBody_from (h : splitHeader seen 0 cells = some (header, body)) :
    Relation.ReflTransGen HeaderStep (shownText seen.reverse, shownText cells)
        (shownText (seen.reverse ++ header), shownText body) ∧
      OpensBody (shownText (seen.reverse ++ header)) (shownText body) := by
  induction seen, cells using header_induction generalizing header with
  | nil seen => exact absurd h.symm (Option.some_ne_none _)
  | semicolon seen cell cells hsemicolon =>
    rw [splitHeader_semicolon hsemicolon] at h
    exact absurd h.symm (Option.some_ne_none _)
  | opener seen cell cells hopen hclause =>
    rw [splitHeader_opener hopen hclause] at h
    obtain ⟨rfl, rfl⟩ := Prod.mk.inj (Option.some_inj.1 h)
    rw [List.append_nil]
    exact ⟨Relation.ReflTransGen.refl, opensBody_of_opener hopen hclause⟩
  | group seen group rest hopen hends hclose ih =>
    rw [splitHeader_group hopen hends hclose] at h
    obtain ⟨⟨later, body⟩, hlater, heq⟩ := Option.map_eq_some_iff.1 h
    obtain ⟨rfl, rfl⟩ := Prod.mk.inj heq
    obtain ⟨hreach, hbody⟩ := ih hlater
    rw [List.reverse_append, List.reverse_reverse, List.append_assoc] at hreach hbody
    refine ⟨(reaches_group hopen hends hclose).trans ?_, hbody⟩
    rw [List.reverse_append, List.reverse_reverse]
    exact hreach
  | pass seen cell cells hsemicolon hopen ih =>
    rw [splitHeader_pass hsemicolon hopen] at h
    obtain ⟨⟨later, body⟩, hlater, heq⟩ := Option.map_eq_some_iff.1 h
    obtain ⟨rfl, rfl⟩ := Prod.mk.inj heq
    obtain ⟨hreach, hbody⟩ := ih hlater
    rw [List.reverse_cons, List.append_assoc] at hreach hbody
    refine ⟨(reaches_cell hsemicolon hopen).trans ?_, hbody⟩
    rw [List.reverse_cons]
    exact hreach

theorem ends_from (h : splitHeader seen 0 cells = none) :
    ∃ header ahead, Relation.ReflTransGen HeaderStep (shownText seen.reverse, shownText cells)
      (header, ahead) ∧ EndsHeader ahead := by
  induction seen, cells using header_induction with
  | nil seen => exact ⟨_, _, Relation.ReflTransGen.refl, Or.inl rfl⟩
  | semicolon seen cell cells hsemicolon =>
    refine ⟨_, _, Relation.ReflTransGen.refl, Or.inr ?_⟩
    rw [head?_shownText]
    exact head?_visible_of_shown hsemicolon
  | opener seen cell cells hopen hclause =>
    rw [splitHeader_opener hopen hclause] at h
    exact absurd h (Option.some_ne_none _)
  | group seen group rest hopen hends hclose ih =>
    rw [splitHeader_group hopen hends hclose, Option.map_eq_none_iff] at h
    obtain ⟨header, ahead, hreach, hend⟩ := ih h
    exact ⟨header, ahead, (reaches_group hopen hends hclose).trans hreach, hend⟩
  | pass seen cell cells hsemicolon hopen ih =>
    rw [splitHeader_pass hsemicolon hopen, Option.map_eq_none_iff] at h
    obtain ⟨header, ahead, hreach, hend⟩ := ih h
    exact ⟨header, ahead, (reaches_cell hsemicolon hopen).trans hreach, hend⟩

/-- What the search splits off is the header, and the body is behind it. -/
theorem hasBody_of_splitHeader (h : splitHeader [] 0 cells = some (header, body)) :
    HasBody (shownText cells) (shownText header) (shownText body) :=
  hasBody_from h

/-- Where the search finds no body there is none. -/
theorem isBodiless_of_splitHeader (h : splitHeader [] 0 cells = none) :
    IsBodiless (shownText cells) :=
  ends_from h

end Cells

end PropertyIndex.Source
