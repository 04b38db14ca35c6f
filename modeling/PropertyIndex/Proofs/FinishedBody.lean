import PropertyIndex.Proofs.BlockCut
import PropertyIndex.Proofs.HeaderReading

/-!
# What follows a finished body

A body that has been closed is found again whatever follows it.  Conversely, what follows the cells
of a closed body has no part in finding it: neither a clause nor a group can reach back.

* `ClosesWith`: the cells up to the brace that closes a body, the header included.
* `ClosesWith.ends`: they end with that brace.
* `throughClose_append_iff`: the search for a closing brace looks at no cell behind it.
* `closesWith_append_iff`: neither does the search for a body that closes.
-/

namespace PropertyIndex.Source

/-- The cells behind the header so far, up to the brace that closes the body. -/
def ClosesWith (seen cells taken : List Cell) : Prop :=
  ∃ header body group, splitHeader seen 0 cells = some (header, body) ∧
    throughClose 0 body = some group ∧ taken = header ++ group

section Group

variable {depth : Nat} {cells rest group : List Cell}

theorem throughClose_ne_nil (depth : Nat) (cells : List Cell) :
    throughClose depth cells ≠ some [] := by
  intro h
  obtain ⟨-, front, closing, hnil, -⟩ := ends_of_throughClose h
  exact List.append_ne_nil_of_right_ne_nil _ (List.cons_ne_nil _ _) hnil.symm

/-- The search for a closing brace does not look at the cells behind it. -/
theorem throughClose_append_iff (hgroup : group <+: cells) :
    throughClose depth (cells ++ rest) = some group ↔ throughClose depth cells = some group := by
  induction cells generalizing depth group with
  | nil =>
    obtain rfl := List.prefix_nil.1 hgroup
    exact iff_of_false (throughClose_ne_nil _ _) (throughClose_ne_nil _ _)
  | cons cell cells ih =>
    rcases throughClose_cons_cases depth cell with ⟨-, hstop⟩ | ⟨next, honward⟩
    · rw [List.cons_append, hstop, hstop]
    · rw [List.cons_append, honward, honward, Option.map_eq_some_iff, Option.map_eq_some_iff]
      refine exists_congr fun taken => and_congr_left ?_
      rintro rfl
      exact ih (List.cons_prefix_cons.1 hgroup).2

end Group

section Body

variable {seen seen' cells front group rest taken : List Cell} {cell : Cell}

/-- A block with a body is terminated when the body closes. -/
theorem bodyBlock?_eq_some_true_iff :
    bodyBlock? cells = some (taken, true) ↔ ClosesWith [] cells taken := by
  rw [bodyBlock?, ClosesWith, Option.map_eq_some_iff]
  constructor
  · rintro ⟨⟨header, body⟩, hsplit, hblock⟩
    rcases hclose : throughClose 0 body with _ | group
    · simp only [hclose] at hblock
      exact Bool.noConfusion (Prod.mk.inj hblock).2
    · simp only [hclose] at hblock
      exact ⟨header, body, group, hsplit, hclose, (Prod.mk.inj hblock).1.symm⟩
  · rintro ⟨header, body, group, hsplit, hclose, rfl⟩
    refine ⟨(header, body), hsplit, ?_⟩
    simp only [hclose]

/-- The cells of a closed body are the first ones, and the last of them closes it. -/
theorem ClosesWith.ends (h : ClosesWith seen cells taken) :
    taken <+: cells ∧ ∃ front closing, taken = front ++ [closing] ∧ closing.shown = '}' := by
  obtain ⟨header, body, group, hsplit, hclose, rfl⟩ := h
  obtain ⟨hbegins, front, closing, rfl, hclosing⟩ := ends_of_throughClose hclose
  refine ⟨?_, header ++ front, closing, (List.append_assoc _ _ _).symm, hclosing⟩
  rw [eq_of_splitHeader hsplit]
  exact (List.prefix_append_right_inj header).2 hbegins

theorem ClosesWith.ne_nil (h : ClosesWith seen cells taken) : taken ≠ [] := by
  obtain ⟨-, front, closing, rfl, -⟩ := h.ends
  exact List.append_ne_nil_of_right_ne_nil _ (List.cons_ne_nil _ _)

theorem not_closesWith_semicolon (hsemicolon : cell.shown = ';') :
    ¬ ClosesWith seen (cell :: cells) taken := by
  rintro ⟨header, body, group, hsplit, -⟩
  rw [splitHeader_semicolon hsemicolon] at hsplit
  exact absurd hsplit.symm (Option.some_ne_none _)

/-- At the brace that opens the body the header is empty. -/
theorem closesWith_opener_iff (hopen : cell.shown = '{')
    (hclause : endsFiltered seen = true → throughClose 0 (cell :: cells) = none) :
    ClosesWith seen (cell :: cells) taken ↔ throughClose 0 (cell :: cells) = some taken := by
  rw [ClosesWith, splitHeader_opener hopen hclause]
  constructor
  · rintro ⟨header, body, group, hsplit, hclose, rfl⟩
    obtain ⟨rfl, rfl⟩ := Prod.mk.inj (Option.some_inj.1 hsplit)
    exact hclose
  · intro hclose
    exact ⟨[], cell :: cells, taken, rfl, hclose, rfl⟩

/-- What the search for a body passes over belongs to the header. -/
theorem closesWith_passed_iff (hpassed : splitHeader seen 0 (front ++ rest) =
      (splitHeader seen' 0 rest).map (prepend front)) :
    ClosesWith seen (front ++ rest) taken ↔
      ∃ later, ClosesWith seen' rest later ∧ taken = front ++ later := by
  rw [ClosesWith, hpassed]
  constructor
  · rintro ⟨header, body, group, hsplit, hclose, rfl⟩
    obtain ⟨⟨header', body⟩, hsplit', heq⟩ := Option.map_eq_some_iff.1 hsplit
    obtain ⟨rfl, rfl⟩ := Prod.mk.inj heq
    exact ⟨header' ++ group, ⟨header', body, group, hsplit', hclose, rfl⟩,
      List.append_assoc _ _ _⟩
  · rintro ⟨later, ⟨header, body, group, hsplit, hclose, rfl⟩, rfl⟩
    refine ⟨front ++ header, body, group, ?_, hclose, (List.append_assoc _ _ _).symm⟩
    rw [hsplit]
    rfl

/-- The search for a body that closes does not look at the cells behind it. -/
theorem closesWith_append_iff (htaken : taken <+: cells) :
    ClosesWith seen (cells ++ rest) taken ↔ ClosesWith seen cells taken := by
  induction seen, cells using header_induction generalizing taken with
  | nil seen =>
    obtain rfl := List.prefix_nil.1 htaken
    exact iff_of_false (fun h => h.ne_nil rfl) fun h => h.ne_nil rfl
  | semicolon seen cell cells hsemicolon =>
    exact iff_of_false (not_closesWith_semicolon hsemicolon) (not_closesWith_semicolon hsemicolon)
  | opener seen cell cells hopen hclause =>
    rw [closesWith_opener_iff hopen hclause]
    by_cases hlater : endsFiltered seen = true → throughClose 0 (cell :: (cells ++ rest)) = none
    · rw [List.cons_append, closesWith_opener_iff hopen hlater]
      exact throughClose_append_iff htaken
    · -- Behind the cells a clause closes that is still open in them.
      rw [Classical.not_imp] at hlater
      obtain ⟨hends, hsome⟩ := hlater
      obtain ⟨group, hgroup⟩ := Option.ne_none_iff_exists'.1 hsome
      obtain ⟨more, hmore⟩ := (ends_of_throughClose hgroup).1
      rw [hclause hends]
      refine iff_of_false (fun h => ?_) (Option.some_ne_none _).symm
      have hpassed := splitHeader_group (head?_of_throughClose hopen hgroup) hends (hmore ▸ hgroup)
      rw [List.cons_append, ← hmore, closesWith_passed_iff hpassed] at h
      obtain ⟨later, -, rfl⟩ := h
      have hbegins : group <+: cell :: cells := (List.prefix_append group later).trans htaken
      have hsome' := (throughClose_append_iff hbegins).1 hgroup
      exact absurd ((hclause hends).symm.trans hsome') (Option.some_ne_none _).symm
  | group seen group rest' hopen hends hclose ih =>
    have hclose' : throughClose 0 (group ++ (rest' ++ rest)) = some group := by
      rw [← List.append_assoc, throughClose_append_iff (List.prefix_append group rest')]
      exact hclose
    rw [List.append_assoc, closesWith_passed_iff (splitHeader_group hopen hends hclose'),
      closesWith_passed_iff (splitHeader_group hopen hends hclose)]
    refine exists_congr fun later => and_congr_left ?_
    rintro rfl
    exact ih ((List.prefix_append_right_inj group).1 htaken)
  | pass seen cell cells hsemicolon hopen ih =>
    have hpassed : ∀ cells, ClosesWith seen (cell :: cells) taken ↔
        ∃ later, ClosesWith (cell :: seen) cells later ∧ taken = cell :: later := fun cells =>
      @closesWith_passed_iff seen (cell :: seen) [cell] cells taken
        (splitHeader_pass hsemicolon hopen)
    rw [List.cons_append, hpassed, hpassed]
    refine exists_congr fun later => and_congr_left ?_
    rintro rfl
    exact ih (List.cons_prefix_cons.1 htaken).2

end Body

end PropertyIndex.Source
