import Mathlib.Data.List.Basic
import PropertyIndex.Text.Identifier

/-!
# The pieces of a text

A text cut at every separator falls into the longest stretches that are free of it.  Where two texts
meet, the last piece of one and the first of the other are put together.

* `length_pieces`, `separator_notMem`: how many pieces there are, and that they are free.
* `exists_pieces_append`, `pieces_append_of_eq`, `pieces_append_separator`: the pieces of texts that
  are put together, without and with a separator between them.
* `pieces_of_notMem`, `pieces_intercalate`: cutting undoes joining.
* `IsPiece`, `mem_pieces_iff`: what a piece is.
* `IsBareName`, `bareName_eq_iff`: the bare name of a method.
-/

namespace PropertyIndex.Text

variable {separator : Char} {text front back : List Char}

theorem pieces_ne_nil (separator : Char) (text : List Char) : pieces separator text ≠ [] := by
  cases text with
  | nil => exact List.cons_ne_nil _ _
  | cons c text =>
    rw [pieces]
    split
    · exact List.cons_ne_nil _ _
    · split
      · exact List.cons_ne_nil _ _
      · exact List.cons_ne_nil _ _

theorem length_pieces (separator : Char) (text : List Char) :
    (pieces separator text).length = text.count separator + 1 := by
  induction text with
  | nil => rfl
  | cons c text ih =>
    rw [pieces, List.count_cons]
    split_ifs with h
    · rw [List.length_cons, ih]
    · obtain ⟨piece, rest, hpieces⟩ := List.exists_cons_of_ne_nil (pieces_ne_nil separator text)
      rw [← ih, hpieces]
      rfl

/-! ## Texts that are put together -/

/-- Where two texts meet, the last piece of one and the first of the other are put together. -/
theorem exists_pieces_append (separator : Char) (front : List Char) :
    ∃ init last, pieces separator front = init ++ [last] ∧
      ∀ {back : List Char} {first : List Char} {rest : List (List Char)},
        pieces separator back = first :: rest →
          pieces separator (front ++ back) = init ++ (last ++ first) :: rest := by
  induction front with
  | nil => exact ⟨[], [], rfl, fun h => h⟩
  | cons c front ih =>
    obtain ⟨init, last, hfront, hmeet⟩ := ih
    by_cases hc : (c == separator) = true
    · refine ⟨[] :: init, last, ?_, fun hback => ?_⟩
      · rw [pieces, if_pos hc, hfront, List.cons_append]
      · rw [List.cons_append, pieces, if_pos hc, hmeet hback, List.cons_append]
    · cases init with
      | nil =>
        refine ⟨[], c :: last, ?_, fun hback => ?_⟩
        · rw [pieces, if_neg hc, hfront]
          rfl
        · rw [List.cons_append, pieces, if_neg hc, hmeet hback]
          rfl
      | cons piece init =>
        refine ⟨(c :: piece) :: init, last, ?_, fun hback => ?_⟩
        · rw [pieces, if_neg hc, hfront]
          rfl
        · rw [List.cons_append, pieces, if_neg hc, hmeet hback]
          rfl

theorem pieces_append_of_eq {init rest : List (List Char)} {last first : List Char}
    (hfront : pieces separator front = init ++ [last])
    (hback : pieces separator back = first :: rest) :
    pieces separator (front ++ back) = init ++ (last ++ first) :: rest := by
  obtain ⟨above, lowest, habove, hmeet⟩ := exists_pieces_append separator front
  rw [habove] at hfront
  obtain ⟨rfl, hlast⟩ := List.append_inj' hfront rfl
  rw [← (List.cons.inj hlast).1]
  exact hmeet hback

theorem exists_pieces_eq_concat (separator : Char) (text : List Char) :
    ∃ init last, pieces separator text = init ++ [last] ∧ init.length = text.count separator := by
  obtain ⟨init, last, hpieces, -⟩ := exists_pieces_append separator text
  have hlength := length_pieces separator text
  rw [hpieces, List.length_append] at hlength
  exact ⟨init, last, hpieces, Nat.succ.inj hlength⟩

theorem pieces_append_separator (separator : Char) (front back : List Char) :
    pieces separator (front ++ separator :: back) =
      pieces separator front ++ pieces separator back := by
  obtain ⟨init, last, hfront, -⟩ := exists_pieces_eq_concat separator front
  have hback : pieces separator (separator :: back) = [] :: pieces separator back :=
    if_pos (beq_self_eq_true _)
  rw [pieces_append_of_eq hfront hback, hfront, List.append_nil, List.append_assoc,
    List.singleton_append]

/-- The first piece is empty when nothing stands in front of the first separator. -/
theorem head?_pieces_eq_some_nil_iff :
    (pieces separator text).head? = some [] ↔ text = [] ∨ text.head? = some separator := by
  cases text with
  | nil => exact iff_of_true rfl (Or.inl rfl)
  | cons c text =>
    rw [List.head?_cons, Option.some_inj, or_iff_right (List.cons_ne_nil _ _), pieces]
    by_cases hc : c = separator
    · rw [if_pos (by simpa using hc)]
      exact iff_of_true rfl hc
    · obtain ⟨first, rest, hpieces⟩ := List.exists_cons_of_ne_nil (pieces_ne_nil separator text)
      rw [if_neg (by simpa using hc), hpieces]
      exact iff_of_false (fun h => List.cons_ne_nil _ _ (Option.some_inj.1 h)) hc

/-! ## Joined texts -/

theorem pieces_of_notMem (h : separator ∉ text) : pieces separator text = [text] := by
  induction text with
  | nil => rfl
  | cons c text ih =>
    rw [List.mem_cons, not_or] at h
    rw [pieces, if_neg (by simpa using fun heq => h.1 heq.symm), ih h.2]

theorem pieces_append {first : List Char} (h : separator ∉ first) (text : List Char) :
    pieces separator (first ++ separator :: text) = first :: pieces separator text := by
  rw [pieces_append_separator, pieces_of_notMem h, List.singleton_append]

/-- Texts without the separator come back from their joined form. -/
theorem pieces_intercalate {texts : List (List Char)} (hne : texts ≠ [])
    (h : ∀ text ∈ texts, separator ∉ text) :
    pieces separator ([separator].intercalate texts) = texts := by
  induction texts with
  | nil => exact absurd rfl hne
  | cons first rest ih =>
    have hfirst := h first List.mem_cons_self
    cases rest with
    | nil => rw [List.intercalate_singleton, pieces_of_notMem hfirst]
    | cons second rest =>
      rw [List.intercalate_cons_cons, List.append_assoc, List.singleton_append,
        pieces_append hfirst,
        ih (List.cons_ne_nil _ _) fun text htext => h text (List.mem_cons_of_mem _ htext)]

/-! ## What a piece is -/

theorem separator_notMem {piece : List Char} (h : piece ∈ pieces separator text) :
    separator ∉ piece := by
  induction text generalizing piece with
  | nil =>
    rw [List.mem_singleton.1 h]
    exact List.not_mem_nil
  | cons c text ih =>
    obtain ⟨first, rest, hpieces⟩ := List.exists_cons_of_ne_nil (pieces_ne_nil separator text)
    by_cases hc : c = separator
    · rw [pieces, if_pos (by simpa using hc)] at h
      rcases List.mem_cons.1 h with rfl | hmem
      · exact List.not_mem_nil
      · exact ih hmem
    · rw [pieces, if_neg (by simpa using hc), hpieces] at h
      rw [hpieces] at ih
      rcases List.mem_cons.1 h with rfl | hmem
      · rw [List.mem_cons, not_or]
        exact ⟨fun heq => hc heq.symm, ih List.mem_cons_self⟩
      · exact ih (List.mem_cons_of_mem _ hmem)

/-- A longest stretch of a text that is free of the separator: each of its ends is an end of the
text or has a separator behind it. -/
def IsPiece (separator : Char) (piece text : List Char) : Prop :=
  separator ∉ piece ∧ ∃ before after, text = before ++ piece ++ after ∧
    (before = [] ∨ before.getLast? = some separator) ∧
    (after = [] ∨ after.head? = some separator)

/-- A piece stands behind the pieces in front of it and in front of those behind it. -/
theorem exists_of_pieces_eq {init rest : List (List Char)} {piece : List Char}
    (h : pieces separator text = init ++ piece :: rest) :
    ∃ before after, text = before ++ piece ++ after ∧
      (if init = [] then before = [] else before.getLast? = some separator) ∧
      (if rest = [] then after = [] else after.head? = some separator) := by
  induction text generalizing init piece with
  | nil =>
    obtain ⟨rfl, rfl, rfl⟩ : init = [] ∧ piece = [] ∧ rest = [] := by
      simpa [pieces, List.singleton_eq_append_iff] using h
    exact ⟨[], [], rfl, rfl, rfl⟩
  | cons c text ih =>
    by_cases hc : c = separator
    · subst hc
      rw [pieces, if_pos (beq_self_eq_true c)] at h
      cases init with
      | nil =>
        obtain ⟨rfl, rfl⟩ := List.cons.inj h
        exact ⟨[], c :: text, rfl, rfl, by rw [if_neg (pieces_ne_nil c text)]; rfl⟩
      | cons first init =>
        obtain ⟨before, after, rfl, hbefore, hafter⟩ := ih (List.cons.inj h).2
        refine ⟨c :: before, after, rfl, ?_, hafter⟩
        rw [if_neg (List.cons_ne_nil _ _), List.getLast?_cons]
        split at hbefore
        · rw [hbefore]
          rfl
        · rw [hbefore]
          rfl
    · obtain ⟨first, more, hpieces⟩ := List.exists_cons_of_ne_nil (pieces_ne_nil separator text)
      rw [pieces, if_neg (by simpa using hc), hpieces] at h
      cases init with
      | nil =>
        obtain ⟨rfl, rfl⟩ := List.cons.inj h
        obtain ⟨before, after, htext, hbefore, hafter⟩ := @ih [] first hpieces
        obtain rfl : before = [] := hbefore
        exact ⟨[], after, congrArg (c :: ·) htext, rfl, hafter⟩
      | cons top init =>
        have hmore : more = init ++ piece :: rest := (List.cons.inj h).2
        obtain ⟨before, after, rfl, hbefore, hafter⟩ :=
          @ih (first :: init) piece (by rw [hpieces, hmore, List.cons_append])
        refine ⟨c :: before, after, rfl, ?_, hafter⟩
        rw [if_neg (List.cons_ne_nil _ _)] at hbefore ⊢
        rw [List.getLast?_cons, hbefore]
        rfl

/-- Cutting a text gives its longest stretches that are free of the separator. -/
theorem mem_pieces_iff {piece : List Char} :
    piece ∈ pieces separator text ↔ IsPiece separator piece text := by
  constructor
  · intro h
    obtain ⟨init, rest, hpieces⟩ := List.append_of_mem h
    obtain ⟨before, after, htext, hbefore, hafter⟩ := exists_of_pieces_eq hpieces
    refine ⟨separator_notMem h, before, after, htext, ?_, ?_⟩
    · split at hbefore
      · exact Or.inl hbefore
      · exact Or.inr hbefore
    · split at hafter
      · exact Or.inl hafter
      · exact Or.inr hafter
  · rintro ⟨hpiece, before, after, rfl, hbefore, hafter⟩
    have hback : piece ∈ pieces separator (piece ++ after) := by
      rcases hafter with rfl | hhead
      · rw [List.append_nil, pieces_of_notMem hpiece]
        exact List.mem_cons_self
      · obtain ⟨after, rfl⟩ := List.head?_eq_some_iff.1 hhead
        rw [pieces_append hpiece]
        exact List.mem_cons_self
    rcases hbefore with rfl | hlast
    · exact hback
    · obtain ⟨before, rfl⟩ := List.getLast?_eq_some_iff.1 hlast
      rw [List.append_assoc, List.append_assoc, List.singleton_append, pieces_append_separator]
      exact List.mem_append_right _ hback

/-- A character other than the separator is in one of the pieces. -/
theorem exists_mem_pieces {c : Char} (hc : c ∈ text) (hne : c ≠ separator) :
    ∃ piece ∈ pieces separator text, c ∈ piece := by
  obtain ⟨front, back, rfl⟩ := List.append_of_mem hc
  obtain ⟨init, last, -, hmeet⟩ := exists_pieces_append separator front
  obtain ⟨first, rest, hback⟩ := List.exists_cons_of_ne_nil (pieces_ne_nil separator back)
  have hpieces : pieces separator (c :: back) = (c :: first) :: rest := by
    rw [pieces, if_neg (by simpa using hne), hback]
  refine ⟨last ++ c :: first, ?_, List.mem_append_right _ List.mem_cons_self⟩
  rw [hmeet hpieces]
  exact List.mem_append_right _ List.mem_cons_self

theorem mem_of_mem_pieces {c : Char} {piece : List Char} (hpiece : piece ∈ pieces separator text)
    (hc : c ∈ piece) : c ∈ text := by
  obtain ⟨-, before, after, rfl, -, -⟩ := mem_pieces_iff.1 hpiece
  exact List.mem_append_left _ (List.mem_append_right _ hc)

/-! ## Bare names -/

/-- The bare name of a method is what stands behind its last dot; a method without a dot is its own
bare name. -/
def IsBareName (name method : String) : Prop :=
  '.' ∉ name.toList ∧
    (method = name ∨ ∃ receiver, method.toList = receiver ++ '.' :: name.toList)

theorem bareName_eq_iff {name method : String} :
    bareName method = name ↔ IsBareName name method := by
  rw [bareName, ← String.toList_inj, String.toList_ofList]
  constructor
  · intro h
    obtain ⟨init, last, hpieces, -⟩ := exists_pieces_eq_concat '.' method.toList
    rw [hpieces, List.getLast?_concat, Option.getD_some] at h
    subst h
    have hmem : name.toList ∈ pieces '.' method.toList := by
      rw [hpieces]
      exact List.mem_append_right _ List.mem_cons_self
    obtain ⟨before, after, htext, hbefore, hafter⟩ := exists_of_pieces_eq hpieces
    obtain rfl : after = [] := hafter
    rw [List.append_nil] at htext
    refine ⟨separator_notMem hmem, ?_⟩
    split at hbefore
    · left
      rw [← String.toList_inj, htext, hbefore, List.nil_append]
    · right
      obtain ⟨receiver, rfl⟩ := List.getLast?_eq_some_iff.1 hbefore
      exact ⟨receiver, by rw [htext, List.append_assoc, List.singleton_append]⟩
  · rintro ⟨hdot, rfl | ⟨receiver, hmethod⟩⟩
    · rw [pieces_of_notMem hdot]
      rfl
    · rw [hmethod, pieces_append_separator, pieces_of_notMem hdot, List.getLast?_concat]
      rfl

end PropertyIndex.Text
