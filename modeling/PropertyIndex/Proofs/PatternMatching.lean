import Mathlib.Data.List.Infix
import PropertyIndex.Proofs.Identifier
import PropertyIndex.Text.Wildcard

/-!
# What a pattern matches

A pattern stands for all texts that it turns into when some characters are put in the place of each
star.  The search for them tries a single layout, in which every part between two stars is taken
where it occurs first.  Nothing is lost by that: whatever follows a later occurrence of a part also
follows the first one, with a longer gap.

* `Fits`: a text that a pattern stands for.
* `IsLaidOut`: parts that occur in a text in order, the last one at its end.
* `suffix_of_afterFirst?`: the first occurrence of a part leaves the most.
* `matchesParts_iff`: the search finds a layout if there is one.
* `fits_iff`: a pattern in terms of its parts.
* `matchesPattern_iff`: a pattern matches what it stands for.
-/

namespace PropertyIndex.Text

/-- A name that arises from a pattern when a run of characters, which may be empty, is put in the
place of each star. -/
inductive Fits : (pattern name : List Char) → Prop
  | nil : Fits [] []
  | char {c : Char} {pattern name : List Char} (hc : c ≠ '*') (h : Fits pattern name) :
      Fits (c :: pattern) (c :: name)
  | star {pattern name : List Char} (run : List Char) (h : Fits pattern name) :
      Fits ('*' :: pattern) (run ++ name)

/-- The parts occur in a text in order and without overlap, with anything in front of each of them
and nothing behind the last one. -/
def IsLaidOut : (parts : List (List Char)) → (text : List Char) → Prop
  | [], text => text = []
  | part :: parts, text => ∃ gap rest, text = gap ++ (part ++ rest) ∧ IsLaidOut parts rest

variable {part first text rest : List Char} {parts : List (List Char)}

/-! ## The first occurrence of a part -/

/-- What follows the first occurrence follows an occurrence. -/
theorem exists_gap_of_afterFirst? (h : afterFirst? part text = some rest) :
    ∃ gap, text = gap ++ (part ++ rest) := by
  induction text with
  | nil =>
    rw [afterFirst?] at h
    split_ifs at h with hempty
    obtain rfl := Option.some_inj.1 h
    exact ⟨[], by rw [List.isEmpty_iff.1 hempty]; rfl⟩
  | cons c text ih =>
    rw [afterFirst?, Option.or_eq_some_iff] at h
    rcases h with hhere | ⟨-, hlater⟩
    · exact ⟨[], (List.isPrefixOf?_eq_some_iff_append_eq.1 hhere).symm⟩
    · obtain ⟨gap, rfl⟩ := ih hlater
      exact ⟨c :: gap, rfl⟩

/-- Where a part occurs at all, the search finds it, and what it leaves ends in whatever follows any
occurrence. -/
theorem suffix_of_afterFirst? (gap part rest : List Char) :
    ∃ most, afterFirst? part (gap ++ (part ++ rest)) = some most ∧ rest <:+ most := by
  induction gap with
  | nil =>
    refine ⟨rest, ?_, List.suffix_refl rest⟩
    rw [List.nil_append]
    rcases htext : part ++ rest with _ | ⟨c, text⟩
    · obtain ⟨rfl, rfl⟩ := List.append_eq_nil_iff.1 htext
      rfl
    · rw [afterFirst?, List.isPrefixOf?_eq_some_iff_append_eq.2 htext, Option.some_or]
  | cons c gap ih =>
    obtain ⟨later, hlater, hsuffix⟩ := ih
    rw [List.cons_append, afterFirst?, hlater]
    rcases hhere : part.isPrefixOf? (c :: (gap ++ (part ++ rest))) with _ | most
    · exact ⟨later, rfl, hsuffix⟩
    · refine ⟨most, rfl, ?_⟩
      have hcut : part ++ most = c :: gap ++ (part ++ rest) :=
        List.isPrefixOf?_eq_some_iff_append_eq.1 hhere
      have hlength := congrArg List.length hcut
      simp only [List.length_append, List.length_cons] at hlength
      refine List.suffix_of_suffix_length_le (List.suffix_append_of_suffix ?_)
        (hcut ▸ List.suffix_append part most) (by omega)
      exact List.suffix_append part rest

/-! ## Layouts -/

/-- A layout stays one when there is more in front of the text. -/
theorem IsLaidOut.of_suffix {most : List Char} (h : IsLaidOut (part :: parts) rest)
    (hsuffix : rest <:+ most) : IsLaidOut (part :: parts) most := by
  obtain ⟨more, rfl⟩ := hsuffix
  obtain ⟨gap, behind, rfl, hparts⟩ := h
  exact ⟨more ++ gap, behind, (List.append_assoc _ _ _).symm, hparts⟩

/-- The search finds a layout if there is one. -/
theorem matchesParts_iff : matchesParts parts text = true ↔ IsLaidOut parts text := by
  induction parts generalizing text with
  | nil => exact List.isEmpty_iff
  | cons part parts ih =>
    rcases parts with _ | ⟨next, parts⟩
    · rw [matchesParts, List.isSuffixOf_iff_suffix]
      constructor
      · rintro ⟨gap, rfl⟩
        exact ⟨gap, [], by rw [List.append_nil], rfl⟩
      · rintro ⟨gap, rest, rfl, rfl⟩
        exact ⟨gap, by rw [List.append_nil]⟩
    · show (afterFirst? part text).any (matchesParts (next :: parts)) = true ↔ _
      rw [Option.any_eq_true]
      constructor
      · rintro ⟨rest, hrest, hparts⟩
        obtain ⟨gap, hgap⟩ := exists_gap_of_afterFirst? hrest
        exact ⟨gap, rest, hgap, ih.1 hparts⟩
      · rintro ⟨gap, rest, rfl, hparts⟩
        obtain ⟨most, hmost, hsuffix⟩ := suffix_of_afterFirst? gap part rest
        exact ⟨most, hmost, ih.2 (hparts.of_suffix hsuffix)⟩

/-! ## Patterns -/

section Patterns

variable {c : Char} {pattern name : List Char}

theorem fits_nil_iff : Fits [] name ↔ name = [] := by
  constructor
  · rintro ⟨⟩
    rfl
  · rintro rfl
    exact .nil

theorem fits_star_iff :
    Fits ('*' :: pattern) name ↔ ∃ run rest, name = run ++ rest ∧ Fits pattern rest := by
  constructor
  · rintro (_ | ⟨hne, -⟩ | ⟨run, hfits⟩)
    · exact absurd rfl hne
    · exact ⟨run, _, rfl, hfits⟩
  · rintro ⟨run, rest, rfl, hfits⟩
    exact .star run hfits

theorem fits_cons_iff (hc : c ≠ '*') :
    Fits (c :: pattern) name ↔ ∃ rest, name = c :: rest ∧ Fits pattern rest := by
  constructor
  · rintro (_ | ⟨-, hfits⟩ | -)
    · exact ⟨_, rfl, hfits⟩
    · exact absurd rfl hc
  · rintro ⟨rest, rfl, hfits⟩
    exact .char hc hfits

/-- A name fits a pattern when it begins with the first part and the others are laid out behind
it. -/
theorem fits_iff (hpieces : pieces '*' pattern = first :: parts) :
    Fits pattern name ↔ ∃ rest, name = first ++ rest ∧ IsLaidOut parts rest := by
  induction pattern generalizing first parts name with
  | nil =>
    obtain ⟨rfl, rfl⟩ := List.cons.inj hpieces
    simp only [fits_nil_iff, IsLaidOut, List.nil_append, exists_eq_right]
  | cons c pattern ih =>
    obtain ⟨next, others, hbehind⟩ := List.exists_cons_of_ne_nil (pieces_ne_nil '*' pattern)
    by_cases hc : c = '*'
    · subst hc
      rw [pieces, if_pos (beq_self_eq_true _), hbehind] at hpieces
      obtain ⟨rfl, rfl⟩ := List.cons.inj hpieces
      rw [fits_star_iff]
      constructor
      · rintro ⟨run, _, rfl, hfits⟩
        obtain ⟨rest, rfl, hrest⟩ := (ih hbehind).1 hfits
        exact ⟨_, rfl, run, rest, rfl, hrest⟩
      · rintro ⟨_, rfl, run, rest, rfl, hrest⟩
        exact ⟨run, _, rfl, (ih hbehind).2 ⟨rest, rfl, hrest⟩⟩
    · rw [pieces, if_neg (by simpa using hc), hbehind] at hpieces
      obtain ⟨rfl, rfl⟩ := List.cons.inj hpieces
      rw [fits_cons_iff hc]
      constructor
      · rintro ⟨_, rfl, hfits⟩
        obtain ⟨rest, rfl, hrest⟩ := (ih hbehind).1 hfits
        exact ⟨rest, rfl, hrest⟩
      · rintro ⟨rest, rfl, hrest⟩
        exact ⟨next ++ rest, rfl, (ih hbehind).2 ⟨rest, rfl, hrest⟩⟩

end Patterns

/-- A pattern matches exactly the names that arise from it when each star gives way to a run of
characters. -/
theorem matchesPattern_iff (name pattern : List Char) :
    matchesPattern name pattern = true ↔ Fits pattern name := by
  obtain ⟨first, parts, hpieces⟩ := List.exists_cons_of_ne_nil (pieces_ne_nil '*' pattern)
  rw [fits_iff hpieces, matchesPattern, hpieces]
  rcases parts with _ | ⟨next, parts⟩
  · rw [beq_iff_eq]
    constructor
    · rintro rfl
      exact ⟨[], (List.append_nil _).symm, rfl⟩
    · rintro ⟨rest, rfl, hrest⟩
      obtain rfl : rest = [] := hrest
      exact List.append_nil _
  · show (first.isPrefixOf? name).any (matchesParts (next :: parts)) = true ↔ _
    rw [Option.any_eq_true]
    constructor
    · rintro ⟨rest, hrest, hparts⟩
      exact ⟨rest, (List.isPrefixOf?_eq_some_iff_append_eq.1 hrest).symm, matchesParts_iff.1 hparts⟩
    · rintro ⟨rest, rfl, hparts⟩
      exact ⟨rest, List.isPrefixOf?_eq_some_iff_append_eq.2 rfl, matchesParts_iff.2 hparts⟩

/-- The last part must not reach into the first one. -/
example : matchesPattern "ab".toList "ab*ab".toList = false := by decide

end PropertyIndex.Text
