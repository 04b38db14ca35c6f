import Mathlib.Data.List.Infix
import PropertyIndex.Text.Replace

/-!
# What replacing leaves of a text

A pass over a text cuts out the stretches that a recogniser finds, from the left and without
overlap.  No stretch is empty, so the pass is followed from one step to the next: a character is
kept, or a stretch gives way to the image.

* `IsRecogniser`: a recogniser that finds no empty stretch.
* `replace_of_none`, `replace_append`, `replace_of_some`, `replace_induction`: the steps of a pass.
* `replace_eq_self`: a pass that finds nothing.
* `length_replace_le`, `length_replace_add_le`: a pass whose image has at most one character.
* `head?_replace`: what a pass leaves in front.
* `filter_replace_sublist`: what a pass keeps of a class of characters.
-/

namespace PropertyIndex.Text

/-- A recogniser answers with what follows a stretch at the front of a text, and the stretch has at
least one character. -/
def IsRecogniser (recognise : List Char → Option (List Char)) : Prop :=
  ∀ text rest, recognise text = some rest → ∃ stretch, stretch ≠ [] ∧ text = stretch ++ rest

section Steps

variable {recognise : List Char → Option (List Char)} {image text stretch rest : List Char}
  {c : Char}

@[simp] theorem replace_nil : replace recognise image [] = [] := rfl

/-- What is passed over is dropped. -/
theorem replaceFrom_eq_replace_drop (recognise : List Char → Option (List Char))
    (image : List Char) (skip : Nat) (text : List Char) :
    replaceFrom recognise image skip text = replace recognise image (text.drop skip) := by
  induction text generalizing skip with
  | nil => rw [List.drop_nil, replaceFrom, replace_nil]
  | cons c text ih =>
    cases skip with
    | zero => rfl
    | succ n => rw [List.drop_succ_cons, ← ih, replaceFrom]

/-- Where no stretch begins, the character is kept. -/
theorem replace_of_none (h : recognise (c :: text) = none) :
    replace recognise image (c :: text) = c :: replace recognise image text := by
  simp only [replace, replaceFrom, h]

/-- A stretch gives way to the image. -/
theorem replace_append (hne : stretch ≠ []) (h : recognise (stretch ++ rest) = some rest) :
    replace recognise image (stretch ++ rest) = image ++ replace recognise image rest := by
  obtain ⟨c, stretch, rfl⟩ := List.exists_cons_of_ne_nil hne
  have hdrop : (stretch ++ rest).drop ((stretch ++ rest).length - rest.length) = rest := by
    rw [List.length_append, Nat.add_sub_cancel, List.drop_left]
  rw [List.cons_append] at h ⊢
  simp only [replace, replaceFrom, h]
  rw [replaceFrom_eq_replace_drop, hdrop, replace]

/-- What a recogniser finds gives way to the image. -/
theorem replace_of_some (hrecognise : IsRecogniser recognise) (h : recognise text = some rest) :
    replace recognise image text = image ++ replace recognise image rest := by
  obtain ⟨stretch, hne, rfl⟩ := hrecognise _ _ h
  exact replace_append hne h

/-- What holds of the empty text, and of a text when it holds behind the first step of the pass,
holds of every text. -/
theorem replace_induction (hrecognise : IsRecogniser recognise) {motive : List Char → Prop}
    (nil : motive [])
    (keep : ∀ c text, recognise (c :: text) = none → motive text → motive (c :: text))
    (cut : ∀ stretch rest, stretch ≠ [] → recognise (stretch ++ rest) = some rest →
      motive rest → motive (stretch ++ rest))
    (text : List Char) : motive text := by
  induction hlength : text.length using Nat.strong_induction_on generalizing text with
  | _ n ih =>
    subst hlength
    cases text with
    | nil => exact nil
    | cons c text =>
      rcases hfound : recognise (c :: text) with _ | rest
      · exact keep c text hfound (ih text.length (Nat.lt_succ_self _) text rfl)
      · obtain ⟨stretch, hne, htext⟩ := hrecognise _ _ hfound
        rw [htext] at hfound ih ⊢
        refine cut stretch rest hne hfound (ih rest.length ?_ rest rfl)
        rw [List.length_append]
        exact Nat.lt_add_of_pos_left (List.length_pos_iff.2 hne)

end Steps

section Passes

variable {recognise : List Char → Option (List Char)} {image text here : List Char}

/-- A text in which no stretch begins anywhere is left as it is. -/
theorem replace_eq_self (h : ∀ here, here <:+ text → recognise here = none) :
    replace recognise image text = text := by
  induction text with
  | nil => rfl
  | cons c text ih =>
    rw [replace_of_none (h _ List.suffix_rfl),
      ih fun here hhere => h here (hhere.trans (List.suffix_cons c text))]

/-- A pass that puts at most one character in the place of a stretch makes no text longer. -/
theorem length_replace_le (hrecognise : IsRecogniser recognise) (himage : image.length ≤ 1)
    (text : List Char) : (replace recognise image text).length ≤ text.length := by
  induction text using replace_induction hrecognise with
  | nil => rfl
  | keep c text hnone ih =>
    rw [replace_of_none hnone, List.length_cons, List.length_cons]
    exact Nat.succ_le_succ ih
  | cut stretch rest hne hfound ih =>
    have hstretch : 0 < stretch.length := List.length_pos_iff.2 hne
    rw [replace_append hne hfound, List.length_append, List.length_append]
    omega

/-- A pass makes a text shorter by what it saves at one stretch, if a stretch begins somewhere.
That stretch itself need not be cut out: another one may overlap it. -/
theorem length_replace_add_le (hrecognise : IsRecogniser recognise) (himage : image.length ≤ 1)
    {n : Nat} (hsaves : ∀ here rest, here <:+ text → recognise here = some rest →
      image.length + rest.length + n ≤ here.length)
    (hhere : here <:+ text) (hfound : recognise here ≠ none) :
    (replace recognise image text).length + n ≤ text.length := by
  induction text using replace_induction hrecognise with
  | nil =>
    obtain rfl := List.suffix_nil.1 hhere
    obtain ⟨rest, hrest⟩ := Option.ne_none_iff_exists'.1 hfound
    obtain ⟨stretch, hne, hnil⟩ := hrecognise _ _ hrest
    exact absurd (List.append_eq_nil_iff.1 hnil.symm).1 hne
  | keep c text hnone ih =>
    rcases List.suffix_cons_iff.1 hhere with rfl | hbehind
    · exact absurd hnone hfound
    · have hshort := ih (fun here rest h => hsaves here rest (h.trans (List.suffix_cons c text)))
        hbehind
      rw [replace_of_none hnone, List.length_cons, List.length_cons]
      omega
  | cut stretch rest hne hcut ih =>
    have hsaved := hsaves _ _ List.suffix_rfl hcut
    have hrest := length_replace_le hrecognise himage rest
    rw [replace_append hne hcut, List.length_append]
    omega

/-- A pass leaves in front what was there, or puts the image there. -/
theorem head?_replace (hrecognise : IsRecogniser recognise) (x : Char) (image text : List Char) :
    (replace recognise (x :: image) text).head? = text.head? ∨
      (replace recognise (x :: image) text).head? = some x := by
  induction text using replace_induction hrecognise with
  | nil => exact .inl rfl
  | keep c text hnone ih =>
    rw [replace_of_none hnone]
    exact .inl rfl
  | cut stretch rest hne hfound ih =>
    rw [replace_append hne hfound]
    exact .inr rfl

/-- Of a class of characters that the image does not have, a pass keeps some, in their order. -/
theorem filter_replace_sublist (hrecognise : IsRecogniser recognise) {p : Char → Bool}
    (himage : image.filter p = []) (text : List Char) :
    ((replace recognise image text).filter p).Sublist (text.filter p) := by
  induction text using replace_induction hrecognise with
  | nil => exact List.Sublist.refl _
  | keep c text hnone ih =>
    rw [replace_of_none hnone, List.filter_cons, List.filter_cons]
    split_ifs
    · exact ih.cons_cons c
    · exact ih
  | cut stretch rest hne hfound ih =>
    rw [replace_append hne hfound, List.filter_append, himage, List.nil_append, List.filter_append]
    exact ih.trans (List.sublist_append_right _ _)

end Passes

end PropertyIndex.Text
