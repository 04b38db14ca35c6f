import Mathlib.Data.List.Infix
import PropertyIndex.Text.Occurrence

/-!
# Occurrences as stretches of a text

* `contains_iff`: a text contains a word exactly when it has the word as a contiguous stretch.
* `HasWord`, `exists_split_iff`: a word stands in a text with no character of a given class on
  either side.
* `not_hasWord_append`: no word arises where two texts meet.
* `mem_sitesOf_iff`, `mem_sitesOf_name_iff`: although the search passes over occurrences that
  overlap an earlier one, it finds every name that no name character precedes.
* `containsWord_iff`: the search for a whole name finds every name that stands alone.
* `IsWholeNameAt`, `exists_isWholeNameAt_iff`: the positions at which a word stands alone.
* `containsWord_iff_exists_position`: the search for a whole name by positions.
-/

namespace PropertyIndex.Text

/-- A text contains a word exactly when the word is a contiguous stretch of it. -/
theorem contains_iff {word text : List Char} : contains word text = true ↔ word <:+: text := by
  induction text with
  | nil => rw [contains, List.isEmpty_iff, List.infix_nil]
  | cons c text ih =>
    rw [contains, Bool.or_eq_true, List.isPrefixOf_iff_prefix, ih, List.infix_cons_iff]

/-! ## Words -/

/-- A word stands in a text, and neither of its neighbours is inside a word. -/
def HasWord (inside : Char → Bool) (word text : List Char) : Prop :=
  ∃ before after, text = before ++ word ++ after ∧
    before.getLast?.any inside = false ∧ after.head?.any inside = false

/-- To find a word in a text it is enough to try every length of what is in front of it. -/
theorem exists_split_iff {word text : List Char} {front back : List Char → Prop} :
    (∃ n < text.length + 1, word <+: text.drop n ∧ front (text.take n) ∧
      back (text.drop (n + word.length))) ↔
      ∃ before after, text = before ++ word ++ after ∧ front before ∧ back after := by
  constructor
  · rintro ⟨n, -, ⟨after, hafter⟩, hfront, hback⟩
    refine ⟨text.take n, after, ?_, hfront, ?_⟩
    · rw [List.append_assoc, hafter, List.take_append_drop]
    · rw [← List.drop_drop, ← hafter, List.drop_left] at hback
      exact hback
  · rintro ⟨before, after, rfl, hfront, hback⟩
    refine ⟨before.length, ?_, ⟨after, ?_⟩, ?_, ?_⟩
    · rw [List.append_assoc, List.length_append]
      omega
    · rw [List.append_assoc, List.drop_left]
    · rw [List.append_assoc, List.take_left]
      exact hfront
    · rw [← List.length_append, List.drop_left]
      exact hback

instance (inside : Char → Bool) (word text : List Char) : Decidable (HasWord inside word text) :=
  decidable_of_iff _ exists_split_iff

section Ends

variable {p : Char → Bool} {front back : List Char}

theorem getLast?_any_of_append (h : (front ++ back).getLast?.any p = false) :
    back.getLast?.any p = false := by
  rcases back.eq_nil_or_concat with rfl | ⟨back, c, rfl⟩
  · rfl
  · rw [List.concat_eq_append, ← List.append_assoc, List.getLast?_concat] at h
    rw [List.concat_eq_append, List.getLast?_concat]
    exact h

theorem head?_any_of_append (h : (front ++ back).head?.any p = false) :
    front.head?.any p = false := by
  cases front with
  | nil => rfl
  | cons c front => exact h

theorem head?_any_append (hfront : front.head?.any p = false) (hback : back.head?.any p = false) :
    (front ++ back).head?.any p = false := by
  cases front with
  | nil => exact hback
  | cons c front => exact hfront

theorem getLast?_any_append (hfront : front.getLast?.any p = false)
    (hback : back.getLast?.any p = false) : (front ++ back).getLast?.any p = false := by
  rw [← List.head?_reverse, List.reverse_append]
  rw [← List.head?_reverse] at hfront hback
  exact head?_any_append hback hfront

theorem getLast?_any_of_forall (hne : front ≠ []) (h : ∀ c ∈ front, p c = true) :
    front.getLast?.any p = true := by
  rw [List.getLast?_eq_getLast_of_ne_nil hne]
  exact h _ (List.getLast_mem hne)

theorem head?_any_of_forall (hne : front ≠ []) (h : ∀ c ∈ front, p c = true) :
    front.head?.any p = true := by
  cases front with
  | nil => exact absurd rfl hne
  | cons c front => exact h c List.mem_cons_self

end Ends

/-- A word that begins in front of a seam ends in front of it, unless characters that words may have
meet there. -/
theorem eq_append_of_seam {p : Char → Bool} {word after front back : List Char}
    (hword : ∀ c ∈ word, p c = true) (hne : front ≠ [])
    (hseam : front.getLast?.any p = false ∨ back.head?.any p = false)
    (h : front ++ back = word ++ after) :
    ∃ shift, front = word ++ shift ∧ after = shift ++ back := by
  rcases List.append_eq_append_iff.1 h with ⟨shift, rfl, rfl⟩ | ⟨shift, rfl, rfl⟩
  · by_cases hnil : shift = []
    · subst hnil
      exact ⟨[], by rw [List.append_nil, List.append_nil], rfl⟩
    · have hfront : ∀ c ∈ front, p c = true := fun c hc => hword c (List.mem_append_left _ hc)
      have hshift : ∀ c ∈ shift, p c = true := fun c hc => hword c (List.mem_append_right _ hc)
      exfalso
      rcases hseam with hlast | hhead
      · rw [getLast?_any_of_forall hne hfront] at hlast
        exact Bool.noConfusion hlast
      · have hhead' := head?_any_of_append hhead
        rw [head?_any_of_forall hnil hshift] at hhead'
        exact Bool.noConfusion hhead'
  · exact ⟨shift, rfl, rfl⟩

/-- Where two texts meet no word arises, unless characters that words may have meet there. -/
theorem not_hasWord_append {inside p : Char → Bool} {word front back : List Char}
    (hword : ∀ c ∈ word, p c = true) (hfront : ¬HasWord inside word front)
    (hback : ¬HasWord inside word back)
    (hseam : front.getLast?.any p = false ∨ back.head?.any p = false) :
    ¬HasWord inside word (front ++ back) := by
  rintro ⟨before, after, htext, hbefore, hafter⟩
  rw [List.append_assoc] at htext
  rcases List.append_eq_append_iff.1 htext with ⟨shift, rfl, rfl⟩ | ⟨shift, rfl, hrest⟩
  · exact hback ⟨shift, after, (List.append_assoc _ _ _).symm, getLast?_any_of_append hbefore,
      hafter⟩
  · by_cases hnil : shift = []
    · subst hnil
      exact hback ⟨[], after, hrest.symm, rfl, hafter⟩
    · have hseam' : shift.getLast?.any p = false ∨ back.head?.any p = false :=
        hseam.imp_left getLast?_any_of_append
      obtain ⟨shift', rfl, rfl⟩ := eq_append_of_seam hword hnil hseam' hrest.symm
      exact hfront ⟨before, shift', (List.append_assoc _ _ _).symm, hbefore,
        head?_any_of_append hafter⟩

/-! ## The search for a whole name -/

/-- At an occurrence the search reports a site and goes on behind it. -/
theorem sitesFrom_of_eq_append {w c : Char} {tail left text right : List Char}
    (h : w :: tail ++ right = c :: text) : sitesFrom (w :: tail) left 0 (c :: text) =
      ⟨left, right⟩ :: sitesFrom (w :: tail) (c :: left) tail.length text := by
  have hsome : (w :: tail).isPrefixOf? (c :: text) = some right :=
    List.isPrefixOf?_eq_some_iff_append_eq.2 h
  simp only [sitesFrom, hsome]

/-- Elsewhere the search goes on behind the next character. -/
theorem sitesFrom_of_ne_append {word left text : List Char} {c : Char}
    (h : ∀ right, word ++ right ≠ c :: text) :
    sitesFrom word left 0 (c :: text) = sitesFrom word (c :: left) 0 text := by
  have hnone : word.isPrefixOf? (c :: text) = none := by
    rw [Option.eq_none_iff_forall_ne_some]
    intro right hright
    exact h right (List.isPrefixOf?_eq_some_iff_append_eq.1 hright)
  simp only [sitesFrom, hnone]

/-- A site reports the text on both of its sides. -/
theorem eq_of_mem_sitesFrom {w : Char} {tail left text : List Char} {skip : Nat} {site : Site}
    (h : site ∈ sitesFrom (w :: tail) left skip text) :
    left.reverse ++ text = site.left.reverse ++ (w :: tail) ++ site.right := by
  induction text generalizing left skip with
  | nil => exact absurd h List.not_mem_nil
  | cons c text ih =>
    have hshift : (c :: left).reverse ++ text = left.reverse ++ c :: text := by
      rw [List.reverse_cons, List.append_assoc, List.singleton_append]
    cases skip with
    | succ n => rw [← hshift, ih h]
    | zero =>
      by_cases hmatch : ∃ right, w :: tail ++ right = c :: text
      · obtain ⟨right, hright⟩ := hmatch
        rw [sitesFrom_of_eq_append hright] at h
        rcases List.mem_cons.1 h with rfl | hmem
        · rw [List.append_assoc, hright]
        · rw [← hshift, ih hmem]
      · rw [sitesFrom_of_ne_append (not_exists.1 hmatch)] at h
        rw [← hshift, ih h]

/-- An occurrence is found when none in front of it overlaps it: no end of what is in front of it
begins the word. -/
theorem mem_sitesFrom {w : Char} {tail left before after : List Char} {skip : Nat}
    (hclear : ∀ back, back <:+ before → back ≠ [] → back.length ≤ tail.length →
      ¬ back <+: w :: tail)
    (hskip : skip ≤ before.length) :
    ⟨before.reverse ++ left, after⟩ ∈
      sitesFrom (w :: tail) left skip (before ++ (w :: tail ++ after)) := by
  induction before generalizing left skip with
  | nil =>
    obtain rfl : skip = 0 := Nat.le_zero.1 hskip
    show _ ∈ sitesFrom (w :: tail) left 0 (w :: (tail ++ after))
    rw [@sitesFrom_of_eq_append w w tail left (tail ++ after) after rfl]
    exact List.mem_cons_self
  | cons c before ih =>
    have hclear' : ∀ back, back <:+ before → back ≠ [] → back.length ≤ tail.length →
        ¬ back <+: w :: tail :=
      fun back hback => hclear back (hback.trans (List.suffix_cons c before))
    rw [List.reverse_cons, List.append_assoc, List.singleton_append, List.cons_append]
    cases skip with
    | succ n => exact ih hclear' (Nat.le_of_succ_le_succ hskip)
    | zero =>
      by_cases hmatch : ∃ right, w :: tail ++ right = c :: (before ++ (w :: tail ++ after))
      · obtain ⟨right, hright⟩ := hmatch
        have htail : tail.length ≤ before.length := by
          by_contra hlt
          have hlength : (c :: before).length ≤ tail.length := Nat.lt_of_not_le hlt
          refine hclear (c :: before) (List.suffix_refl _) (List.cons_ne_nil _ _) hlength ?_
          exact List.prefix_of_prefix_length_le ⟨w :: tail ++ after, rfl⟩ ⟨right, hright⟩
            (Nat.le_succ_of_le hlength)
        rw [sitesFrom_of_eq_append hright]
        exact List.mem_cons_of_mem _ (ih hclear' htail)
      · rw [sitesFrom_of_ne_append (not_exists.1 hmatch)]
        exact ih hclear' (Nat.zero_le _)

/-- The sites of a word are its occurrences in the text, as far as none in front overlaps them. -/
theorem mem_sitesOf_iff {word text : List Char} (hne : word ≠ []) {site : Site}
    (hclear : ∀ back, back <:+ site.left.reverse → back ≠ [] → back.length < word.length →
      ¬ back <+: word) :
    site ∈ sitesOf word text ↔ text = site.left.reverse ++ word ++ site.right := by
  obtain ⟨w, tail, rfl⟩ := List.exists_cons_of_ne_nil hne
  constructor
  · exact eq_of_mem_sitesFrom
  · rintro rfl
    have hmem := @mem_sitesFrom w tail [] site.left.reverse site.right 0
      (fun back hback hback' hlength => hclear back hback hback' (Nat.lt_succ_of_le hlength))
      (Nat.zero_le _)
    rw [List.reverse_reverse, List.append_nil] at hmem
    rw [sitesOf, List.append_assoc]
    exact hmem

/-- No occurrence of a word of name characters reaches over a character that no name has. -/
theorem mem_sitesOf_name_iff {word text : List Char} (hword : ∀ c ∈ word, isNameChar c = true)
    (hne : word ≠ []) {site : Site} (hleft : site.left.head?.any isNameChar = false) :
    site ∈ sitesOf word text ↔ text = site.left.reverse ++ word ++ site.right := by
  refine mem_sitesOf_iff hne ?_
  rintro back ⟨front, hfront⟩ hback - hbegins
  have hlast : back.getLast?.any isNameChar = false := by
    refine @getLast?_any_of_append _ front back ?_
    rw [hfront, List.getLast?_reverse]
    exact hleft
  rw [getLast?_any_of_forall hback fun c hc => hword c (hbegins.subset hc)] at hlast
  exact Bool.noConfusion hlast

/-- A word of one character overlaps nothing. -/
theorem mem_sitesOf_singleton_iff {c : Char} {text : List Char} {site : Site} :
    site ∈ sitesOf [c] text ↔ text = site.left.reverse ++ c :: site.right := by
  rw [mem_sitesOf_iff (List.cons_ne_nil c []), List.append_assoc, List.singleton_append]
  intro back _ hback hlength
  exact absurd (List.length_pos_iff.2 hback) (Nat.not_lt.2 (Nat.le_of_lt_succ hlength))

/-- A nonempty word of name characters occurs as a whole name exactly when it stands in the text
between characters that no name has. -/
theorem containsWord_iff {word text : List Char} (hword : ∀ c ∈ word, isNameChar c = true)
    (hne : word ≠ []) : containsWord text word = true ↔ HasWord isNameChar word text := by
  rw [containsWord, List.any_eq_true]
  constructor
  · rintro ⟨site, hmem, hwhole⟩
    rw [Site.isWholeName, Bool.and_eq_true, Bool.not_eq_true', Bool.not_eq_true'] at hwhole
    refine ⟨site.left.reverse, site.right, (mem_sitesOf_name_iff hword hne hwhole.1).1 hmem, ?_,
      hwhole.2⟩
    rw [List.getLast?_reverse]
    exact hwhole.1
  · rintro ⟨before, after, htext, hbefore, hafter⟩
    have hleft : before.reverse.head?.any isNameChar = false := by
      rwa [List.head?_reverse]
    refine ⟨⟨before.reverse, after⟩, (mem_sitesOf_name_iff hword hne hleft).2 ?_, ?_⟩
    · rwa [List.reverse_reverse]
    · rw [Site.isWholeName, hleft, hafter]
      rfl

/-! ## The positions of whole names -/

/-- A word stands at a position of a text, counted from zero, and neither the character directly in
front of it nor the one directly behind it is one that names have. -/
structure IsWholeNameAt (text word : List Char) (position : Nat) : Prop where
  occurs : word <+: text.drop position
  front : ∀ n c, n + 1 = position → text[n]? = some c → isNameChar c = false
  back : ∀ c, text[position + word.length]? = some c → isNameChar c = false

/-- The characters next to a word are the last one in front of it and the first one behind it. -/
theorem isWholeNameAt_length_iff {before word after : List Char} :
    IsWholeNameAt (before ++ word ++ after) word before.length ↔
      before.getLast?.any isNameChar = false ∧ after.head?.any isNameChar = false := by
  have hfront (n : Nat) (hn : n + 1 = before.length) :
      (before ++ word ++ after)[n]? = before.getLast? := by
    rw [List.append_assoc, List.getElem?_append_left (Nat.lt_of_succ_le (Nat.le_of_eq hn)),
      List.getLast?_eq_getElem?, ← hn, Nat.add_sub_cancel]
  have hback : (before ++ word ++ after)[before.length + word.length]? = after.head? := by
    rw [← List.length_append, List.getElem?_append_right (Nat.le_refl _), Nat.sub_self,
      List.head?_eq_getElem?]
  rw [Option.any_eq_false, Option.any_eq_false]
  constructor
  · intro h
    refine ⟨fun c hc => ?_, fun c hc => h.back c (hback.trans hc)⟩
    obtain ⟨init, rfl⟩ := List.getLast?_eq_some_iff.1 hc
    have hlength : init.length + 1 = (init ++ [c]).length := by
      rw [List.length_append, List.length_singleton]
    exact h.front init.length c hlength ((hfront _ hlength).trans hc)
  · rintro ⟨hlast, hhead⟩
    refine ⟨?_, fun n c hn hc => hlast c ((hfront n hn).symm.trans hc),
      fun c hc => hhead c (hback.symm.trans hc)⟩
    rw [List.append_assoc, List.drop_left]
    exact List.prefix_append word after

/-- A nonempty word stands alone in a text exactly when it stands alone at some position of it. -/
theorem exists_isWholeNameAt_iff {text word : List Char} (hne : word ≠ []) :
    (∃ position, IsWholeNameAt text word position) ↔ HasWord isNameChar word text := by
  constructor
  · rintro ⟨position, h⟩
    obtain ⟨after, hafter⟩ := h.occurs
    have hle : position ≤ text.length := by
      by_contra hlt
      rw [List.drop_of_length_le (Nat.le_of_not_le hlt), List.append_eq_nil_iff] at hafter
      exact hne hafter.1
    obtain ⟨before, rfl, rfl⟩ : ∃ before, text = before ++ word ++ after ∧
        before.length = position := by
      refine ⟨text.take position, ?_, List.length_take_of_le hle⟩
      rw [List.append_assoc, hafter, List.take_append_drop]
    exact ⟨before, after, rfl, isWholeNameAt_length_iff.1 h⟩
  · rintro ⟨before, after, rfl, hends⟩
    exact ⟨before.length, isWholeNameAt_length_iff.2 hends⟩

/-- It does not matter which occurrences of a name overlap: a nonempty word of name characters is
found in a text exactly when there is a position at which it stands alone. -/
theorem containsWord_iff_exists_position {text word : List Char}
    (hword : ∀ c ∈ word, isNameChar c = true) (hne : word ≠ []) :
    containsWord text word = true ↔ ∃ position, IsWholeNameAt text word position :=
  (containsWord_iff hword hne).trans (exists_isWholeNameAt_iff hne).symm

/-- In the first text the search goes from the first occurrence of the name to the last one and
passes over the one that overlaps both; in the second text the name also stands behind them. -/
theorem containsWord_iff_exists_position_overlaps :
    (∀ c ∈ "ñañ".toList, isNameChar c = true) ∧ "ñañ".toList ≠ [] ∧
      (sitesOf "ñañ".toList "ñañañañ".toList).length = 2 ∧
      containsWord "ñañañañ".toList "ñañ".toList = false ∧
      (∀ position, ¬ IsWholeNameAt "ñañañañ".toList "ñañ".toList position) ∧
      containsWord "ñañañañ.ñañ()".toList "ñañ".toList = true ∧
      ∃ position, IsWholeNameAt "ñañañañ.ñañ()".toList "ñañ".toList position := by
  have hword : ∀ c ∈ "ñañ".toList, isNameChar c = true := List.all_eq_true.1 (by decide +kernel)
  have hne : "ñañ".toList ≠ [] := by decide
  have hfalse : containsWord "ñañañañ".toList "ñañ".toList = false := by decide +kernel
  have htrue : containsWord "ñañañañ.ñañ()".toList "ñañ".toList = true := by decide +kernel
  refine ⟨hword, hne, by decide +kernel, hfalse, fun position hposition => ?_, htrue,
    (containsWord_iff_exists_position hword hne).1 htrue⟩
  rw [(containsWord_iff_exists_position hword hne).2 ⟨position, hposition⟩] at hfalse
  exact Bool.noConfusion hfalse

/-- Other words may be missed: here the search passes over the only occurrence that stands alone. -/
example : containsWord "xa-a-a".toList "a-a".toList = false ∧
    HasWord isNameChar "a-a".toList "xa-a-a".toList := by
  decide +kernel

end PropertyIndex.Text
