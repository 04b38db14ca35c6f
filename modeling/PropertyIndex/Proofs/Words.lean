import PropertyIndex.Proofs.Replacement
import PropertyIndex.Proofs.Run
import PropertyIndex.Text.Normal

/-!
# Words between blanks

Code in its normal form is a sequence of words with one space between neighbours.  The words are
the longest stretches of a text without a blank.

* `IsWord`, `words`, `words_induction`: the words of a text.
* `spaced`, `words_spaced`: words with single spaces between them.
* `nonblank`, `flatten_words`, `nonblank_spaced`: what words and texts have without their blanks.
* `IsTidy`, `isTidy_spaced`, `isChain_spaced`: the shape of words with spaces between them.
* `trim_replace_afterBlanks?`: collapsing the blanks of a text and trimming it leaves its words with
  spaces between them.
-/

namespace PropertyIndex.Text

variable {word text rest : List Char} {c : Char}

/-! ## Words -/

/-- A nonempty text without blanks. -/
def IsWord (word : List Char) : Prop :=
  word ≠ [] ∧ ∀ c ∈ word, isBlank c = false

/-- The longest stretches of a text that have no blank in them. -/
def words (text : List Char) : List (List Char) :=
  (text.splitOnP isBlank).filter fun word => !word.isEmpty

/-- Every text is built from the empty one by blanks and by words that end where they are put. -/
theorem words_induction {motive : List Char → Prop} (nil : motive [])
    (blank : ∀ c text, isBlank c = true → motive text → motive (c :: text))
    (word : ∀ word rest, IsWord word → rest.head?.all isBlank = true → motive rest →
      motive (word ++ rest))
    (text : List Char) : motive text := by
  induction hlength : text.length using Nat.strong_induction_on generalizing text with
  | _ n ih =>
    subst hlength
    cases text with
    | nil => exact nil
    | cons c text =>
      rcases hc : isBlank c with _ | _
      · have hword : IsWord (c :: text.takeWhile fun d => !isBlank d) := by
          refine ⟨List.cons_ne_nil _ _, List.forall_mem_cons.2 ⟨hc, fun d hd => ?_⟩⟩
          have hnot := List.mem_takeWhile_imp hd
          simpa using hnot
        have hhead : (text.dropWhile fun d => !isBlank d).head?.all isBlank = true := by
          have hnot := List.head?_dropWhile_not (fun d => !isBlank d) text
          rcases hdrop : (text.dropWhile fun d => !isBlank d).head? with _ | d
          · rfl
          · rw [hdrop] at hnot
            simpa using hnot
        have hmotive := word _ _ hword hhead (ih _ ?_ _ rfl)
        · rwa [List.cons_append, List.takeWhile_append_dropWhile] at hmotive
        · exact Nat.lt_succ_of_le (List.dropWhile_suffix _).length_le
      · exact blank c text hc (ih text.length (Nat.lt_succ_self _) text rfl)

@[simp] theorem words_nil : words [] = [] := by simp [words]

/-- At a blank the words of a text are parted. -/
theorem words_append_blank (hc : isBlank c = true) (text rest : List Char) :
    words (text ++ c :: rest) = words text ++ words rest := by
  rw [words, List.splitOnP_append_cons text rest hc, List.filter_append, words, words]

/-- A blank at the front belongs to no word. -/
theorem words_cons_blank (hc : isBlank c = true) (text : List Char) :
    words (c :: text) = words text := by
  rw [← List.nil_append (c :: text), words_append_blank hc, words_nil, List.nil_append]

theorem words_of_isWord (h : IsWord word) : words word = [word] := by
  rw [words, List.splitOnP_eq_singleton h.2]
  simp [h.1]

/-- A word at the front that ends there is the first one. -/
theorem words_append (h : IsWord word) (hrest : rest.head?.all isBlank = true) :
    words (word ++ rest) = word :: words rest := by
  cases rest with
  | nil => rw [List.append_nil, words_of_isWord h, words_nil]
  | cons c rest =>
    have hc : isBlank c = true := hrest
    rw [words_append_blank hc, words_of_isWord h, words_cons_blank hc, List.singleton_append]

/-- The words of a text are words, and each is a stretch of it. -/
theorem isWord_of_mem_words (h : word ∈ words text) : IsWord word ∧ word <:+: text := by
  induction text using words_induction with
  | nil =>
    rw [words_nil] at h
    exact absurd h List.not_mem_nil
  | blank c text hc ih =>
    rw [words_cons_blank hc] at h
    exact ⟨(ih h).1, (ih h).2.trans (List.infix_cons (List.infix_refl text))⟩
  | word first rest hfirst hrest ih =>
    rw [words_append hfirst hrest] at h
    rcases List.mem_cons.1 h with rfl | hmem
    · exact ⟨hfirst, (List.prefix_append word rest).isInfix⟩
    · exact ⟨(ih hmem).1, (ih hmem).2.trans (List.suffix_append first rest).isInfix⟩

/-! ## Words with spaces between them -/

/-- Words with one space between neighbours. -/
def spaced (words : List (List Char)) : List Char :=
  [' '].intercalate words

@[simp] theorem spaced_nil : spaced [] = [] := rfl

@[simp] theorem spaced_singleton (word : List Char) : spaced [word] = word :=
  List.intercalate_singleton

theorem spaced_cons_cons (first second : List Char) (others : List (List Char)) :
    spaced (first :: second :: others) = first ++ ' ' :: spaced (second :: others) := by
  simp [spaced, List.intercalate_cons_cons]

/-- The words can be read off again. -/
theorem words_spaced {list : List (List Char)} (h : ∀ word ∈ list, IsWord word) :
    words (spaced list) = list := by
  induction list with
  | nil => exact words_nil
  | cons first others ih =>
    obtain ⟨hfirst, hothers⟩ := List.forall_mem_cons.1 h
    cases others with
    | nil => rw [spaced_singleton, words_of_isWord hfirst]
    | cons second others =>
      rw [spaced_cons_cons, words_append hfirst rfl, words_cons_blank rfl, ih hothers]

/-- The characters of a text that are no blanks. -/
def nonblank (text : List Char) : List Char :=
  text.filter fun c => !isBlank c

theorem nonblank_append (text rest : List Char) :
    nonblank (text ++ rest) = nonblank text ++ nonblank rest :=
  List.filter_append text rest

theorem nonblank_cons_blank (hc : isBlank c = true) (text : List Char) :
    nonblank (c :: text) = nonblank text :=
  List.filter_cons_of_neg (by simp [hc])

theorem nonblank_of_isWord (h : IsWord word) : nonblank word = word :=
  List.filter_eq_self.2 fun c hc => by simp [h.2 c hc]

/-- The words of a text have all of it but the blanks. -/
theorem flatten_words (text : List Char) : (words text).flatten = nonblank text := by
  induction text using words_induction with
  | nil => rw [words_nil, List.flatten_nil, nonblank, List.filter_nil]
  | blank c text hc ih => rw [words_cons_blank hc, nonblank_cons_blank hc, ih]
  | word first rest hfirst hrest ih =>
    rw [words_append hfirst hrest, List.flatten_cons, ih, nonblank_append,
      nonblank_of_isWord hfirst]

/-- The spaces put nothing but blanks between the words of a text. -/
theorem nonblank_spaced_words (text : List Char) :
    nonblank (spaced (words text)) = nonblank text := by
  rw [← flatten_words, words_spaced fun word hword => (isWord_of_mem_words hword).1, flatten_words]

/-! ## The shape of words with spaces between them -/

/-- A text whose only blanks are single spaces inside it. -/
structure IsTidy (text : List Char) : Prop where
  head : text.head?.any isBlank = false
  last : text.getLast?.any isBlank = false
  only_spaces : ∀ c ∈ text, isBlank c = true → c = ' '
  single : ¬ [' ', ' '] <:+: text

section Shape

variable {list : List (List Char)}

theorem spaced_cons_ne_nil {first : List Char} (h : IsWord first) (others : List (List Char)) :
    spaced (first :: others) ≠ [] := by
  cases others with
  | nil => rw [spaced_singleton]; exact h.1
  | cons second others => rw [spaced_cons_cons]; simp

theorem head?_spaced (hwords : ∀ word ∈ list, IsWord word) :
    (spaced list).head?.any isBlank = false := by
  cases list with
  | nil => rfl
  | cons first others =>
    obtain ⟨hne, hfirst⟩ := hwords _ List.mem_cons_self
    obtain ⟨c, first, rfl⟩ := List.exists_cons_of_ne_nil hne
    have hc : isBlank c = false := hfirst c List.mem_cons_self
    cases others with
    | nil => rwa [spaced_singleton]
    | cons second others => rwa [spaced_cons_cons]

theorem getLast?_spaced (hwords : ∀ word ∈ list, IsWord word) :
    (spaced list).getLast?.any isBlank = false := by
  induction list with
  | nil => rfl
  | cons first others ih =>
    obtain ⟨hfirst, hothers⟩ := List.forall_mem_cons.1 hwords
    cases others with
    | nil =>
      rw [spaced_singleton, List.getLast?_eq_some_getLast hfirst.1]
      exact hfirst.2 _ (List.getLast_mem hfirst.1)
    | cons second others =>
      have hne := spaced_cons_ne_nil (hothers _ List.mem_cons_self) others
      rw [spaced_cons_cons, List.append_cons, List.getLast?_append_of_ne_nil _ hne]
      exact ih hothers

/-- A relation that holds between the neighbours in every word holds between all neighbours, if
words may begin behind a space and end in front of one. -/
theorem isChain_spaced {R : Char → Char → Prop} (hwords : ∀ word ∈ list, IsWord word)
    (hchain : ∀ word ∈ list, word.IsChain R) (hbehind : ∀ c, isBlank c = false → R ' ' c)
    (hbefore : ∀ c, isBlank c = false → R c ' ') : (spaced list).IsChain R := by
  induction list with
  | nil => exact List.isChain_nil
  | cons first others ih =>
    obtain ⟨hfirst, hothers⟩ := List.forall_mem_cons.1 hwords
    obtain ⟨hchainFirst, hchains⟩ := List.forall_mem_cons.1 hchain
    cases others with
    | nil =>
      rw [spaced_singleton]
      exact hchainFirst
    | cons second others =>
      rw [spaced_cons_cons, List.isChain_append, List.isChain_cons]
      refine ⟨hchainFirst, ⟨fun c hc => hbehind c ?_, ih hothers hchains⟩, fun c hc d hd => ?_⟩
      · have hhead := head?_spaced hothers
        rw [Option.mem_def.1 hc] at hhead
        exact hhead
      · obtain rfl : ' ' = d := Option.some_inj.1 hd
        exact hbefore c (hfirst.2 c (List.mem_of_mem_getLast? hc))

/-- A text with a single space between words is tidy. -/
theorem isTidy_spaced (hwords : ∀ word ∈ list, IsWord word) : IsTidy (spaced list) where
  head := head?_spaced hwords
  last := getLast?_spaced hwords
  only_spaces := by
    induction list with
    | nil => simp
    | cons first others ih =>
      obtain ⟨hfirst, hothers⟩ := List.forall_mem_cons.1 hwords
      have hword : ∀ c ∈ first, isBlank c = true → c = ' ' := fun c hc hblank =>
        absurd hblank (Bool.eq_false_iff.1 (hfirst.2 c hc))
      cases others with
      | nil => rwa [spaced_singleton]
      | cons second others =>
        rw [spaced_cons_cons, List.forall_mem_append, List.forall_mem_cons]
        exact ⟨hword, fun _ => rfl, ih hothers⟩
  single := by
    have hspace : ∀ c, isBlank c = false → c ≠ ' ' := by
      rintro c hc rfl
      exact Bool.noConfusion hc
    refine isChain_iff_not_adjacent.1 (isChain_spaced hwords (fun word hword => ?_)
      (fun c hc h => hspace c hc h.2) (fun c hc h => hspace c hc h.1))
    refine isChain_iff_not_adjacent.2 fun hpart => ?_
    exact hspace ' ' ((hwords word hword).2 ' ' (hpart.subset List.mem_cons_self)) rfl

end Shape

/-! ## Collapsing blanks -/

theorem isRecogniser_afterBlanks? : IsRecogniser afterBlanks? := by
  intro text rest h
  cases text with
  | nil => exact absurd h.symm (Option.some_ne_none rest)
  | cons c text =>
    rw [afterBlanks?] at h
    split_ifs at h
    obtain rfl := Option.some_inj.1 h
    exact ⟨c :: text.takeWhile isBlank, List.cons_ne_nil _ _, by
      rw [List.cons_append, List.takeWhile_append_dropWhile]⟩

/-- Behind a blank, the blanks that follow it are gone. -/
theorem collapse_cons_blank (hc : isBlank c = true) (text : List Char) :
    replace afterBlanks? [' '] (c :: text) =
      ' ' :: replace afterBlanks? [' '] (text.dropWhile isBlank) := by
  have hcut : text.takeWhile isBlank ++ text.dropWhile isBlank = text :=
    List.takeWhile_append_dropWhile
  have hfound : afterBlanks? (c :: text.takeWhile isBlank ++ text.dropWhile isBlank) =
      some (text.dropWhile isBlank) := by
    rw [List.cons_append, hcut, afterBlanks?, if_pos hc]
  have hstep : replace afterBlanks? [' '] (c :: text.takeWhile isBlank ++ text.dropWhile isBlank) =
      [' '] ++ replace afterBlanks? [' '] (text.dropWhile isBlank) :=
    replace_append (List.cons_ne_nil _ _) hfound
  rwa [List.cons_append, hcut] at hstep

/-- In front of a word nothing is collapsed, and neither is anything inside it. -/
theorem collapse_append (h : ∀ c ∈ word, isBlank c = false) (rest : List Char) :
    replace afterBlanks? [' '] (word ++ rest) = word ++ replace afterBlanks? [' '] rest := by
  induction word with
  | nil => rfl
  | cons c word ih =>
    obtain ⟨hc, hword⟩ := List.forall_mem_cons.1 h
    have hnone : afterBlanks? (c :: (word ++ rest)) = none := by
      rw [afterBlanks?, if_neg (Bool.eq_false_iff.1 hc)]
    rw [List.cons_append, replace_of_none hnone, ih hword, List.cons_append]

/-- Collapsing the blanks of a text leaves its words with spaces between them, and blanks around
them: one in front if the text begins with one. -/
theorem exists_collapse_eq (text : List Char) :
    ∃ right, (∀ c ∈ right, isBlank c = true) ∧ replace afterBlanks? [' '] text =
      (if text.head?.any isBlank then [' '] else []) ++ (spaced (words text) ++ right) := by
  induction text using words_induction with
  | nil => exact ⟨[], by simp, by simp⟩
  | blank c text hc ih =>
    obtain ⟨right, hright, htext⟩ := ih
    refine ⟨right, hright, ?_⟩
    rw [collapse_cons_blank hc, words_cons_blank hc, List.head?_cons, Option.any_some, if_pos hc]
    rcases text with _ | ⟨d, text⟩
    · simpa using htext
    · rcases hd : isBlank d with _ | _
      · rw [List.dropWhile_cons_of_neg (Bool.eq_false_iff.1 hd), htext, List.head?_cons,
          Option.any_some, hd]
        rfl
      · rw [List.head?_cons, Option.any_some, if_pos hd, collapse_cons_blank hd] at htext
        rw [List.dropWhile_cons_of_pos hd, htext]
  | word first rest hfirst hrest ih =>
    obtain ⟨right, hright, htext⟩ := ih
    have hhead : (first ++ rest).head?.any isBlank = false := by
      obtain ⟨c, first, rfl⟩ := List.exists_cons_of_ne_nil hfirst.1
      exact hfirst.2 c List.mem_cons_self
    rw [collapse_append hfirst.2, words_append hfirst hrest, htext, hhead]
    rcases rest with _ | ⟨c, rest⟩
    · exact ⟨right, hright, by simp⟩
    · have hc : isBlank c = true := hrest
      rw [List.head?_cons, Option.any_some, if_pos hc]
      rcases hwords : words (c :: rest) with _ | ⟨second, others⟩
      · exact ⟨' ' :: right, List.forall_mem_cons.2 ⟨rfl, hright⟩, by simp⟩
      · exact ⟨right, hright, by simp [spaced_cons_cons]⟩

/-- Trimming takes off the blanks around a text that has none at its ends. -/
theorem trim_append {left right : List Char} (hleft : ∀ c ∈ left, isBlank c = true)
    (hright : ∀ c ∈ right, isBlank c = true) (hhead : text.head?.any isBlank = false)
    (hlast : text.getLast?.any isBlank = false) : trim (left ++ (text ++ right)) = text := by
  rw [trim]
  rcases text.eq_nil_or_concat with rfl | ⟨init, c, rfl⟩
  · have hall : ∀ c ∈ left ++ right, isBlank c = true := by
      rw [List.forall_mem_append]
      exact ⟨hleft, hright⟩
    rw [List.nil_append, List.dropWhile_eq_nil_iff.2 hall]
    rfl
  · have hfront : (init.concat c ++ right).head?.any isBlank = false := by
      cases init with
      | nil => exact hhead
      | cons d init => exact hhead
    have hback : ((init.concat c).reverse).head?.any isBlank = false := by
      rwa [List.head?_reverse]
    rw [dropWhile_run hleft hfront, List.reverse_append,
      dropWhile_run (fun c hc => hright c (List.mem_reverse.1 hc)) hback, List.reverse_reverse]

/-- Collapsing the blanks of a text and trimming it leaves its words, with single spaces between
them. -/
theorem trim_replace_afterBlanks? (text : List Char) :
    trim (replace afterBlanks? [' '] text) = spaced (words text) := by
  obtain ⟨right, hright, htext⟩ := exists_collapse_eq text
  have hwords : ∀ word ∈ words text, IsWord word := fun word h => (isWord_of_mem_words h).1
  rw [htext]
  refine trim_append ?_ hright (head?_spaced hwords) (getLast?_spaced hwords)
  split
  · simp [isBlank]
  · simp

end PropertyIndex.Text
