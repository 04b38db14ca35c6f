import PropertyIndex.Proofs.PatternMatching
import PropertyIndex.Proofs.Words

/-!
# Comments and directives

The normal form of a text is made by three passes: block comments are taken out, line comments and
directives give way to a space, and blanks are collapsed and trimmed.

* `OpensBlockComment`, `OpensDirective`: the stretches of the first two passes, said without the
  recognisers.
* `blockComment?_eq_none_iff`, `lineNoise?_eq_none_iff`: where the recognisers find nothing.
* `uncommented`, `quiet`: what the first two passes leave.
* `normalize_eq_spaced`, `nonblank_normalize`: the normal form is made of the words that they leave.
-/

namespace PropertyIndex.Text

variable {text rest : List Char}

/-! ## Stretches -/

/-- A block comment that is closed stands at the front of a text. -/
def OpensBlockComment (text : List Char) : Prop :=
  ∃ inside rest, text = "/*".toList ++ (inside ++ ("*/".toList ++ rest))

/-- The words that directives begin with. -/
def directiveWords : List String :=
  ["import", "pragma"]

theorem mem_directiveWords {word : String} :
    word ∈ directiveWords ↔ word = "import" ∨ word = "pragma" := by
  rw [directiveWords, List.mem_pair]

/-- A directive that is ended by a semicolon stands at the front of a text. -/
def OpensDirective (text : List Char) : Prop :=
  ∃ word ∈ directiveWords, ∃ c inside rest, isBlank c = true ∧
    text = word.toList ++ c :: (inside ++ ([';'] ++ rest))

/-- What follows a block comment is behind the first sign that closes it. -/
theorem eq_of_blockComment? (h : blockComment? text = some rest) :
    ∃ inside, text = "/*".toList ++ (inside ++ ("*/".toList ++ rest)) := by
  obtain ⟨behind, hbehind, hrest⟩ := Option.bind_eq_some_iff.1 h
  obtain ⟨inside, rfl⟩ := exists_gap_of_afterFirst? hrest
  exact ⟨inside, (List.isPrefixOf?_eq_some_iff_append_eq.1 hbehind).symm⟩

theorem blockComment?_append (inside : List Char) (rest : List Char) :
    ∃ most, blockComment? ("/*".toList ++ (inside ++ ("*/".toList ++ rest))) = some most := by
  obtain ⟨most, hmost, -⟩ := suffix_of_afterFirst? inside "*/".toList rest
  refine ⟨most, ?_⟩
  rw [blockComment?, List.isPrefixOf?_eq_some_iff_append_eq.2 rfl, Option.bind_some, hmost]

theorem blockComment?_eq_none_iff : blockComment? text = none ↔ ¬OpensBlockComment text := by
  constructor
  · rintro hnone ⟨inside, rest, rfl⟩
    obtain ⟨most, hmost⟩ := blockComment?_append inside rest
    exact Option.some_ne_none most (hmost.symm.trans hnone)
  · intro h
    rw [Option.eq_none_iff_forall_ne_some]
    intro rest hrest
    obtain ⟨inside, htext⟩ := eq_of_blockComment? hrest
    exact h ⟨inside, rest, htext⟩

instance (text : List Char) : Decidable (OpensBlockComment text) :=
  decidable_of_iff (blockComment? text ≠ none) (by rw [ne_eq, blockComment?_eq_none_iff, not_not])

theorem eq_of_lineComment? (h : lineComment? text = some rest) :
    ∃ line, text = "//".toList ++ (line ++ rest) := by
  obtain ⟨behind, hbehind, rfl⟩ := Option.map_eq_some_iff.1 h
  refine ⟨behind.takeWhile fun c => c != '\n', ?_⟩
  rw [List.takeWhile_append_dropWhile, List.isPrefixOf?_eq_some_iff_append_eq.1 hbehind]

theorem lineComment?_eq_none_iff : lineComment? text = none ↔ ¬ "//".toList <+: text := by
  rw [lineComment?, Option.map_eq_none_iff, Option.eq_none_iff_forall_ne_some]
  constructor
  · rintro h ⟨rest, rfl⟩
    exact h rest (List.isPrefixOf?_eq_some_iff_append_eq.2 rfl)
  · intro h rest hrest
    exact h ⟨rest, List.isPrefixOf?_eq_some_iff_append_eq.1 hrest⟩

theorem eq_of_directive? {word : String} (h : directive? word text = some rest) :
    ∃ c inside, isBlank c = true ∧ text = word.toList ++ c :: (inside ++ ([';'] ++ rest)) := by
  obtain ⟨behind, hbehind, hrest⟩ := Option.bind_eq_some_iff.1 h
  obtain ⟨more, hmore, hend⟩ := Option.bind_eq_some_iff.1 hrest
  obtain rfl := List.isPrefixOf?_eq_some_iff_append_eq.1 hbehind
  obtain ⟨inside, rfl⟩ := exists_gap_of_afterFirst? hend
  cases behind with
  | nil => exact absurd hmore.symm (Option.some_ne_none _)
  | cons c behind =>
    rw [afterBlanks?] at hmore
    split_ifs at hmore with hc
    have hcut : behind.dropWhile isBlank = inside ++ ([';'] ++ rest) := Option.some_inj.1 hmore
    refine ⟨c, behind.takeWhile isBlank ++ inside, hc, ?_⟩
    rw [List.append_assoc, ← hcut, List.takeWhile_append_dropWhile]

theorem directive?_append (word : String) {c : Char} (hc : isBlank c = true)
    (inside rest : List Char) :
    ∃ most, directive? word (word.toList ++ c :: (inside ++ ([';'] ++ rest))) = some most := by
  -- The blanks behind the first one end before the semicolon, which is none.
  have hblanks : (inside ++ ([';'] ++ rest)).dropWhile isBlank =
      inside.dropWhile isBlank ++ ([';'] ++ rest) := by
    rw [List.dropWhile_append]
    split_ifs with hempty
    · rw [List.isEmpty_iff.1 hempty]
      exact List.dropWhile_cons_of_neg (by decide)
    · rfl
  obtain ⟨most, hmost, -⟩ := suffix_of_afterFirst? (inside.dropWhile isBlank) [';'] rest
  refine ⟨most, ?_⟩
  simp only [directive?, List.isPrefixOf?_eq_some_iff_append_eq.2 rfl, afterBlanks?, if_pos hc,
    hblanks, hmost, Option.bind_eq_bind, Option.bind_some]

/-- What a line comment or a directive leaves is behind it. -/
theorem lineNoise?_cases (h : lineNoise? text = some rest) :
    lineComment? text = some rest ∨ ∃ word ∈ directiveWords, directive? word text = some rest := by
  rw [lineNoise?, Option.or_eq_some_iff, Option.or_eq_some_iff] at h
  rcases h with hline | ⟨-, himport | ⟨-, hpragma⟩⟩
  · exact .inl hline
  · exact .inr ⟨"import", mem_directiveWords.2 (.inl rfl), himport⟩
  · exact .inr ⟨"pragma", mem_directiveWords.2 (.inr rfl), hpragma⟩

theorem lineNoise?_eq_none_iff :
    lineNoise? text = none ↔ ¬ "//".toList <+: text ∧ ¬OpensDirective text := by
  rw [← lineComment?_eq_none_iff]
  constructor
  · intro hnone
    rw [lineNoise?, Option.or_eq_none_iff, Option.or_eq_none_iff] at hnone
    refine ⟨hnone.1, ?_⟩
    rintro ⟨word, hword, c, inside, rest, hc, rfl⟩
    obtain ⟨most, hmost⟩ := directive?_append word hc inside rest
    rcases mem_directiveWords.1 hword with rfl | rfl
    · exact Option.some_ne_none most (hmost.symm.trans hnone.2.1)
    · exact Option.some_ne_none most (hmost.symm.trans hnone.2.2)
  · rintro ⟨hline, hdirective⟩
    rw [Option.eq_none_iff_forall_ne_some]
    intro rest hrest
    rcases lineNoise?_cases hrest with hcomment | ⟨word, hword, hfound⟩
    · exact Option.some_ne_none rest (hcomment.symm.trans hline)
    · obtain ⟨c, inside, hc, htext⟩ := eq_of_directive? hfound
      exact hdirective ⟨word, hword, c, inside, rest, hc, htext⟩

/-! ## Passes -/

theorem isRecogniser_blockComment? : IsRecogniser blockComment? := by
  intro text rest h
  obtain ⟨inside, rfl⟩ := eq_of_blockComment? h
  exact ⟨"/*".toList ++ (inside ++ "*/".toList), List.cons_ne_nil _ _, by
    rw [List.append_assoc, List.append_assoc]⟩

theorem isRecogniser_lineNoise? : IsRecogniser lineNoise? := by
  intro text rest h
  rcases lineNoise?_cases h with hline | ⟨word, hword, hdirective⟩
  · obtain ⟨line, rfl⟩ := eq_of_lineComment? hline
    exact ⟨"//".toList ++ line, List.cons_ne_nil _ _, (List.append_assoc _ _ _).symm⟩
  · obtain ⟨c, inside, -, rfl⟩ := eq_of_directive? hdirective
    refine ⟨word.toList ++ c :: (inside ++ [';']), ?_, ?_⟩
    · exact List.append_ne_nil_of_right_ne_nil _ (List.cons_ne_nil _ _)
    · simp only [List.append_assoc, List.cons_append]

/-- A text without its block comments. -/
def uncommented (text : List Char) : List Char :=
  replace blockComment? [] text

/-- A text with a space in the place of every line comment and directive that is left without its
block comments. -/
def quiet (text : List Char) : List Char :=
  replace lineNoise? [' '] (uncommented text)

/-- The normal form of a text is made of the words that the first two passes leave. -/
theorem normalize_eq_spaced (text : List Char) : normalize text = spaced (words (quiet text)) :=
  trim_replace_afterBlanks? (quiet text)

theorem nonblank_normalize (text : List Char) :
    nonblank (normalize text) = nonblank (quiet text) := by
  rw [normalize_eq_spaced, nonblank_spaced_words]

/-- What is left without comments and directives is a part of the text. -/
theorem nonblank_quiet_sublist (text : List Char) :
    (nonblank (quiet text)).Sublist (nonblank text) :=
  (filter_replace_sublist isRecogniser_lineNoise? rfl (uncommented text)).trans
    (filter_replace_sublist isRecogniser_blockComment? rfl text)

/-- A text without comments and directives passes as it is. -/
theorem quiet_eq_self (h : ∀ here, here <:+ text →
    ¬OpensBlockComment here ∧ ¬ "//".toList <+: here ∧ ¬OpensDirective here) :
    quiet text = text := by
  have huncommented : uncommented text = text :=
    replace_eq_self fun here hhere => blockComment?_eq_none_iff.2 (h here hhere).1
  rw [quiet, huncommented]
  exact replace_eq_self fun here hhere => lineNoise?_eq_none_iff.2 (h here hhere).2

/-- Behind the second pass no two slashes stand side by side: the pass would have begun a stretch at
the first one, and where it did cut something out a space was left. -/
theorem isChain_quiet (text : List Char) :
    (quiet text).IsChain fun x y => ¬(x = '/' ∧ y = '/') := by
  rw [quiet]
  induction uncommented text using replace_induction isRecogniser_lineNoise? with
  | nil => exact List.isChain_nil
  | keep c text hnone ih =>
    rw [replace_of_none hnone, List.isChain_cons]
    refine ⟨?_, ih⟩
    rintro d hd ⟨rfl, rfl⟩
    rcases head?_replace isRecogniser_lineNoise? ' ' [] text with hhead | hhead
    · obtain ⟨rest, rfl⟩ := List.head?_eq_some_iff.1 (hhead.symm.trans hd)
      exact (lineNoise?_eq_none_iff.1 hnone).1 ⟨rest, rfl⟩
    · exact absurd (Option.some_inj.1 (hhead.symm.trans hd)) (by decide)
  | cut stretch rest hne hfound ih =>
    rw [replace_append hne hfound, List.singleton_append, List.isChain_cons]
    exact ⟨fun d _ h => absurd h.1 (by decide), ih⟩

end PropertyIndex.Text
