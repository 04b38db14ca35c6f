import PropertyIndex.Proofs.Noise

/-!
# The shape of the normal form

* `isTidy_normalize`, `normalize_shape`: what every normal form looks like.
* `HasBlockComment`, `HasDirective`, `normalize_normalize_cases`: what may come about in a normal
  form, and what another round makes of it.
* `normalize_normalize_iff`: when a normal form is its own normal form, and how soon that is so.
-/

namespace PropertyIndex.Text

variable {text : List Char}

/-! ## The shape of the normal form -/

theorem isTidy_normalize (text : List Char) : IsTidy (normalize text) := by
  rw [normalize_eq_spaced]
  exact isTidy_spaced fun word hword => (isWord_of_mem_words hword).1

/-- Since blanks separate words, no line comment arises from collapsing them. -/
theorem no_lineComment_normalize (text : List Char) : ¬ "//".toList <:+: normalize text := by
  refine isChain_iff_not_adjacent.1 ?_
  rw [normalize_eq_spaced]
  refine isChain_spaced (fun word hword => (isWord_of_mem_words hword).1)
    (fun word hword => List.IsChain.infix (isChain_quiet text) (isWord_of_mem_words hword).2)
    (fun c _ h => absurd h.1 (by decide)) (fun c _ h => absurd h.2 (by decide))

/-- A normal form is tidy, has no line comment in it and is made of characters of the text.  Of a
text without comments and directives it has all the words, with single spaces between them. -/
theorem normalize_shape (text : List Char) :
    IsTidy (normalize text) ∧ ¬ "//".toList <:+: normalize text ∧
      (nonblank (normalize text)).Sublist (nonblank text) ∧
      ('/' ∉ text → ¬ "import".toList <:+: text → ¬ "pragma".toList <:+: text →
        normalize text = spaced (words text)) := by
  refine ⟨isTidy_normalize text, no_lineComment_normalize text, ?_,
    fun hslash himport hpragma => ?_⟩
  · rw [nonblank_normalize]
    exact nonblank_quiet_sublist text
  · rw [normalize_eq_spaced, quiet_eq_self]
    intro here hhere
    refine ⟨?_, ?_, ?_⟩
    · rintro ⟨inside, rest, rfl⟩
      exact hslash (hhere.subset List.mem_cons_self)
    · exact fun hline => hslash (hhere.subset (hline.subset List.mem_cons_self))
    · rintro ⟨word, hword, c, inside, rest, -, rfl⟩
      have hpart : word.toList <:+: text := (List.prefix_append _ _).isInfix.trans hhere.isInfix
      rcases mem_directiveWords.1 hword with rfl | rfl
      · exact himport hpart
      · exact hpragma hpart

/-- Blanks of all kinds around and between words, one of them beyond ASCII. -/
def blankedDeclaration : List Char :=
  "\r\n\tuint \u2003\n x ;\u3000".toList

theorem normalize_shape_blankedDeclaration :
    '/' ∉ blankedDeclaration ∧ ¬ "import".toList <:+: blankedDeclaration ∧
      ¬ "pragma".toList <:+: blankedDeclaration ∧
      normalize blankedDeclaration = "uint x ;".toList := by
  have hslash : '/' ∉ blankedDeclaration := by decide
  have himport : ¬ "import".toList <:+: blankedDeclaration := by decide
  have hpragma : ¬ "pragma".toList <:+: blankedDeclaration := by decide
  have hwords : spaced (words blankedDeclaration) = "uint x ;".toList := by decide
  refine ⟨hslash, himport, hpragma, ?_⟩
  exact ((normalize_shape blankedDeclaration).2.2.2 hslash himport hpragma).trans hwords

/-! ## Normal forms of normal forms -/

/-- A closed block comment stands somewhere in a text. -/
def HasBlockComment (text : List Char) : Prop :=
  ∃ here, here <:+ text ∧ OpensBlockComment here

/-- A directive that is ended by a semicolon stands somewhere in a text. -/
def HasDirective (text : List Char) : Prop :=
  ∃ here, here <:+ text ∧ OpensDirective here

theorem length_trim_le (text : List Char) : (trim text).length ≤ text.length := by
  rw [trim, List.length_reverse]
  refine (List.dropWhile_suffix isBlank).length_le.trans ?_
  rw [List.length_reverse]
  exact (List.dropWhile_suffix isBlank).length_le

theorem length_normalize_le_quiet (text : List Char) :
    (normalize text).length ≤ (quiet text).length :=
  (length_trim_le _).trans (length_replace_le isRecogniser_afterBlanks? (by simp) _)

theorem length_quiet_le_uncommented (text : List Char) :
    (quiet text).length ≤ (uncommented text).length :=
  length_replace_le isRecogniser_lineNoise? (by simp) _

/-- No normal form is longer than its text. -/
theorem length_normalize_le (text : List Char) : (normalize text).length ≤ text.length :=
  (length_normalize_le_quiet text).trans ((length_quiet_le_uncommented text).trans
    (length_replace_le isRecogniser_blockComment? (by simp) text))

/-- Taking out a block comment saves its four signs. -/
theorem length_normalize_of_hasBlockComment (h : HasBlockComment text) :
    (normalize text).length + 4 ≤ text.length := by
  obtain ⟨here, hhere, hopens⟩ := h
  have hshort : (uncommented text).length + 4 ≤ text.length := by
    refine length_replace_add_le isRecogniser_blockComment? (by simp) ?_ hhere
      (mt blockComment?_eq_none_iff.1 (not_not_intro hopens))
    rintro here rest - hfound
    obtain ⟨inside, rfl⟩ := eq_of_blockComment? hfound
    simp
  have hquiet := length_quiet_le_uncommented text
  have hnormal := length_normalize_le_quiet text
  omega

/-- Where there are no comments, putting a space in the place of a directive saves its word at
least. -/
theorem length_normalize_of_hasDirective (hblock : ¬HasBlockComment text)
    (hline : ¬ "//".toList <:+: text) (h : HasDirective text) :
    (normalize text).length + 4 ≤ text.length := by
  obtain ⟨here, hhere, hopens⟩ := h
  have huncommented : uncommented text = text := replace_eq_self fun here hhere =>
    blockComment?_eq_none_iff.2 fun hopens => hblock ⟨here, hhere, hopens⟩
  have hshort : (quiet text).length + 4 ≤ text.length := by
    rw [quiet, huncommented]
    refine length_replace_add_le isRecogniser_lineNoise? (by simp) ?_ hhere
      (fun hnone => (lineNoise?_eq_none_iff.1 hnone).2 hopens)
    intro here rest hhere hfound
    rcases lineNoise?_cases hfound with hcomment | ⟨word, hword, hdirective⟩
    · obtain ⟨line, rfl⟩ := eq_of_lineComment? hcomment
      exact absurd ((List.prefix_append _ _).isInfix.trans hhere.isInfix) hline
    · obtain ⟨c, inside, -, rfl⟩ := eq_of_directive? hdirective
      have hsix : word.toList.length = 6 := by
        rcases mem_directiveWords.1 hword with rfl | rfl <;> rfl
      simp only [List.length_append, List.length_cons, List.length_nil, hsix]
      omega
  have hnormal := length_normalize_le_quiet text
  omega

/-- A normal form without block comments and directives is left as it is. -/
theorem normalize_normalize_of_not (hblock : ¬HasBlockComment (normalize text))
    (hdirective : ¬HasDirective (normalize text)) :
    normalize (normalize text) = normalize text := by
  have hquiet : quiet (normalize text) = normalize text := quiet_eq_self fun here hhere =>
    ⟨fun h => hblock ⟨here, hhere, h⟩,
      fun h => no_lineComment_normalize text (h.isInfix.trans hhere.isInfix),
      fun h => hdirective ⟨here, hhere, h⟩⟩
  rw [normalize_eq_spaced (normalize text), hquiet, normalize_eq_spaced,
    words_spaced fun word hword => (isWord_of_mem_words hword).1]

/-- A normal form is left as it is, or it has a block comment or a directive and becomes shorter. -/
theorem normalize_normalize_cases (text : List Char) :
    (normalize (normalize text) = normalize text ∧ ¬HasBlockComment (normalize text) ∧
        ¬HasDirective (normalize text)) ∨
      ((normalize (normalize text)).length + 4 ≤ (normalize text).length ∧
        (HasBlockComment (normalize text) ∨ HasDirective (normalize text))) := by
  by_cases hblock : HasBlockComment (normalize text)
  · exact .inr ⟨length_normalize_of_hasBlockComment hblock, .inl hblock⟩
  by_cases hdirective : HasDirective (normalize text)
  · exact .inr ⟨length_normalize_of_hasDirective hblock (no_lineComment_normalize text) hdirective,
      .inr hdirective⟩
  · exact .inl ⟨normalize_normalize_of_not hblock hdirective, hblock, hdirective⟩

/-- Rounds of normalisation come to an end: each of them but the last one saves four characters. -/
theorem exists_rounds (text : List Char) :
    ∃ rounds ≤ (normalize text).length / 4,
      normalize (normalize^[rounds] (normalize text)) = normalize^[rounds] (normalize text) := by
  induction hlength : (normalize text).length using Nat.strong_induction_on generalizing text with
  | _ n ih =>
    subst hlength
    rcases normalize_normalize_cases text with ⟨hsame, -⟩ | ⟨hshort, -⟩
    · exact ⟨0, Nat.zero_le _, hsame⟩
    · obtain ⟨rounds, hrounds, hsettled⟩ := ih _ (by omega) (normalize text) rfl
      refine ⟨rounds + 1, by omega, ?_⟩
      rw [Function.iterate_succ_apply]
      exact hsettled

/-- A normal form is its own normal form exactly when no closed block comment and no directive came
about in it.  In any case nothing changes any more after some rounds, one for every four characters
of the text at most and one more. -/
theorem normalize_normalize_iff (text : List Char) :
    (normalize (normalize text) = normalize text ↔
        ¬HasBlockComment (normalize text) ∧ ¬HasDirective (normalize text)) ∧
      ∃ rounds ≤ text.length / 4 + 1, ∀ more,
        normalize^[more + rounds] text = normalize^[rounds] text := by
  constructor
  · rcases normalize_normalize_cases text with ⟨hsame, hnone⟩ | ⟨hshort, hsome⟩
    · exact iff_of_true hsame hnone
    · refine iff_of_false (fun hsame => ?_) fun hnone => hsome.elim hnone.1 hnone.2
      rw [hsame] at hshort
      omega
  · obtain ⟨rounds, hrounds, hsettled⟩ := exists_rounds text
    have hlength := Nat.div_le_div_right (length_normalize_le text) (c := 4)
    refine ⟨rounds + 1, by omega, fun more => ?_⟩
    rw [Function.iterate_add_apply, Function.iterate_succ_apply]
    exact Function.iterate_fixed hsettled more

/-- A line comment directly behind the word of a directive hides the directive from the second pass
and leaves a space in its own place. -/
theorem not_forall_normalize_normalize :
    ¬ ∀ text : List Char, normalize (normalize text) = normalize text := by
  intro h
  exact absurd (h "import// token\n\"./Token.sol\";".toList) (by decide)

end PropertyIndex.Text
