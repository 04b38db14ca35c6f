import PropertyIndex.Proofs.Masking
import PropertyIndex.Proofs.NormalForm

/-!
# Comments that the normal form drops

The normal form recognises comments by their signs alone, and in two passes; the masked copy reads a
text once and knows where string literals are.  The two agree on a text whose signs are all read as
what they are.

* `ClosesOnLine`, `IsMisread`, `SignsCount`: the places at which the passes see a comment that is
  none, or more of it than there is.
* `IsLegible`: a text without such places in which every block comment is closed.
* `outsideComments`: what the reading of the masked copy leaves outside the comments.
* `Follows`, `Agrees`, `agrees_of_isLegible`: what the first pass leaves against the reading,
  region by region.
* `nonblank_normalize_eq`: the normal form of a text has all that lies outside its comments.
-/

namespace PropertyIndex.Source

open Text

variable {region : Region} {text rest : List Char} {c : Char}

/-! ## Signs -/

/-- A block comment at the front of a text is closed before the line ends. -/
def ClosesOnLine (text : List Char) : Prop :=
  ∃ inside rest, text = "/*".toList ++ (inside ++ ("*/".toList ++ rest)) ∧ '\n' ∉ inside

/-- Inside a region, a text begins with a sign that the passes do not take for what it is: any
comment in a string literal, a block comment at the second slash of a line comment, and a block
comment in a line comment that goes on behind the line. -/
def IsMisread : Region → List Char → Prop
  | .code, text => ∃ behind, text = '/' :: behind ∧ OpensBlockComment behind
  | .literal _, text => "//".toList <+: text ∨ OpensBlockComment text
  | .escaped _, text => "//".toList <+: text ∨ OpensBlockComment text
  | .lineComment, text => OpensBlockComment text ∧ ¬ClosesOnLine text
  | .blockComment, _ => False

/-- No sign of a text that begins inside a region is misread. -/
def SignsCount (region : Region) (text : List Char) : Prop :=
  ∀ front here, text = front ++ here → ¬IsMisread (regionAfter region front) here

instance (text : List Char) : Decidable (ClosesOnLine text) :=
  decidable_of_iff ("/*".toList <+: text ∧ ∃ n < (text.drop 2).length + 1,
      "*/".toList <+: (text.drop 2).drop n ∧ '\n' ∉ (text.drop 2).take n ∧ True) <| by
    rw [@exists_split_iff "*/".toList (text.drop 2) (fun front => '\n' ∉ front) fun _ => True]
    constructor
    · rintro ⟨⟨behind, rfl⟩, inside, rest, hbehind, hfeed, -⟩
      obtain rfl : behind = inside ++ "*/".toList ++ rest := hbehind
      exact ⟨inside, rest, by rw [List.append_assoc], hfeed⟩
    · rintro ⟨inside, rest, rfl, hfeed⟩
      have hbehind : ("/*".toList ++ (inside ++ ("*/".toList ++ rest))).drop 2 =
          inside ++ "*/".toList ++ rest := by
        rw [List.append_assoc]
        rfl
      exact ⟨List.prefix_append _ _, inside, rest, hbehind, hfeed, trivial⟩

instance (region : Region) (text : List Char) : Decidable (IsMisread region text) :=
  match region with
  | .code =>
    match text with
    | [] => isFalse fun ⟨_, h, _⟩ => List.cons_ne_nil _ _ h.symm
    | c :: behind => decidable_of_iff (c = '/' ∧ OpensBlockComment behind)
        ⟨fun ⟨hc, h⟩ => ⟨behind, hc ▸ rfl, h⟩,
          fun ⟨_, htext, h⟩ => ⟨(List.cons.inj htext).1, (List.cons.inj htext).2 ▸ h⟩⟩
  | .literal _ => decidable_of_iff ("//".toList <+: text ∨ OpensBlockComment text) Iff.rfl
  | .escaped _ => decidable_of_iff ("//".toList <+: text ∨ OpensBlockComment text) Iff.rfl
  | .lineComment => decidable_of_iff (OpensBlockComment text ∧ ¬ClosesOnLine text) Iff.rfl
  | .blockComment => isFalse id

/-- To find a sign that is misread it is enough to try every place. -/
instance (region : Region) (text : List Char) : Decidable (SignsCount region text) :=
  decidable_of_iff
    (∀ n < text.length + 1, ¬IsMisread (regionAfter region (text.take n)) (text.drop n)) <| by
    constructor
    · rintro h front here rfl
      have hplace := h front.length (by rw [List.length_append]; omega)
      rwa [List.take_left, List.drop_left] at hplace
    · exact fun h n _ => h _ _ (List.take_append_drop n text).symm

theorem SignsCount.front (h : SignsCount region text) : ¬IsMisread region text :=
  h [] text rfl

/-- A text that begins inside a region has no sign that is misread, and leaves no block comment
open. -/
structure IsLegible (region : Region) (text : List Char) : Prop where
  signs : SignsCount region text
  closed : regionAfter region text ≠ .blockComment

/-- What is legible is legible behind a part that is read for itself. -/
theorem IsLegible.behind {after : Region} (taken : List Char)
    (h : IsLegible region (taken ++ text)) (hafter : ∀ front, front <+: text →
      regionAfter region (taken ++ front) = regionAfter after front) : IsLegible after text where
  signs := by
    rintro front here rfl
    rw [← hafter front (List.prefix_append front here)]
    exact h.signs (taken ++ front) here (List.append_assoc _ _ _).symm
  closed := by
    rw [← hafter text List.prefix_rfl]
    exact h.closed

/-- The part of a text that lies outside its comments, if it begins inside a region. -/
def outsideFrom (region : Region) (text : List Char) : List Char :=
  source ((maskFrom region text).filter fun cell => cell.part != .comment)

/-- The part of a text that lies outside its comments. -/
def outsideComments (text : List Char) : List Char :=
  outsideFrom .code text

/-! ## What the first pass leaves -/

/-- What is left by the first pass has the part outside the comments in front as long as no slash
comes, and all of it once line comments are taken out, if no directive begins in it. -/
structure Follows (left outside : List Char) : Prop where
  front : ∀ word, '/' ∉ word → word <+: left → word <+: outside
  shown : (∀ word ∈ directiveWords, ¬word.toList <:+: outside) →
    nonblank (replace lineNoise? [' '] left) = nonblank outside

theorem follows_nil : Follows [] [] where
  front _ _ h := h
  shown _ := rfl

/-- A character that no line comment begins with stays where it is. -/
theorem Follows.cons {left outside : List Char} (h : Follows left outside)
    (hslash : c = '/' → left.head? ≠ some '/') : Follows (c :: left) (c :: outside) := by
  have hfront : ∀ word, '/' ∉ word → word <+: c :: left → word <+: c :: outside := by
    intro word hword hprefix
    cases word with
    | nil => exact List.nil_prefix
    | cons d word =>
      obtain ⟨rfl, hbehind⟩ := List.cons_prefix_cons.1 hprefix
      exact List.cons_prefix_cons.2 ⟨rfl,
        h.front word (fun hmem => hword (List.mem_cons_of_mem _ hmem)) hbehind⟩
  refine ⟨hfront, fun hfree => ?_⟩
  have hnone : lineNoise? (c :: left) = none := by
    refine lineNoise?_eq_none_iff.2 ⟨?_, ?_⟩
    · rintro ⟨rest, hrest⟩
      obtain ⟨rfl, rfl⟩ := List.cons.inj hrest
      exact hslash rfl rfl
    · rintro ⟨word, hword, d, inside, rest, -, hopens⟩
      have hplain : '/' ∉ word.toList := by
        rcases mem_directiveWords.1 hword with rfl | rfl <;> decide
      exact hfree word hword (hfront _ hplain (hopens ▸ List.prefix_append _ _)).isInfix
  have hrest : nonblank (replace lineNoise? [' '] left) = nonblank outside :=
    h.shown fun word hword hpart => hfree word hword (hpart.trans
      (List.infix_cons (List.infix_refl outside)))
  rw [replace_of_none hnone, ← List.singleton_append, nonblank_append, hrest, ← nonblank_append,
    List.singleton_append]

/-- A line comment is taken out up to the end of its line. -/
theorem Follows.lineComment {left outside : List Char}
    (h : Follows (left.dropWhile fun c => c != '\n') outside) :
    Follows ('/' :: '/' :: left) outside := by
  have hfound : lineNoise? ('/' :: '/' :: left) = some (left.dropWhile fun c => c != '\n') := rfl
  refine ⟨fun word hword hprefix => ?_, fun hfree => ?_⟩
  · cases word with
    | nil => exact List.nil_prefix
    | cons d word =>
      obtain ⟨rfl, -⟩ := List.cons_prefix_cons.1 hprefix
      exact absurd List.mem_cons_self hword
  · rw [replace_of_some isRecogniser_lineNoise? hfound, List.singleton_append,
      nonblank_cons_blank rfl]
    exact h.shown hfree

theorem uncommented_cons (h : ¬OpensBlockComment (c :: text)) :
    uncommented (c :: text) = c :: uncommented text :=
  replace_of_none (blockComment?_eq_none_iff.2 h)

/-- In front of a slash that the first pass leaves in front, nothing was taken out. -/
theorem head?_uncommented (h : (uncommented text).head? = some '/') : text.head? = some '/' := by
  cases text with
  | nil => exact absurd h.symm (Option.some_ne_none _)
  | cons c text =>
    by_cases hopens : OpensBlockComment (c :: text)
    · obtain ⟨inside, rest, htext⟩ := hopens
      rw [(List.cons.inj htext).1]
      rfl
    · rwa [uncommented_cons hopens] at h

/-- A character outside the comments follows, if no comment begins at it. -/
theorem Follows.step {outside : List Char} (h : Follows (uncommented text) outside)
    (hblock : ¬OpensBlockComment (c :: text)) (hline : ¬ "//".toList <+: c :: text) :
    Follows (uncommented (c :: text)) (c :: outside) := by
  rw [uncommented_cons hblock]
  refine h.cons ?_
  rintro rfl hhead
  obtain ⟨rest, rfl⟩ := List.head?_eq_some_iff.1 (head?_uncommented hhead)
  exact hline ⟨rest, rfl⟩

/-- A block comment begins with a slash and a star. -/
theorem not_opensBlockComment_cons (h : ∀ behind, c = '/' → text = '*' :: behind → False) :
    ¬OpensBlockComment (c :: text) := by
  rintro ⟨inside, rest, htext⟩
  obtain ⟨hc, hbehind⟩ := List.cons.inj htext
  exact h _ hc hbehind

theorem not_line_cons (h : ∀ behind, c = '/' → text = '/' :: behind → False) :
    ¬ "//".toList <+: c :: text := by
  rintro ⟨rest, hrest⟩
  obtain ⟨hc, hbehind⟩ := List.cons.inj hrest
  exact h _ hc.symm hbehind.symm

/-! ## Region by region -/

/-- What the first pass leaves of a text agrees with what the reading finds outside its comments, if
the text begins inside a region.  In a line comment the pass may already be behind the place that
the reading has come to, but not behind the line. -/
def Agrees : Region → List Char → Prop
  | .lineComment, text => ∀ taken rest, text = taken ++ rest → '\n' ∉ taken →
      Follows ((uncommented rest).dropWhile fun c => c != '\n') (outsideFrom .lineComment text)
  | .blockComment, text => ∃ rest, afterFirst? "*/".toList text = some rest ∧
      Follows (uncommented rest) (outsideFrom .blockComment text)
  | region, text => Follows (uncommented text) (outsideFrom region text)

/-- A region that is no comment. -/
def IsOutside (region : Region) : Prop :=
  region ≠ .lineComment ∧ region ≠ .blockComment

theorem isOutside_code : IsOutside .code :=
  ⟨Region.noConfusion, Region.noConfusion⟩

theorem isOutside_literal (quote : Char) : IsOutside (.literal quote) :=
  ⟨Region.noConfusion, Region.noConfusion⟩

theorem isOutside_escaped (quote : Char) : IsOutside (.escaped quote) :=
  ⟨Region.noConfusion, Region.noConfusion⟩

theorem agrees_iff_follows (h : IsOutside region) :
    Agrees region text ↔ Follows (uncommented text) (outsideFrom region text) := by
  cases region with
  | lineComment => exact absurd rfl h.1
  | blockComment => exact absurd rfl h.2
  | code => exact Iff.rfl
  | literal quote => exact Iff.rfl
  | escaped quote => exact Iff.rfl

theorem agrees_nil (h : region ≠ .blockComment) : Agrees region [] := by
  cases region with
  | blockComment => exact absurd rfl h
  | lineComment =>
    intro taken rest htext _
    obtain ⟨-, rfl⟩ := List.append_eq_nil_iff.1 htext.symm
    exact follows_nil
  | code => exact follows_nil
  | literal quote => exact follows_nil
  | escaped quote => exact follows_nil

/-- Outside the comments the two agree character by character. -/
theorem agrees_cons {after : Region} (hregion : IsOutside region) (hafter : IsOutside after)
    (houtside : outsideFrom region (c :: text) = c :: outsideFrom after text)
    (hblock : ¬OpensBlockComment (c :: text)) (hline : ¬ "//".toList <+: c :: text)
    (h : Agrees after text) : Agrees region (c :: text) := by
  rw [agrees_iff_follows hregion, houtside]
  exact ((agrees_iff_follows hafter).1 h).step hblock hline

/-- A line comment is begun by both, unless its second slash begins a block comment. -/
theorem agrees_line (hsign : ¬OpensBlockComment ('/' :: text)) (h : Agrees .lineComment text) :
    Agrees .code ('/' :: '/' :: text) := by
  have hfirst : ¬OpensBlockComment ('/' :: '/' :: text) :=
    not_opensBlockComment_cons fun _ _ h => absurd (List.cons.inj h).1 (by decide)
  have houtside : outsideFrom .code ('/' :: '/' :: text) = outsideFrom .lineComment text := by
    simp [outsideFrom, maskFrom]
  show Follows (uncommented ('/' :: '/' :: text)) _
  rw [uncommented_cons hfirst, uncommented_cons hsign, houtside]
  exact (h [] text rfl List.not_mem_nil).lineComment

/-- The line feed that ends a line comment stays. -/
theorem agrees_feed (h : Agrees .code text) : Agrees .lineComment ('\n' :: text) := by
  have houtside : outsideFrom .lineComment ('\n' :: text) = '\n' :: outsideFrom .code text := by
    rw [outsideFrom, maskFrom, if_pos (beq_self_eq_true _)]
    rfl
  intro taken rest htext hfeed
  cases taken with
  | cons d taken => exact absurd ((List.cons.inj htext).1 ▸ List.mem_cons_self) hfeed
  | nil =>
    have hplain : ¬OpensBlockComment ('\n' :: text) :=
      not_opensBlockComment_cons fun _ h => absurd h (by decide)
    obtain rfl : '\n' :: text = rest := htext
    rw [houtside, uncommented_cons hplain, List.dropWhile_cons_of_neg (by simp)]
    exact Follows.cons h fun h => absurd h (by decide)

/-- A block comment that closes on its line is taken out with a part of the line. -/
theorem ClosesOnLine.exists_cut (h : ClosesOnLine text) :
    ∃ taken rest, blockComment? text = some rest ∧ taken ≠ [] ∧ text = taken ++ rest ∧
      '\n' ∉ taken := by
  obtain ⟨inside, rest, rfl, hfeed⟩ := h
  obtain ⟨most, hmost, hsuffix⟩ := suffix_of_afterFirst? inside "*/".toList rest
  have hfound : blockComment? ("/*".toList ++ (inside ++ ("*/".toList ++ rest))) = some most :=
    hmost
  obtain ⟨taken, hne, htaken⟩ := isRecogniser_blockComment? _ _ hfound
  refine ⟨taken, most, hfound, hne, htaken, fun hmem => ?_⟩
  -- The first sign that closes the comment is not behind the one that is known to.
  have hlength := congrArg List.length htaken
  have hle := hsuffix.length_le
  have hprefix : taken <+: "/*".toList ++ (inside ++ "*/".toList) := by
    refine List.prefix_of_prefix_length_le (htaken ▸ List.prefix_append taken most) ⟨rest, ?_⟩ ?_
    · rw [List.append_assoc, List.append_assoc]
    · simp only [List.length_append] at hlength ⊢
      omega
  have hmem' := hprefix.subset hmem
  simp only [List.mem_append] at hmem'
  rcases hmem' with hopen | hinside | hclose
  · exact absurd hopen (by decide)
  · exact hfeed hinside
  · exact absurd hclose (by decide)

/-- The rest of a line comment is dropped by both, block comments in it by the first pass. -/
theorem agrees_lineComment_cons (hc : c ≠ '\n') (hsign : ¬IsMisread .lineComment (c :: text))
    (h : Agrees .lineComment text) : Agrees .lineComment (c :: text) := by
  have houtside : outsideFrom .lineComment (c :: text) = outsideFrom .lineComment text := by
    simp only [outsideFrom, maskFrom, if_neg (mt beq_iff_eq.1 hc)]
    rfl
  intro taken rest htext hfeed
  rw [houtside]
  cases taken with
  | cons d taken =>
    exact h taken rest (List.cons.inj htext).2 fun hmem => hfeed (List.mem_cons_of_mem _ hmem)
  | nil =>
    obtain rfl : c :: text = rest := htext
    by_cases hopens : OpensBlockComment (c :: text)
    · have hcloses : ClosesOnLine (c :: text) := by
        by_contra hnot
        exact hsign ⟨hopens, hnot⟩
      obtain ⟨taken, rest, hfound, hne, hcut, hline⟩ := hcloses.exists_cut
      obtain ⟨d, taken, rfl⟩ := List.exists_cons_of_ne_nil hne
      rw [uncommented, replace_of_some isRecogniser_blockComment? hfound]
      exact h taken rest (List.cons.inj hcut).2 fun hmem => hline (List.mem_cons_of_mem _ hmem)
    · rw [uncommented_cons hopens, List.dropWhile_cons_of_pos (by simpa using hc)]
      exact h [] text rfl List.not_mem_nil

theorem agrees_opening (h : Agrees .blockComment text) : Agrees .code ('/' :: '*' :: text) := by
  obtain ⟨rest, hrest, hfollows⟩ := h
  have hfound : blockComment? ('/' :: '*' :: text) = some rest := hrest
  have houtside : outsideFrom .code ('/' :: '*' :: text) = outsideFrom .blockComment text := by
    simp [outsideFrom, maskFrom]
  show Follows (uncommented ('/' :: '*' :: text)) _
  rw [uncommented, replace_of_some isRecogniser_blockComment? hfound, houtside]
  exact hfollows

theorem agrees_closing (h : Agrees .code text) : Agrees .blockComment ('*' :: '/' :: text) := by
  have houtside : outsideFrom .blockComment ('*' :: '/' :: text) = outsideFrom .code text := by
    simp [outsideFrom, maskFrom]
  exact ⟨text, rfl, houtside ▸ h⟩

/-- A block comment goes on up to the first sign that closes it. -/
theorem agrees_blockComment_cons (hopen : ∀ behind, c = '*' → text = '/' :: behind → False)
    (h : Agrees .blockComment text) : Agrees .blockComment (c :: text) := by
  obtain ⟨rest, hrest, hfollows⟩ := h
  have houtside : outsideFrom .blockComment (c :: text) = outsideFrom .blockComment text := by
    rw [outsideFrom, maskFrom]
    · rfl
    · assumption
  have hnone : "*/".toList.isPrefixOf? (c :: text) = none := by
    rw [Option.eq_none_iff_forall_ne_some]
    intro behind hbehind
    obtain ⟨hc, htext⟩ := List.cons.inj (List.isPrefixOf?_eq_some_iff_append_eq.1 hbehind)
    exact hopen behind hc.symm htext.symm
  refine ⟨rest, ?_, houtside ▸ hfollows⟩
  rw [afterFirst?, hnone, Option.none_or, hrest]

/-- Of a legible text the first pass leaves what agrees with the reading. -/
theorem agrees_of_isLegible (hlegible : IsLegible region text) : Agrees region text := by
  -- The induction is on the reading: each case is one of its steps, and has the agreement behind
  -- that step.
  induction region, text using maskFrom.induct with
  | case1 region => exact agrees_nil hlegible.closed
  | case2 text ih =>
    have hafter : ∀ front,
        regionAfter .code ('/' :: '/' :: front) = regionAfter .lineComment front :=
      fun front => by rw [regionAfter]
    exact agrees_line (fun h => hlegible.signs.front ⟨'/' :: text, rfl, h⟩)
      (ih (hlegible.behind ['/', '/'] fun front _ => hafter front))
  | case3 text ih =>
    have hafter : ∀ front,
        regionAfter .code ('/' :: '*' :: front) = regionAfter .blockComment front :=
      fun front => by rw [regionAfter]
    exact agrees_opening (ih (hlegible.behind ['/', '*'] fun front _ => hafter front))
  | case4 c text hline hblock ih =>
    have hafter : ∀ front, front <+: text → regionAfter .code (c :: front) =
        regionAfter (if c == '"' || c == '\'' then .literal c else .code) front := by
      rintro front ⟨behind, rfl⟩
      rw [regionAfter]
      · rintro more hc rfl
        exact hline _ hc rfl
      · rintro more hc rfl
        exact hblock _ hc rfl
    have houtside : outsideFrom .code (c :: text) =
        c :: outsideFrom (if c == '"' || c == '\'' then .literal c else .code) text := by
      rw [outsideFrom, maskFrom]
      · rfl
      all_goals assumption
    refine agrees_cons isOutside_code ?_ houtside (not_opensBlockComment_cons hblock)
      (not_line_cons hline) (ih (hlegible.behind [c] hafter))
    split_ifs
    · exact isOutside_literal c
    · exact isOutside_code
  | case5 quote c text hends ih =>
    obtain ⟨hline, hblock⟩ := not_or.1 hlegible.signs.front
    have hafter : ∀ front, regionAfter (.literal quote) (c :: front) = regionAfter .code front :=
      fun front => by rw [regionAfter, if_pos hends]
    have houtside : outsideFrom (.literal quote) (c :: text) = c :: outsideFrom .code text := by
      rw [outsideFrom, maskFrom, if_pos hends]
      rfl
    exact agrees_cons (isOutside_literal quote) isOutside_code houtside hblock hline
      (ih (hlegible.behind [c] fun front _ => hafter front))
  | case6 quote c text hends ih =>
    obtain ⟨hline, hblock⟩ := not_or.1 hlegible.signs.front
    have hafter : ∀ front, regionAfter (.literal quote) (c :: front) =
        regionAfter (if c == '\\' then .escaped quote else .literal quote) front :=
      fun front => by rw [regionAfter, if_neg hends]
    have houtside : outsideFrom (.literal quote) (c :: text) =
        c :: outsideFrom (if c == '\\' then .escaped quote else .literal quote) text := by
      rw [outsideFrom, maskFrom, if_neg hends]
      rfl
    refine agrees_cons (isOutside_literal quote) ?_ houtside hblock hline
      (ih (hlegible.behind [c] fun front _ => hafter front))
    split_ifs
    · exact isOutside_escaped quote
    · exact isOutside_literal quote
  | case7 quote c text ih =>
    obtain ⟨hline, hblock⟩ := not_or.1 hlegible.signs.front
    have hafter : ∀ front,
        regionAfter (.escaped quote) (c :: front) = regionAfter (.literal quote) front :=
      fun front => by rw [regionAfter]
    have houtside :
        outsideFrom (.escaped quote) (c :: text) = c :: outsideFrom (.literal quote) text := by
      rw [outsideFrom, maskFrom]
      rfl
    exact agrees_cons (isOutside_escaped quote) (isOutside_literal quote) houtside hblock hline
      (ih (hlegible.behind [c] fun front _ => hafter front))
  | case8 c text hends ih =>
    obtain rfl : c = '\n' := beq_iff_eq.1 hends
    have hafter : ∀ front, regionAfter .lineComment ('\n' :: front) = regionAfter .code front :=
      fun front => by rw [regionAfter, if_pos hends]
    exact agrees_feed (ih (hlegible.behind ['\n'] fun front _ => hafter front))
  | case9 c text hends ih =>
    have hafter : ∀ front, regionAfter .lineComment (c :: front) = regionAfter .lineComment front :=
      fun front => by rw [regionAfter, if_neg hends]
    exact agrees_lineComment_cons (mt beq_iff_eq.2 hends) hlegible.signs.front
      (ih (hlegible.behind [c] fun front _ => hafter front))
  | case10 text ih =>
    have hafter : ∀ front,
        regionAfter .blockComment ('*' :: '/' :: front) = regionAfter .code front :=
      fun front => by rw [regionAfter]
    exact agrees_closing (ih (hlegible.behind ['*', '/'] fun front _ => hafter front))
  | case11 c text hopen ih =>
    have hafter : ∀ front, front <+: text →
        regionAfter .blockComment (c :: front) = regionAfter .blockComment front := by
      rintro front ⟨behind, rfl⟩
      rw [regionAfter]
      rintro more hc rfl
      exact hopen _ hc rfl
    exact agrees_blockComment_cons hopen (ih (hlegible.behind [c] hafter))

/-- The normal form of a text has all that lies outside its comments, but for blanks, if the text
leaves no block comment open, none of its signs is misread and what lies outside its comments does
not have the word of a directive. -/
theorem nonblank_normalize_eq (text : List Char) (hclosed : regionAfter .code text ≠ .blockComment)
    (hsigns : SignsCount .code text)
    (hfree : ∀ word ∈ directiveWords, ¬word.toList <:+: outsideComments text) :
    nonblank (normalize text) = nonblank (outsideComments text) := by
  have hagrees : Agrees .code text := agrees_of_isLegible ⟨hsigns, hclosed⟩
  rw [nonblank_normalize]
  exact hagrees.shown hfree

/-- Signs of comments in other comments and in string literals, none of them misread: a directive
and a block comment in a line comment, a quote and slashes in a block comment, and in a string
literal a slash and a block comment that nothing closes. -/
def annotatedText : List Char :=
  "// import /* a */ b;\nuint/* \" // */x = y / \"/ it's\"; // 'open\ns = \"src/*\";".toList

theorem nonblank_normalize_eq_annotatedText :
    regionAfter .code annotatedText ≠ .blockComment ∧ SignsCount .code annotatedText ∧
      (∀ word ∈ directiveWords, ¬word.toList <:+: outsideComments annotatedText) ∧
      nonblank (normalize annotatedText) = "uintx=y/\"/it's\";s=\"src/*\";".toList := by
  have hclosed : regionAfter .code annotatedText ≠ .blockComment := by decide
  have hsigns : SignsCount .code annotatedText := by decide +kernel
  have hfree : ∀ word ∈ directiveWords, ¬word.toList <:+: outsideComments annotatedText := by
    decide +kernel
  have houtside : nonblank (outsideComments annotatedText) =
      "uintx=y/\"/it's\";s=\"src/*\";".toList := by decide +kernel
  exact ⟨hclosed, hsigns, hfree,
    (nonblank_normalize_eq annotatedText hclosed hsigns hfree).trans houtside⟩

/-- Two slashes in a string literal are taken for a line comment. -/
theorem not_forall_nonblank_normalize :
    ¬ ∀ text : List Char, (∀ word ∈ directiveWords, ¬word.toList <:+: text) →
      regionAfter .code text = .code →
        nonblank (normalize text) = nonblank (outsideComments text) := by
  intro h
  exact absurd (h "\"http://x\"".toList (by decide) (by decide)) (by decide)

end PropertyIndex.Source
