import Mathlib.Data.List.Infix
import PropertyIndex.Proofs.Identifier
import PropertyIndex.Text.Lowercase

/-!
# Lower case and ASCII letters

Lower-casing knows all scripts, but a word of ASCII letters comes out of ASCII letters only.  There
are two exceptions: the Kelvin sign has the lower-case form `k`, and the dotted capital I gives an
`i` with a combining dot behind it.  So a word that has no `k` and does not end in `i` stands in the
lower-case form of a text exactly where it stands in the text, ASCII letter case aside.

* `lowercaseAfter_cons_of_lt`, `lowercase_of_ident`: the lower-case form of ASCII characters.
* `lowerChar_eq_iff`: which characters have an ASCII letter as their lower-case form.
* `IsSteady`, `infix_lowercase_iff`: the words that only ASCII letters give.
-/

namespace PropertyIndex.Text

/-! ## ASCII characters -/

/-- An ASCII character is put into lower case by itself, whatever is around it. -/
theorem lowercaseAfter_cons_of_lt {c : Char} (h : c.toNat < 128) (left text : List Char) :
    lowercaseAfter left (c :: text) = c.toLower :: lowercaseAfter (c :: left) text := by
  have hsigma : c ≠ 'Σ' := by
    rintro rfl
    exact absurd h (by decide)
  have hdotted : c ≠ 'İ' := by
    rintro rfl
    exact absurd h (by decide)
  rw [lowercaseAfter, if_neg (by simpa using hsigma), if_neg (by simpa using hdotted), lowerChar,
    if_pos h]
  rfl

/-- The lower-case form of a run of identifier characters. -/
theorem lowercaseAfter_of_ident {text : List Char} (h : ∀ c ∈ text, isIdentChar c = true)
    (left : List Char) : lowercaseAfter left text = text.map Char.toLower := by
  induction text generalizing left with
  | nil => rfl
  | cons c text ih =>
    obtain ⟨hc, htext⟩ := List.forall_mem_cons.1 h
    have hascii : c.toNat < 128 := Nat.lt_trans (toNat_of_isIdentChar hc).2 (by decide)
    rw [lowercaseAfter_cons_of_lt hascii, ih htext, List.map_cons]

theorem lowercase_of_ident {text : List Char} (h : ∀ c ∈ text, isIdentChar c = true) :
    lowercase text = text.map Char.toLower :=
  lowercaseAfter_of_ident h []

/-- Identifier characters stay identifier characters. -/
theorem isIdentChar_toLower {c : Char} (h : isIdentChar c = true) :
    isIdentChar c.toLower = true := by
  have hall : ∀ n < 128, isIdentChar (Char.ofNat n) = true →
      isIdentChar (Char.ofNat n).toLower = true := by decide
  have hc := hall c.toNat (Nat.lt_trans (toNat_of_isIdentChar h).2 (by decide))
  rw [Char.ofNat_toNat] at hc
  exact hc h

theorem isIdentChar_of_mem_lowercase {text : List Char} (h : ∀ c ∈ text, isIdentChar c = true) :
    ∀ c ∈ lowercase text, isIdentChar c = true := by
  rw [lowercase_of_ident h]
  intro c hc
  obtain ⟨d, hd, rfl⟩ := List.mem_map.1 hc
  exact isIdentChar_toLower (h d hd)

/-! ## Letters of other scripts -/

/-- A small ASCII letter that no letter of another script has as its lower-case form. -/
def isOwnForm (c : Char) : Bool :=
  c.isLower && c != 'k'

theorem toNat_of_isOwnForm {c : Char} (h : isOwnForm c = true) :
    97 ≤ c.toNat ∧ c.toNat < 128 ∧ c.toNat ≠ 107 := by
  obtain ⟨hlower, hkelvin⟩ := Bool.and_eq_true_iff.1 h
  obtain ⟨hlow, hhigh⟩ := Bool.and_eq_true_iff.1 hlower
  have hlow' : 97 ≤ c.toNat := UInt32.le_iff_toNat_le.1 (of_decide_eq_true hlow)
  have hhigh' : c.toNat ≤ 122 := UInt32.le_iff_toNat_le.1 (of_decide_eq_true hhigh)
  refine ⟨hlow', by omega, fun hn => bne_iff_ne.1 hkelvin ?_⟩
  exact Char.ext (UInt32.toNat_inj.1 hn)

theorem toLower_of_le {c : Char} (h : 128 ≤ c.toNat) : c.toLower = c := by
  refine dif_neg ?_
  rintro ⟨-, hhigh⟩
  have hhigh' : c.toNat ≤ 90 := UInt32.le_iff_toNat_le.1 hhigh
  omega

/-- A run gives no ASCII character to the code points above ASCII, unless it is the one of the
Kelvin sign. -/
theorem image?_above {run : CaseRun} (hrun : run ∈ lowercaseRuns) {n m : Nat} (hn : 128 ≤ n)
    (h : run.image? n = some m) : 128 ≤ m ∨ m = 107 := by
  have htable : ∀ run ∈ lowercaseRuns,
      run.last < 128 ∨ 128 ≤ run.lower ∨ (run.first = run.last ∧ run.lower = 107) := by
    decide +kernel
  rw [CaseRun.image?] at h
  split_ifs at h with hplace
  obtain rfl := Option.some_inj.1 h
  simp only [Bool.and_eq_true, decide_eq_true_eq] at hplace
  obtain ⟨⟨hfirst, hlast⟩, -⟩ := hplace
  rcases htable run hrun with hbelow | habove | ⟨hsingle, hkelvin⟩
  · omega
  · exact Or.inl (Nat.le_add_right_of_le habove)
  · right
    omega

/-- A number that is no code point counts as the null character. -/
theorem toNat_ofNat_cases (n : Nat) : (Char.ofNat n).toNat = n ∨ (Char.ofNat n).toNat = 0 := by
  by_cases hvalid : n.isValidChar
  · exact Or.inl (congrArg Char.toNat (dif_pos hvalid))
  · exact Or.inr (congrArg Char.toNat (dif_neg hvalid))

/-- Only its two ASCII forms have a letter as their lower-case form. -/
theorem lowerChar_eq_iff {c x : Char} (hc : isOwnForm c = true) :
    lowerChar x = c ↔ x.toLower = c := by
  by_cases hx : x.toNat < 128
  · rw [lowerChar, if_pos hx]
  · obtain ⟨hlow, hhigh, hkelvin⟩ := toNat_of_isOwnForm hc
    have hx' : 128 ≤ x.toNat := Nat.le_of_not_lt hx
    rw [toLower_of_le hx', lowerChar, if_neg hx]
    refine iff_of_false (fun h => ?_) (fun h => hx (h ▸ hhigh))
    rcases hfound : lowercaseRuns.findSome? (·.image? x.toNat) with _ | m
    · rw [hfound] at h
      obtain rfl : x = c := h
      exact hx hhigh
    · rw [hfound] at h
      obtain ⟨run, hrun, himage⟩ := List.exists_of_findSome?_eq_some hfound
      have hvalue : (Char.ofNat m).toNat = c.toNat := congrArg Char.toNat h
      have habove := image?_above hrun hx' himage
      rcases toNat_ofNat_cases m with hm | hm
      · omega
      · omega

/-! ## Words in lower case -/

/-- A word of small ASCII letters that no letter of another script helps to spell. -/
def IsSteady (word : List Char) : Prop :=
  word ≠ [] ∧ (∀ c ∈ word, isOwnForm c = true) ∧ word.getLast? ≠ some 'i'

instance (word : List Char) : Decidable (IsSteady word) :=
  decidable_of_iff (word ≠ [] ∧ word.all isOwnForm = true ∧ word.getLast? ≠ some 'i')
    (by rw [List.all_eq_true, IsSteady])

theorem IsSteady.of_cons {c d : Char} {word : List Char} (h : IsSteady (c :: d :: word)) :
    IsSteady (d :: word) := by
  obtain ⟨-, hform, hlast⟩ := h
  refine ⟨List.cons_ne_nil _ _, fun x hx => hform x (List.mem_cons_of_mem _ hx), ?_⟩
  rwa [List.getLast?_cons_cons] at hlast

/-- What lower-casing makes of one character: what has an ASCII form of its own gives this form,
and a dotted capital I gives two characters. -/
theorem lowercaseAfter_cons_cases (left text : List Char) (x : Char) :
    (∃ y, lowercaseAfter left (x :: text) = y :: lowercaseAfter (x :: left) text ∧
        ∀ c, isOwnForm c = true → (y = c ↔ x.toLower = c)) ∨
      (x = 'İ' ∧ lowercaseAfter left (x :: text) =
        'i' :: '\u0307' :: lowercaseAfter (x :: left) text) := by
  rw [lowercaseAfter]
  by_cases hsigma : x = 'Σ'
  · subst hsigma
    refine Or.inl ⟨_, rfl, fun c hc => ?_⟩
    have hhigh := (toNat_of_isOwnForm hc).2.1
    refine iff_of_false (fun h => ?_) (fun h => ?_)
    · rw [← h] at hhigh
      split_ifs at hhigh
      · exact absurd hhigh (by decide)
      · exact absurd hhigh (by decide)
    · rw [← h] at hhigh
      exact absurd hhigh (by decide)
  · by_cases hdotted : x = 'İ'
    · subst hdotted
      exact Or.inr ⟨rfl, rfl⟩
    · rw [if_neg (by simpa using hsigma), if_neg (by simpa using hdotted)]
      exact Or.inl ⟨lowerChar x, rfl, fun c hc => lowerChar_eq_iff hc⟩

/-- A steady word begins no text with a combining dot in its first two places. -/
theorem not_prefix_dotted {word text : List Char} (hword : IsSteady word) :
    ¬ word <+: 'i' :: '\u0307' :: text ∧ ¬ word <+: '\u0307' :: text := by
  obtain ⟨hne, hform, hlast⟩ := hword
  have hdot : ∀ c ∈ word, c ≠ '\u0307' := by
    rintro c hc rfl
    exact absurd (hform _ hc) (by decide)
  obtain ⟨c, word, rfl⟩ := List.exists_cons_of_ne_nil hne
  constructor
  · intro h
    obtain ⟨rfl, hrest⟩ := List.cons_prefix_cons.1 h
    cases word with
    | nil => exact hlast rfl
    | cons d word =>
      exact hdot d (List.mem_cons_of_mem _ List.mem_cons_self) (List.cons_prefix_cons.1 hrest).1
  · intro h
    exact hdot c List.mem_cons_self (List.cons_prefix_cons.1 h).1

/-- A steady word begins the lower-case form of a text exactly when the text begins with it, ASCII
letter case aside. -/
theorem prefix_lowercaseAfter_iff {word : List Char} (hword : IsSteady word)
    (left text : List Char) :
    word <+: lowercaseAfter left text ↔ word <+: text.map Char.toLower := by
  induction text generalizing word left with
  | nil => rfl
  | cons x text ih =>
    obtain ⟨c, word, rfl⟩ := List.exists_cons_of_ne_nil hword.1
    have hc : isOwnForm c = true := hword.2.1 c List.mem_cons_self
    rcases lowercaseAfter_cons_cases left text x with ⟨y, himage, hy⟩ | ⟨rfl, himage⟩
    · rw [himage, List.map_cons, List.cons_prefix_cons, List.cons_prefix_cons, eq_comm, hy c hc,
        eq_comm]
      refine and_congr_right fun _ => ?_
      cases word with
      | nil => exact iff_of_true List.nil_prefix List.nil_prefix
      | cons d word => exact ih hword.of_cons _
    · rw [himage]
      refine iff_of_false (not_prefix_dotted hword).1 fun h => ?_
      obtain rfl : c = 'İ' := (List.cons_prefix_cons.1 h).1
      exact absurd hc (by decide)

/-- A steady word stands in the lower-case form of a text exactly when it stands in the text, ASCII
letter case aside. -/
theorem infix_lowercaseAfter_iff {word : List Char} (hword : IsSteady word)
    (left text : List Char) :
    word <:+: lowercaseAfter left text ↔ word <:+: text.map Char.toLower := by
  induction text generalizing left with
  | nil => rfl
  | cons x text ih =>
    have hfront := prefix_lowercaseAfter_iff hword left (x :: text)
    rw [List.map_cons] at hfront ⊢
    rcases lowercaseAfter_cons_cases left text x with ⟨y, himage, -⟩ | ⟨-, himage⟩
    · rw [himage] at hfront ⊢
      rw [List.infix_cons_iff, List.infix_cons_iff, hfront, ih]
    · obtain ⟨hnot, hnot'⟩ := @not_prefix_dotted word (lowercaseAfter (x :: left) text) hword
      rw [himage] at hfront ⊢
      rw [List.infix_cons_iff, List.infix_cons_iff, List.infix_cons_iff, ← hfront, ih,
        or_iff_right hnot']

theorem infix_lowercase_iff {word : List Char} (hword : IsSteady word) (text : List Char) :
    word <:+: lowercase text ↔ word <:+: text.map Char.toLower :=
  infix_lowercaseAfter_iff hword [] text

end PropertyIndex.Text
