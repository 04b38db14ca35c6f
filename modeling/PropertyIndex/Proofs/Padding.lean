import Mathlib.Data.List.Forall2
import PropertyIndex.Proofs.Occurrence
import PropertyIndex.Proofs.Run

/-!
# Padding in front of line breaks

Two lists that differ only by stretches of padding that one of them has in front of its breaks.
A test that does not tell padding from breaks, or that fails on both, cannot tell the two lists
apart: what it cuts off and what it leaves differ by padding as well.

* `Padded`: the second list has padding in front of its breaks.
* `Padded.append`, `Padded.exists_append`, `Padded.exists_word`: parts of padded lists.
* `Padded.flatMap`, `Padded.map`: images of padded lists.
* `Blind`, `Unseen`, `Padded.takeWhile`, `Padded.dropWhile`: tests on padded lists.
* `Padded.isPrefixOf?`, `Padded.exists_word_iff`, `Padded.hasWord_iff`: words in padded lists.
-/

namespace PropertyIndex

open Text

/-! ## Answers that correspond to each other -/

section Rel

variable {α α' β β' : Type} {r : α → α' → Prop} {s : β → β' → Prop} {x x' : Option α}
  {y y' : Option α'}

theorem rel_cases (h : Option.Rel r x y) :
    (x = none ∧ y = none) ∨ ∃ a b, x = some a ∧ y = some b ∧ r a b := by
  cases h with
  | none => exact Or.inl ⟨rfl, rfl⟩
  | some hab => exact Or.inr ⟨_, _, rfl, rfl, hab⟩

theorem rel_bind {f : α → Option β} {g : α' → Option β'} (h : Option.Rel r x y)
    (hfg : ∀ a b, r a b → Option.Rel s (f a) (g b)) : Option.Rel s (x.bind f) (y.bind g) := by
  cases h with
  | none => exact .none
  | some hab => exact hfg _ _ hab

theorem rel_map {f : α → β} {g : α' → β'} (h : Option.Rel r x y)
    (hfg : ∀ a b, r a b → s (f a) (g b)) : Option.Rel s (x.map f) (y.map g) := by
  cases h with
  | none => exact .none
  | some hab => exact .some (hfg _ _ hab)

theorem rel_or (h : Option.Rel r x y) (h' : Option.Rel r x' y') :
    Option.Rel r (x.or x') (y.or y') := by
  cases h with
  | none => exact h'
  | some hab => exact .some hab

end Rel

/-! ## Padded lists -/

/-- The second list has padding in front of its breaks and is the first one otherwise. -/
inductive Padded {α : Type} (isBreak : α → Prop) (isPad : List α → Prop) : List α → List α → Prop
  | nil : Padded isBreak isPad [] []
  | keep {x : α} {plain padded : List α} (hx : ¬isBreak x) (h : Padded isBreak isPad plain padded) :
    Padded isBreak isPad (x :: plain) (x :: padded)
  | pad {x : α} {pad plain padded : List α} (hx : isBreak x) (hpad : isPad pad)
    (h : Padded isBreak isPad plain padded) :
    Padded isBreak isPad (x :: plain) (pad ++ x :: padded)

/-- A test gives the same answer on a break and on padding in front of it. -/
def Blind {α : Type} (isBreak : α → Prop) (isPad : List α → Prop) (p : α → Bool) : Prop :=
  ∀ pad x, isPad pad → isBreak x → ∀ y ∈ pad, p y = p x

/-- A test fails on breaks and on padding. -/
structure Unseen {α : Type} (isBreak : α → Prop) (isPad : List α → Prop) (p : α → Bool) : Prop where
  of_isBreak : ∀ x, isBreak x → p x = false
  of_isPad : ∀ pad, isPad pad → ∀ y ∈ pad, p y = false

/-- A member that passes a test is none that fails it. -/
theorem ne_of_passes {α : Type} {p : α → Bool} {x y : α} (hx : p x = true) (hy : p y = false) :
    x ≠ y := by
  rintro rfl
  rw [hx] at hy
  exact Bool.noConfusion hy

theorem Unseen.blind {α : Type} {isBreak : α → Prop} {isPad : List α → Prop} {p : α → Bool}
    (h : Unseen isBreak isPad p) : Blind isBreak isPad p := by
  intro pad x hpad hx y hy
  rw [h.of_isPad pad hpad y hy, h.of_isBreak x hx]

namespace Padded

variable {α β : Type} {isBreak : α → Prop} {isPad : List α → Prop}
  {plain padded front back word : List α} {p : α → Bool}

/-! ## Parts -/

theorem append {plain' padded' : List α} (h : Padded isBreak isPad plain padded)
    (h' : Padded isBreak isPad plain' padded') :
    Padded isBreak isPad (plain ++ plain') (padded ++ padded') := by
  induction h with
  | nil => exact h'
  | keep hx _ ih => exact keep hx ih
  | pad hx hpad _ ih =>
    rw [List.append_assoc]
    exact pad hx hpad ih

/-- Each part of a list corresponds to a part of the padded one. -/
theorem exists_append (h : Padded isBreak isPad (front ++ back) padded) :
    ∃ front' back', padded = front' ++ back' ∧ Padded isBreak isPad front front' ∧
      Padded isBreak isPad back back' := by
  induction front generalizing padded with
  | nil => exact ⟨[], padded, rfl, nil, h⟩
  | cons x front ih =>
    cases h with
    | keep hx hrest =>
      obtain ⟨front', back', rfl, hfront, hback⟩ := ih hrest
      exact ⟨x :: front', back', rfl, keep hx hfront, hback⟩
    | @pad _ pad _ _ hx hpad hrest =>
      obtain ⟨front', back', rfl, hfront, hback⟩ := ih hrest
      refine ⟨pad ++ x :: front', back', ?_, .pad hx hpad hfront, hback⟩
      rw [List.append_assoc, List.cons_append]

/-- A list without breaks has no room for padding. -/
theorem eq_of_forall (h : Padded isBreak isPad plain padded) (hplain : ∀ x ∈ plain, ¬isBreak x) :
    padded = plain := by
  induction h with
  | nil => rfl
  | keep _ _ ih => rw [ih fun x hx => hplain x (List.mem_cons_of_mem _ hx)]
  | pad hx _ _ _ => exact absurd hx (hplain _ List.mem_cons_self)

theorem getLast?_eq (h : Padded isBreak isPad plain padded) :
    padded.getLast? = plain.getLast? := by
  induction h with
  | nil => rfl
  | keep _ _ ih => rw [List.getLast?_cons, List.getLast?_cons, ih]
  | pad _ _ _ ih =>
    rw [List.getLast?_append_of_ne_nil _ (List.cons_ne_nil _ _), List.getLast?_cons,
      List.getLast?_cons, ih]

theorem mono {isPad' : List α → Prop} (h : Padded isBreak isPad plain padded)
    (hpad : ∀ pad, isPad pad → isPad' pad) : Padded isBreak isPad' plain padded := by
  induction h with
  | nil => exact nil
  | keep hx _ ih => exact keep hx ih
  | pad hx hp _ ih => exact pad hx (hpad _ hp) ih

/-- A list without breaks corresponds to itself. -/
theorem self (h : ∀ x ∈ plain, ¬isBreak x) : Padded isBreak isPad plain plain := by
  induction plain with
  | nil => exact nil
  | cons x plain ih =>
    obtain ⟨hx, hrest⟩ := List.forall_mem_cons.1 h
    exact keep hx (ih hrest)

/-- Where every break gives one break and nothing else gives any, images are padded as well. -/
theorem flatMap {isBreak' : β → Prop} {isPad' : List β → Prop} {f : α → List β}
    (h : Padded isBreak isPad plain padded) (hkeep : ∀ x, ¬isBreak x → ∀ y ∈ f x, ¬isBreak' y)
    (hbreak : ∀ x, isBreak x → ∃ y, f x = [y] ∧ isBreak' y)
    (hpad : ∀ pad, isPad pad → isPad' (pad.flatMap f)) :
    Padded isBreak' isPad' (plain.flatMap f) (padded.flatMap f) := by
  induction h with
  | nil => exact nil
  | keep hx _ ih => exact (self (hkeep _ hx)).append ih
  | pad hx hp _ ih =>
    obtain ⟨y, hy, hbreaks⟩ := hbreak _ hx
    rw [List.flatMap_append, List.flatMap_cons, List.flatMap_cons, hy]
    exact pad hbreaks (hpad _ hp) ih

theorem map {isBreak' : β → Prop} {isPad' : List β → Prop} {f : α → β}
    (h : Padded isBreak isPad plain padded) (hkeep : ∀ x, ¬isBreak x → ¬isBreak' (f x))
    (hbreak : ∀ x, isBreak x → isBreak' (f x)) (hpad : ∀ pad, isPad pad → isPad' (pad.map f)) :
    Padded isBreak' isPad' (plain.map f) (padded.map f) := by
  rw [List.map_eq_flatMap, List.map_eq_flatMap]
  refine h.flatMap (fun x hx y hy => ?_) (fun x hx => ⟨f x, rfl, hbreak x hx⟩) fun pad hp => ?_
  · rw [List.mem_singleton.1 hy]
    exact hkeep x hx
  · rw [← List.map_eq_flatMap]
    exact hpad pad hp

/-! ## Tests -/

/-- A test that fails on a break and does not tell it from padding fails at the front of both. -/
theorem head?_any_of_blind {x : α} {pad : List α} (hblind : ∀ y ∈ pad, p y = p x)
    (hx : p x = false) : (pad ++ x :: padded).head?.any p = false := by
  cases pad with
  | nil => exact hx
  | cons y pad => exact (hblind y List.mem_cons_self).trans hx

theorem takeWhile (h : Padded isBreak isPad plain padded) (hp : Blind isBreak isPad p) :
    Padded isBreak isPad (plain.takeWhile p) (padded.takeWhile p) := by
  induction h with
  | nil => exact nil
  | keep hx _ ih =>
    rw [List.takeWhile_cons, List.takeWhile_cons]
    split
    · exact keep hx ih
    · exact nil
  | @pad x pad _ _ hx hpad _ ih =>
    have hblind := hp pad x hpad hx
    cases hpx : p x with
    | true =>
      rw [List.takeWhile_cons_of_pos hpx,
        List.takeWhile_append_of_pos fun y hy => (hblind y hy).trans hpx,
        List.takeWhile_cons_of_pos hpx]
      exact .pad hx hpad ih
    | false =>
      rw [takeWhile_eq_nil (head?_any_of_blind hblind hpx),
        List.takeWhile_cons_of_neg (Bool.eq_false_iff.1 hpx)]
      exact nil

theorem dropWhile (h : Padded isBreak isPad plain padded) (hp : Blind isBreak isPad p) :
    Padded isBreak isPad (plain.dropWhile p) (padded.dropWhile p) := by
  induction h with
  | nil => exact nil
  | keep hx hrest ih =>
    rw [List.dropWhile_cons, List.dropWhile_cons]
    split
    · exact ih
    · exact keep hx hrest
  | @pad x pad _ _ hx hpad hrest ih =>
    have hblind := hp pad x hpad hx
    cases hpx : p x with
    | true =>
      rw [List.dropWhile_cons_of_pos hpx,
        List.dropWhile_append_of_pos fun y hy => (hblind y hy).trans hpx,
        List.dropWhile_cons_of_pos hpx]
      exact ih
    | false =>
      rw [dropWhile_eq_self (head?_any_of_blind hblind hpx),
        List.dropWhile_cons_of_neg (Bool.eq_false_iff.1 hpx)]
      exact .pad hx hpad hrest

/-- A test that fails on breaks and on padding cuts off the same from both lists. -/
theorem takeWhile_eq (h : Padded isBreak isPad plain padded) (hp : Unseen isBreak isPad p) :
    padded.takeWhile p = plain.takeWhile p := by
  refine (h.takeWhile hp.blind).eq_of_forall fun x hx hbreak => ?_
  exact ne_of_passes (List.mem_takeWhile_imp hx) (hp.of_isBreak x hbreak) rfl

/-- A test that does not tell padding from breaks holds of all members of both lists or of
neither. -/
theorem all_eq (h : Padded isBreak isPad plain padded) (hp : Blind isBreak isPad p) :
    padded.all p = plain.all p := by
  induction h with
  | nil => rfl
  | keep _ _ ih => rw [List.all_cons, List.all_cons, ih]
  | @pad x pad _ _ hx hpad _ ih =>
    rw [List.all_append, List.all_cons, List.all_cons, ih]
    cases hpx : p x with
    | false => rw [Bool.false_and, Bool.and_false]
    | true =>
      have hall : pad.all p = true :=
        List.all_eq_true.2 fun y hy => (hp pad x hpad hx y hy).trans hpx
      rw [hall, Bool.true_and]

/-- Such a test has the same answer at the front of both lists. -/
theorem head?_any_eq (h : Padded isBreak isPad plain padded) (hp : Blind isBreak isPad p) :
    padded.head?.any p = plain.head?.any p := by
  cases h with
  | nil => rfl
  | keep _ _ => rfl
  | @pad x pad _ _ hx hpad _ =>
    cases pad with
    | nil => rfl
    | cons y pad => exact hp _ x hpad hx y List.mem_cons_self

/-! ## Words -/

/-- A member that passes such a test is where it was. -/
theorem of_cons {x : α} (h : Padded isBreak isPad plain (x :: back)) (hp : Unseen isBreak isPad p)
    (hx : p x = true) : ∃ rest, plain = x :: rest ∧ Padded isBreak isPad rest back := by
  generalize hpadded : x :: back = padded at h
  cases h with
  | nil => exact absurd hpadded (List.cons_ne_nil _ _)
  | keep hy hrest =>
    obtain ⟨rfl, rfl⟩ := List.cons.inj hpadded
    exact ⟨_, rfl, hrest⟩
  | @pad y pad _ _ hy hpad hrest =>
    exfalso
    cases pad with
    | nil => exact ne_of_passes hx (hp.of_isBreak y hy) (List.cons.inj hpadded).1
    | cons z pad =>
      have hz := hp.of_isPad _ hpad z List.mem_cons_self
      exact ne_of_passes hx hz (List.cons.inj hpadded).1

/-- A word of members that pass a test is behind all members at the front that fail it. -/
theorem exists_behind {skipped : List α} (hne : word ≠ []) (hword : ∀ x ∈ word, p x = true)
    (hskipped : ∀ y ∈ skipped, p y = false) (h : front ++ (word ++ back) = skipped ++ padded) :
    ∃ front', front = skipped ++ front' ∧ front' ++ (word ++ back) = padded := by
  rcases List.append_eq_append_iff.1 h with ⟨shift, rfl, hword'⟩ | ⟨shift, rfl, hrest⟩
  · cases shift with
    | nil => exact ⟨[], by rw [List.append_nil, List.append_nil], hword'⟩
    | cons y shift =>
      obtain ⟨x, tail, rfl⟩ := List.exists_cons_of_ne_nil hne
      have hy := hskipped y (List.mem_append_right _ List.mem_cons_self)
      exact absurd (List.cons.inj hword').1 (ne_of_passes (hword x List.mem_cons_self) hy)
  · exact ⟨shift, rfl, hrest.symm⟩

section Word

variable (hp : Unseen isBreak isPad p) (hword : ∀ x ∈ word, p x = true)

include hp hword

/-- A word at the front of the padded list is at the front of the other one. -/
theorem of_append (h : Padded isBreak isPad plain (word ++ back)) :
    ∃ rest, plain = word ++ rest ∧ Padded isBreak isPad rest back := by
  induction word generalizing plain with
  | nil => exact ⟨plain, rfl, h⟩
  | cons x word ih =>
    obtain ⟨hx, htail⟩ := List.forall_mem_cons.1 hword
    obtain ⟨rest, rfl, hrest⟩ := h.of_cons hp hx
    obtain ⟨rest', rfl, hrest'⟩ := ih htail hrest
    exact ⟨rest', rfl, hrest'⟩

/-- A word at the front of a list is at the front of the padded one. -/
theorem exists_word_append (h : Padded isBreak isPad (word ++ back) padded) :
    ∃ rest, padded = word ++ rest ∧ Padded isBreak isPad back rest := by
  obtain ⟨word', rest, rfl, hword', hrest⟩ := h.exists_append
  have hbreak : ∀ x ∈ word, ¬isBreak x := fun x hx hbreak =>
    ne_of_passes (hword x hx) (hp.of_isBreak x hbreak) rfl
  rw [hword'.eq_of_forall hbreak]
  exact ⟨rest, rfl, hrest⟩

/-- A word in the padded list comes from the same word in the other one. -/
theorem exists_split (hne : word ≠ [])
    (h : Padded isBreak isPad plain (front ++ (word ++ back))) :
    ∃ front' back', plain = front' ++ (word ++ back') ∧ Padded isBreak isPad front' front ∧
      Padded isBreak isPad back' back := by
  generalize hpadded : front ++ (word ++ back) = padded at h
  induction h generalizing front with
  | nil =>
    have hnil := (List.append_eq_nil_iff.1 (List.append_eq_nil_iff.1 hpadded).2).1
    exact absurd hnil hne
  | @keep x plain padded hx hrest ih =>
    cases front with
    | nil =>
      have h := keep hx hrest
      rw [← hpadded, List.nil_append] at h
      obtain ⟨rest, hplain, hback⟩ := of_append hp hword h
      exact ⟨[], rest, hplain, nil, hback⟩
    | cons y front =>
      obtain ⟨rfl, hrest'⟩ := List.cons.inj hpadded
      obtain ⟨front', back', rfl, hfront, hback⟩ := ih hrest'
      exact ⟨y :: front', back', rfl, keep hx hfront, hback⟩
  | @pad x pad plain padded hx hpad hrest ih =>
    -- The word is neither in the padding nor at the break, so it is behind both.
    have hskipped : ∀ y ∈ pad ++ [x], p y = false := by
      intro y hy
      rcases List.mem_append.1 hy with hpadding | hbreak
      · exact hp.of_isPad pad hpad y hpadding
      · rw [List.mem_singleton.1 hbreak]
        exact hp.of_isBreak x hx
    have hsplit : front ++ (word ++ back) = (pad ++ [x]) ++ padded := by
      rw [hpadded, List.append_assoc, List.singleton_append]
    obtain ⟨front', rfl, hrest'⟩ := exists_behind hne hword hskipped hsplit
    rw [List.append_assoc, List.singleton_append]
    obtain ⟨front'', back', rfl, hfront, hback⟩ := ih hrest'
    exact ⟨x :: front'', back', rfl, .pad hx hpad hfront, hback⟩

/-- Padding neither makes nor unmakes a word, under conditions on what is in front of the word and
behind it that padding does not affect. -/
theorem exists_word_iff {before after : List α → Prop} (hne : word ≠ [])
    (h : Padded isBreak isPad plain padded)
    (hbefore : ∀ front front', Padded isBreak isPad front front' → (before front' ↔ before front))
    (hafter : ∀ back back', Padded isBreak isPad back back' → (after back' ↔ after back)) :
    (∃ front back, padded = front ++ word ++ back ∧ before front ∧ after back) ↔
      ∃ front back, plain = front ++ word ++ back ∧ before front ∧ after back := by
  constructor
  · rintro ⟨front, back, rfl, hfront, hback⟩
    rw [List.append_assoc] at h
    obtain ⟨front', back', rfl, hfronts, hbacks⟩ := exists_split hp hword hne h
    exact ⟨front', back', (List.append_assoc _ _ _).symm, (hbefore _ _ hfronts).1 hfront,
      (hafter _ _ hbacks).1 hback⟩
  · rintro ⟨front, back, rfl, hfront, hback⟩
    rw [List.append_assoc] at h
    obtain ⟨front', rest, rfl, hfronts, hrest⟩ := h.exists_append
    obtain ⟨back', rfl, hbacks⟩ := exists_word_append hp hword hrest
    exact ⟨front', back', (List.append_assoc _ _ _).symm, (hbefore _ _ hfronts).2 hfront,
      (hafter _ _ hbacks).2 hback⟩

end Word

/-- A word is at the front of both lists or of none. -/
theorem isPrefixOf? [BEq α] [LawfulBEq α] (h : Padded isBreak isPad plain padded)
    (hp : Unseen isBreak isPad p) (hword : ∀ x ∈ word, p x = true) :
    Option.Rel (Padded isBreak isPad) (word.isPrefixOf? plain) (word.isPrefixOf? padded) := by
  rcases hplain : word.isPrefixOf? plain with _ | rest
  · rcases hpadded : word.isPrefixOf? padded with _ | rest'
    · exact .none
    · obtain rfl := List.isPrefixOf?_eq_some_iff_append_eq.1 hpadded
      obtain ⟨rest, rfl, -⟩ := of_append hp hword h
      rw [List.isPrefixOf?_eq_some_iff_append_eq.2 rfl] at hplain
      exact absurd hplain (Option.some_ne_none _)
  · obtain rfl := List.isPrefixOf?_eq_some_iff_append_eq.1 hplain
    obtain ⟨rest', rfl, hrest⟩ := exists_word_append hp hword h
    rw [List.isPrefixOf?_eq_some_iff_append_eq.2 rfl]
    exact .some hrest

/-- Padding neither makes nor unmakes a word. -/
theorem hasWord_iff {isBreak : Char → Prop} {isPad : List Char → Prop} {inside : Char → Bool}
    {plain padded word : List Char} (h : Padded isBreak isPad plain padded)
    (hinside : Unseen isBreak isPad inside) (hword : ∀ c ∈ word, inside c = true)
    (hne : word ≠ []) : HasWord inside word padded ↔ HasWord inside word plain := by
  refine exists_word_iff hinside hword hne h ?_ ?_
  · intro front front' hfront
    rw [hfront.getLast?_eq]
  · intro back back' hback
    rw [hback.head?_any_eq hinside.blind]

end Padded

end PropertyIndex
