import PropertyIndex.Proofs.Masking
import PropertyIndex.Source.Block

/-!
# Nested groups

Parentheses and braces are properly nested when every group is closed by its own sign, innermost
first.  A reading that counts open groups passes over a nested text inside a group: whatever it
looks for, it finds behind that text.

* `nestedWithin`: whether a text closes the groups that are open in front of it.
* `nestedWithin_cons`: what the first character of a nested text can be.
* `nestedWithin_shownText`: nesting is the same in the masked copy and in what cells show.
* `throughClose_append`, `statementFrom_append`: the readings pass over a nested text.
-/

namespace PropertyIndex.Source

/-! ## Properly nested texts -/

/-- The sign that closes the group which a sign opens. -/
def closerOf? : Char → Option Char
  | '(' => some ')'
  | '{' => some '}'
  | _ => none

/-- Whether a text closes all groups that it opens, and before its end also those in front of it
for which the signs in `closers` are due, innermost first. -/
def nestedWithin : List Char → List Char → Bool
  | closers, [] => closers.isEmpty
  | closers, c :: text =>
    match closerOf? c with
    | some closer => nestedWithin (closer :: closers) text
    | none =>
      if c == ')' || c == '}' then
        match closers with
        | [] => false
        | closer :: outer => c == closer && nestedWithin outer text
      else nestedWithin closers text

/-- A sign that opens or closes a group. -/
def IsSign (c : Char) : Prop :=
  c = '(' ∨ c = ')' ∨ c = '{' ∨ c = '}'

theorem nestedWithin_of_not_isSign {c : Char} (h : ¬IsSign c) (closers text : List Char) :
    nestedWithin closers (c :: text) = nestedWithin closers text := by
  obtain ⟨hparen, hparen', hbrace, hbrace'⟩ : c ≠ '(' ∧ c ≠ ')' ∧ c ≠ '{' ∧ c ≠ '}' := by
    rwa [IsSign, not_or, not_or, not_or] at h
  have hopen : closerOf? c = none := by
    rw [closerOf?]
    · exact hparen
    · exact hbrace
  have hclose : ¬(c == ')' || c == '}') = true := by
    rw [Bool.or_eq_true, beq_iff_eq, beq_iff_eq, not_or]
    exact ⟨hparen', hbrace'⟩
  simp only [nestedWithin, hopen]
  exact if_neg hclose

/-- A nested text begins with an opening sign, with the closing sign that is due, or with a
character that is no sign. -/
theorem nestedWithin_cons {closers text : List Char} {c : Char}
    (h : nestedWithin closers (c :: text) = true) :
    (c = '(' ∧ nestedWithin (')' :: closers) text = true) ∨
      (c = '{' ∧ nestedWithin ('}' :: closers) text = true) ∨
      (∃ outer, closers = ')' :: outer ∧ c = ')' ∧ nestedWithin outer text = true) ∨
      (∃ outer, closers = '}' :: outer ∧ c = '}' ∧ nestedWithin outer text = true) ∨
      (¬IsSign c ∧ nestedWithin closers text = true) := by
  by_cases hsign : IsSign c
  · rcases hsign with rfl | rfl | rfl | rfl
    · exact Or.inl ⟨rfl, h⟩
    · refine Or.inr (Or.inr (Or.inl ?_))
      cases closers with
      | nil => exact Bool.noConfusion h
      | cons closer outer =>
        obtain ⟨hcloser, houter⟩ := Bool.and_eq_true_iff.1 h
        exact ⟨outer, by rw [beq_iff_eq.1 hcloser], rfl, houter⟩
    · exact Or.inr (Or.inl ⟨rfl, h⟩)
    · refine Or.inr (Or.inr (Or.inr (Or.inl ?_)))
      cases closers with
      | nil => exact Bool.noConfusion h
      | cons closer outer =>
        obtain ⟨hcloser, houter⟩ := Bool.and_eq_true_iff.1 h
        exact ⟨outer, by rw [beq_iff_eq.1 hcloser], rfl, houter⟩
  · rw [nestedWithin_of_not_isSign hsign] at h
    exact Or.inr (Or.inr (Or.inr (Or.inr ⟨hsign, h⟩)))

/-- Characters that are no signs do not count. -/
theorem nestedWithin_append_of_not_isSign {front : List Char} (h : ∀ c ∈ front, ¬IsSign c)
    (closers text : List Char) :
    nestedWithin closers (front ++ text) = nestedWithin closers text := by
  induction front with
  | nil => rfl
  | cons c front ih =>
    obtain ⟨hc, hfront⟩ := List.forall_mem_cons.1 h
    rw [List.cons_append, nestedWithin_of_not_isSign hc, ih hfront]

/-- Behind a text that closes its groups and those due, another one closes what it opens. -/
theorem nestedWithin_append {closers front back : List Char}
    (hfront : nestedWithin closers front = true) (hback : nestedWithin [] back = true) :
    nestedWithin closers (front ++ back) = true := by
  induction front generalizing closers with
  | nil =>
    rw [nestedWithin, List.isEmpty_iff] at hfront
    rw [hfront]
    exact hback
  | cons c front ih =>
    rw [List.cons_append]
    rcases nestedWithin_cons hfront with ⟨rfl, h⟩ | ⟨rfl, h⟩ | ⟨outer, rfl, rfl, h⟩ |
      ⟨outer, rfl, rfl, h⟩ | ⟨hsign, h⟩
    · exact ih h
    · exact ih h
    · exact ih h
    · exact ih h
    · rw [nestedWithin_of_not_isSign hsign]
      exact ih h

/-- Nesting is the same in the masked copy and in what cells show. -/
theorem nestedWithin_shownText (closers : List Char) (cells : List Cell) :
    nestedWithin closers (shownText cells) = nestedWithin closers (visible cells) := by
  have hblank : ¬IsSign ' ' := by
    rintro (h | h | h | h) <;> exact absurd h (by decide)
  induction cells generalizing closers with
  | nil => rfl
  | cons cell cells ih =>
    show nestedWithin closers (cell.shownText ++ shownText cells) =
      nestedWithin closers (cell.shown :: visible cells)
    rcases cell.shownText_eq with ⟨n, htext, hshown⟩ | htext
    · have hspaces : ∀ c ∈ List.replicate (n + 1) ' ', ¬IsSign c := fun c hc => by
        rw [(List.mem_replicate.1 hc).2]
        exact hblank
      rw [htext, hshown, nestedWithin_append_of_not_isSign hspaces,
        nestedWithin_of_not_isSign hblank, ih]
    · rw [htext, List.singleton_append]
      simp only [nestedWithin, ih]

/-! ## Readings that count open groups -/

section Readings

variable {cell : Cell} {seen cells rest : List Cell} {closers : List Char} {depth : Nat}

theorem throughClose_cons_of_ne (hopen : cell.shown ≠ '{') (hclose : cell.shown ≠ '}') :
    throughClose depth (cell :: cells) = (throughClose depth cells).map (cell :: ·) := by
  rw [throughClose, if_neg (by rwa [beq_iff_eq]), if_neg (by rwa [beq_iff_eq])]

theorem throughClose_cons_open (hopen : cell.shown = '{') :
    throughClose depth (cell :: cells) = (throughClose (depth + 1) cells).map (cell :: ·) := by
  rw [throughClose, if_pos (beq_iff_eq.2 hopen)]

theorem throughClose_cons_close (hclose : cell.shown = '}') (hdepth : 1 ≤ depth) :
    throughClose (depth + 1) (cell :: cells) = (throughClose depth cells).map (cell :: ·) := by
  rw [throughClose, hclose, if_neg (by decide), if_pos (beq_iff_eq.2 rfl), if_neg (by omega)]
  rfl

/-- The search for the brace that closes a group passes over a nested text inside the group. -/
theorem throughClose_append (hnested : nestedWithin closers (visible cells) = true)
    (hdepth : 1 ≤ depth) : throughClose (depth + closers.count '}') (cells ++ rest) =
      (throughClose depth rest).map (cells ++ ·) := by
  induction cells generalizing closers with
  | nil =>
    rw [visible, List.map_nil, nestedWithin, List.isEmpty_iff] at hnested
    rw [hnested]
    exact (Option.map_id' ..).symm
  | cons cell cells ih =>
    have hmap : ∀ more : Option (List Cell), (more.map (cells ++ ·)).map (cell :: ·) =
        more.map (cell :: cells ++ ·) := fun more => Option.map_map ..
    rw [List.cons_append]
    rcases nestedWithin_cons hnested with ⟨hc, h⟩ | ⟨hc, h⟩ | ⟨outer, rfl, hc, h⟩ |
      ⟨outer, rfl, hc, h⟩ | ⟨hsign, h⟩
    · rw [throughClose_cons_of_ne (by rw [hc]; decide) (by rw [hc]; decide), ← hmap, ← ih h]
      rfl
    · rw [throughClose_cons_open hc, ← hmap, ← ih h, List.count_cons_self, Nat.add_assoc]
    · rw [throughClose_cons_of_ne (by rw [hc]; decide) (by rw [hc]; decide), ← hmap, ← ih h]
      rfl
    · rw [List.count_cons_self, ← Nat.add_assoc,
        throughClose_cons_close hc (Nat.le_add_right_of_le hdepth), ← hmap, ← ih h]
    · have hopen : cell.shown ≠ '{' := fun hc => hsign (Or.inr (Or.inr (Or.inl hc)))
      have hclose : cell.shown ≠ '}' := fun hc => hsign (Or.inr (Or.inr (Or.inr hc)))
      rw [throughClose_cons_of_ne hopen hclose, ← hmap, ← ih h]

/-- Cells in front of what a reading has found. -/
def prepend {β : Type} (cells : List Cell) (found : List Cell × β) : List Cell × β :=
  (cells ++ found.1, found.2)

theorem splitHeader_cons_inside_of_ne (hopen : cell.shown ≠ '{') (hclose : cell.shown ≠ '}') :
    splitHeader seen (depth + 1) (cell :: cells) =
      (splitHeader (cell :: seen) (depth + 1) cells).map (prepend [cell]) := by
  rw [splitHeader, if_neg (by rwa [beq_iff_eq]), if_neg (by rwa [beq_iff_eq])]
  rfl

theorem splitHeader_cons_inside_open (hopen : cell.shown = '{') :
    splitHeader seen (depth + 1) (cell :: cells) =
      (splitHeader (cell :: seen) (depth + 2) cells).map (prepend [cell]) := by
  rw [splitHeader, if_pos (beq_iff_eq.2 hopen)]
  rfl

theorem splitHeader_cons_inside_close (hclose : cell.shown = '}') :
    splitHeader seen (depth + 1) (cell :: cells) =
      (splitHeader (cell :: seen) depth cells).map (prepend [cell]) := by
  rw [splitHeader, hclose, if_neg (by decide), if_pos (beq_iff_eq.2 rfl)]
  rfl

theorem prepend_append {β : Type} (front : List Cell) (found : List Cell × β) :
    prepend front (prepend cells found) = prepend (front ++ cells) found :=
  congrArg (·, found.2) (List.append_assoc ..).symm

theorem map_prepend_append {β : Type} (front : List Cell) (more : Option (List Cell × β)) :
    (more.map (prepend cells)).map (prepend front) = more.map (prepend (front ++ cells)) := by
  rw [Option.map_map]
  exact congrArg (more.map ·) (funext (prepend_append front))

theorem map_prepend_cons {β : Type} (more : Option (List Cell × β)) :
    (more.map (prepend cells)).map (prepend [cell]) = more.map (prepend (cell :: cells)) :=
  map_prepend_append [cell] more

/-- The search for a body passes over a header without semicolons and braces. -/
theorem splitHeader_append_outside (h : ∀ c ∈ visible cells, c ≠ ';' ∧ c ≠ '{') :
    splitHeader seen 0 (cells ++ rest) =
      (splitHeader (cells.reverse ++ seen) 0 rest).map (prepend cells) := by
  induction cells generalizing seen with
  | nil => exact (Option.map_id' ..).symm
  | cons cell cells ih =>
    obtain ⟨⟨hsemicolon, hopen⟩, hcells⟩ := List.forall_mem_cons.1 h
    rw [List.cons_append, List.reverse_cons, List.append_assoc, List.singleton_append, splitHeader,
      if_neg (by rwa [beq_iff_eq]), if_neg (by rwa [beq_iff_eq])]
    exact (congrArg (Option.map _) (ih hcells)).trans (map_prepend_cons _)

theorem statementFrom_cons_open (hopen : cell.shown = '(' ∨ cell.shown = '{') :
    statementFrom depth (cell :: cells) = prepend [cell] (statementFrom (depth + 1) cells) := by
  rw [statementFrom, if_pos (by rwa [Bool.or_eq_true, beq_iff_eq, beq_iff_eq])]
  rfl

theorem statementFrom_cons_paren (hclose : cell.shown = ')') :
    statementFrom (depth + 1) (cell :: cells) = prepend [cell] (statementFrom depth cells) := by
  rw [statementFrom, hclose, if_neg (by decide), if_pos (by decide)]
  rfl

/-- A brace ends a statement when it closes the last open group and no other one follows. -/
theorem statementFrom_cons_brace (hclose : cell.shown = '}') :
    statementFrom (depth + 1) (cell :: cells) =
      if depth = 0 ∧ continuesWithGroup cells = false then ([cell], true)
      else prepend [cell] (statementFrom depth cells) := by
  rw [statementFrom, hclose, if_neg (by decide), if_neg (by decide), if_pos (by decide)]
  refine if_congr ?_ rfl rfl
  rw [Bool.and_eq_true, decide_eq_true_eq, Bool.not_eq_true', Nat.succ_le_succ_iff, Nat.le_zero]

theorem statementFrom_cons_of_not_isSign (hsign : ¬IsSign cell.shown)
    (hinside : 1 ≤ depth ∨ cell.shown ≠ ';') :
    statementFrom depth (cell :: cells) = prepend [cell] (statementFrom depth cells) := by
  obtain ⟨hparen, hparen', hbrace, hbrace'⟩ :
      cell.shown ≠ '(' ∧ cell.shown ≠ ')' ∧ cell.shown ≠ '{' ∧ cell.shown ≠ '}' := by
    rwa [IsSign, not_or, not_or, not_or] at hsign
  have hend : ¬(cell.shown == ';' && depth == 0) = true := by
    rw [Bool.and_eq_true, beq_iff_eq, beq_iff_eq]
    rintro ⟨hsemicolon, hzero⟩
    rcases hinside with hdepth | hne
    · omega
    · exact hne hsemicolon
  rw [statementFrom, if_neg (by rw [Bool.or_eq_true, beq_iff_eq, beq_iff_eq, not_or]; exact
    ⟨hparen, hbrace⟩), if_neg (by rwa [beq_iff_eq]), if_neg (by rwa [beq_iff_eq]), if_neg hend]
  rfl

/-- A semicolon outside all groups ends a statement. -/
theorem statementFrom_cons_semicolon (hsemicolon : cell.shown = ';') :
    statementFrom 0 (cell :: cells) = ([cell], true) := by
  rw [statementFrom, hsemicolon]
  rfl

theorem prepend_cons {β : Type} (found : List Cell × β) :
    prepend [cell] (prepend cells found) = prepend (cell :: cells) found :=
  prepend_append [cell] found

/-- The search for the end of a statement passes over a nested text, inside a group or where the
text has neither a semicolon nor a closing brace. -/
theorem statementFrom_append (hnested : nestedWithin closers (visible cells) = true)
    (hinside : 1 ≤ depth ∨ ∀ c ∈ visible cells, c ≠ ';' ∧ c ≠ '}') :
    statementFrom (depth + closers.length) (cells ++ rest) =
      prepend cells (statementFrom depth rest) := by
  induction cells generalizing closers with
  | nil =>
    rw [visible, List.map_nil, nestedWithin, List.isEmpty_iff] at hnested
    rw [hnested]
    rfl
  | cons cell cells ih =>
    have hcells : 1 ≤ depth ∨ ∀ c ∈ visible cells, c ≠ ';' ∧ c ≠ '}' :=
      hinside.imp_right fun hmem c hc => hmem c (List.mem_cons_of_mem _ hc)
    rw [List.cons_append, ← prepend_cons]
    rcases nestedWithin_cons hnested with ⟨hc, h⟩ | ⟨hc, h⟩ | ⟨outer, rfl, hc, h⟩ |
      ⟨outer, rfl, hc, h⟩ | ⟨hsign, h⟩
    · rw [statementFrom_cons_open (Or.inl hc), ← ih h hcells, List.length_cons, Nat.add_assoc]
    · rw [statementFrom_cons_open (Or.inr hc), ← ih h hcells, List.length_cons, Nat.add_assoc]
    · rw [List.length_cons, ← Nat.add_assoc, statementFrom_cons_paren hc, ih h hcells]
    · have hdepth : ¬(depth + outer.length = 0 ∧ continuesWithGroup (cells ++ rest) = false) := by
        rintro ⟨hzero, -⟩
        rcases hinside with hpos | hmem
        · omega
        · exact (hmem _ List.mem_cons_self).2 hc
      rw [List.length_cons, ← Nat.add_assoc, statementFrom_cons_brace hc, if_neg hdepth,
        ih h hcells]
    · have hend : 1 ≤ depth + closers.length ∨ cell.shown ≠ ';' :=
        hinside.imp Nat.le_add_right_of_le fun hmem => (hmem _ List.mem_cons_self).1
      rw [statementFrom_cons_of_not_isSign hsign hend, ih h hcells]

end Readings

end PropertyIndex.Source
