import Mathlib.Data.List.Basic
import PropertyIndex.Source.Mask

/-!
# Masking piece by piece

A text that leaves no comment and no string literal open is masked independently of what follows
it.  Only a slash at its end could still begin a comment with the next character.

* `regionAfter`: what the place behind a text is inside of.
* `IsClosed`: a text that leaves nothing open and does not end in a slash.
* `maskFrom_append`, `IsClosed.mask_append`: masking goes piece by piece.
* `mask_of_isPlain`, `isClosed_of_isPlain`: texts without quotes and slashes.
* `visible`, `shownText_of_visible`, `mem_shownText`, `head?_shownText`, `getLast?_shownText`: the
  masked copy against what its cells show.
* `exists_cells_of_prefix`, `exists_cells_of_shownText`: the cells of a word in the masked copy.
-/

namespace PropertyIndex.Source

/-! ## Regions -/

/-- What the place behind a text is inside of, if the text begins inside a region. -/
def regionAfter : Region → List Char → Region
  | region, [] => region
  | .code, '/' :: '/' :: text => regionAfter .lineComment text
  | .code, '/' :: '*' :: text => regionAfter .blockComment text
  | .code, c :: text => regionAfter (if c == '"' || c == '\'' then .literal c else .code) text
  | .literal quote, c :: text =>
    if c == quote || c == '\n' then regionAfter .code text
    else regionAfter (if c == '\\' then .escaped quote else .literal quote) text
  | .escaped quote, _ :: text => regionAfter (.literal quote) text
  | .lineComment, c :: text =>
    if c == '\n' then regionAfter .code text else regionAfter .lineComment text
  | .blockComment, '*' :: '/' :: text => regionAfter .code text
  | .blockComment, _ :: text => regionAfter .blockComment text

/-- A text that leaves no comment and no string literal open and does not end in a slash. -/
structure IsClosed (text : List Char) : Prop where
  region : regionAfter .code text = .code
  last : text.getLast? ≠ some '/'

instance (text : List Char) : Decidable (IsClosed text) :=
  decidable_of_iff (regionAfter .code text = .code ∧ text.getLast? ≠ some '/')
    ⟨fun h => ⟨h.1, h.2⟩, fun h => ⟨h.region, h.last⟩⟩

theorem getLast?_ne_of_cons {c x : Char} {text : List Char} (h : (c :: text).getLast? ≠ some x) :
    text.getLast? ≠ some x := by
  intro hlast
  rw [List.getLast?_cons, hlast] at h
  exact h rfl

/-- If a sign is not the last character, it has the same neighbour in a longer text. -/
theorem neighbour_append {c sign x : Char} {text : List Char}
    (h : ∀ more, c = sign → text = x :: more → False) (hne : c = sign → text ≠ [])
    (rest : List Char) : ∀ more, c = sign → text ++ rest = x :: more → False := by
  intro more hc hmore
  cases text with
  | nil => exact hne hc rfl
  | cons y text => exact h text hc (congrArg (· :: text) (List.cons.inj hmore).1)

/-- Behind a text that leaves nothing open, both the cells and the region are as at the front. -/
theorem maskFrom_append {region : Region} {text : List Char}
    (hregion : regionAfter region text = .code) (hlast : text.getLast? ≠ some '/')
    (rest : List Char) :
    maskFrom region (text ++ rest) = maskFrom region text ++ maskFrom .code rest ∧
      regionAfter region (text ++ rest) = regionAfter .code rest := by
  fun_induction regionAfter region text with
  | case1 region =>
    rw [hregion]
    exact ⟨rfl, rfl⟩
  | case2 text ih =>
    obtain ⟨hcells, hafter⟩ := ih hregion (getLast?_ne_of_cons (getLast?_ne_of_cons hlast))
    simp only [List.cons_append, maskFrom, regionAfter, hcells, hafter, and_self]
  | case3 text ih =>
    obtain ⟨hcells, hafter⟩ := ih hregion (getLast?_ne_of_cons (getLast?_ne_of_cons hlast))
    simp only [List.cons_append, maskFrom, regionAfter, hcells, hafter, and_self]
  | case4 c text hline hblock ih =>
    obtain ⟨hcells, hafter⟩ := ih hregion (getLast?_ne_of_cons hlast)
    have hne : c = '/' → text ≠ [] := by
      rintro rfl rfl
      exact hlast rfl
    have hline' := neighbour_append hline hne rest
    have hblock' := neighbour_append hblock hne rest
    rw [List.cons_append, maskFrom, maskFrom, regionAfter, hcells, hafter, List.cons_append]
    · exact ⟨rfl, rfl⟩
    all_goals assumption
  | case5 quote c text h ih =>
    obtain ⟨hcells, hafter⟩ := ih hregion (getLast?_ne_of_cons hlast)
    simp only [List.cons_append, maskFrom, regionAfter, if_pos h, hcells, hafter, and_self]
  | case6 quote c text h ih =>
    obtain ⟨hcells, hafter⟩ := ih hregion (getLast?_ne_of_cons hlast)
    simp only [List.cons_append, maskFrom, regionAfter, if_neg h, hcells, hafter, and_self]
  | case7 quote c text ih =>
    obtain ⟨hcells, hafter⟩ := ih hregion (getLast?_ne_of_cons hlast)
    simp only [List.cons_append, maskFrom, regionAfter, hcells, hafter, and_self]
  | case8 c text h ih =>
    obtain ⟨hcells, hafter⟩ := ih hregion (getLast?_ne_of_cons hlast)
    simp only [List.cons_append, maskFrom, regionAfter, if_pos h, hcells, hafter, and_self]
  | case9 c text h ih =>
    obtain ⟨hcells, hafter⟩ := ih hregion (getLast?_ne_of_cons hlast)
    simp only [List.cons_append, maskFrom, regionAfter, if_neg h, hcells, hafter, and_self]
  | case10 text ih =>
    obtain ⟨hcells, hafter⟩ := ih hregion (getLast?_ne_of_cons (getLast?_ne_of_cons hlast))
    simp only [List.cons_append, maskFrom, regionAfter, hcells, hafter, and_self]
  | case11 c text hend ih =>
    obtain ⟨hcells, hafter⟩ := ih hregion (getLast?_ne_of_cons hlast)
    have hne : c = '*' → text ≠ [] := by
      rintro rfl rfl
      exact Region.noConfusion hregion
    have hend' := neighbour_append hend hne rest
    rw [List.cons_append, maskFrom, maskFrom, regionAfter, hcells, hafter, List.cons_append]
    · exact ⟨rfl, rfl⟩
    all_goals assumption

/-! ## Closed texts -/

/-- The cells of a closed text do not depend on what follows it. -/
theorem IsClosed.mask_append {text : List Char} (h : IsClosed text) (rest : List Char) :
    mask (text ++ rest) = mask text ++ mask rest :=
  (maskFrom_append h.region h.last rest).1

theorem isClosed_nil : IsClosed [] where
  region := rfl
  last := by decide

/-- Two closed texts make a closed text. -/
theorem IsClosed.append {text rest : List Char} (h : IsClosed text) (hrest : IsClosed rest) :
    IsClosed (text ++ rest) where
  region := by
    rw [(maskFrom_append h.region h.last rest).2]
    exact hrest.region
  last := by
    intro hlast
    rw [List.getLast?_append] at hlast
    rcases hopt : rest.getLast? with _ | c
    · rw [hopt] at hlast
      exact h.last hlast
    · rw [hopt] at hlast
      exact hrest.last (hopt.trans hlast)

/-- A character that opens neither a comment nor a string literal. -/
def IsPlain (c : Char) : Prop :=
  c ≠ '/' ∧ c ≠ '"' ∧ c ≠ '\''

instance (c : Char) : Decidable (IsPlain c) :=
  inferInstanceAs (Decidable (_ ∧ _ ∧ _))

theorem maskFrom_code_cons {c : Char} (h : IsPlain c) (text : List Char) :
    maskFrom .code (c :: text) = ⟨c, .code⟩ :: maskFrom .code text ∧
      regionAfter .code (c :: text) = regionAfter .code text := by
  obtain ⟨hslash, hquotes⟩ := h
  have hquote : ¬(c == '"' || c == '\'') = true := by
    rw [Bool.or_eq_true, beq_iff_eq, beq_iff_eq, not_or]
    exact hquotes
  rw [maskFrom, regionAfter, if_neg hquote]
  · exact ⟨rfl, rfl⟩
  all_goals exact fun _ hc => absurd hc hslash

/-- Without quotes and slashes all of a text is code. -/
theorem mask_of_isPlain {text : List Char} (h : ∀ c ∈ text, IsPlain c) :
    mask text = text.map (⟨·, .code⟩) := by
  induction text with
  | nil => rfl
  | cons c text ih =>
    obtain ⟨hc, htext⟩ := List.forall_mem_cons.1 h
    rw [mask, (maskFrom_code_cons hc text).1, List.map_cons]
    exact congrArg (⟨c, .code⟩ :: ·) (ih htext)

theorem isClosed_of_isPlain {text : List Char} (h : ∀ c ∈ text, IsPlain c) : IsClosed text where
  region := by
    induction text with
    | nil => rfl
    | cons c text ih =>
      obtain ⟨hc, htext⟩ := List.forall_mem_cons.1 h
      rw [(maskFrom_code_cons hc text).2]
      exact ih htext
  last := by
    intro hlast
    exact (h _ (List.mem_of_getLast? hlast)).1 rfl

theorem isClosed_singleton {c : Char} (h : IsPlain c) : IsClosed [c] :=
  isClosed_of_isPlain (List.forall_mem_singleton.2 h)

/-! ## The masked copy -/

/-- The masked copy of a text. -/
def masked (text : List Char) : List Char :=
  shownText (mask text)

/-- What cells show, with one character for each. -/
def visible (cells : List Cell) : List Char :=
  cells.map Cell.shown

theorem visible_append (cells others : List Cell) :
    visible (cells ++ others) = visible cells ++ visible others :=
  List.map_append

theorem head?_visible_any (p : Char → Bool) (cells : List Cell) :
    (visible cells).head?.any p = cells.head?.any fun cell => p cell.shown := by
  rw [visible, List.head?_map, Option.any_map]

/-- A cell puts a number of copies of what it shows into the masked copy, and only blanks more than
once. -/
theorem Cell.shownText_eq (cell : Cell) :
    (∃ n, cell.shownText = List.replicate (n + 1) ' ' ∧ cell.shown = ' ') ∨
      cell.shownText = [cell.shown] := by
  rcases h : cell.shows with _ | _
  · left
    obtain ⟨n, hn⟩ := Nat.exists_eq_add_of_le' cell.char.utf8Size_pos
    refine ⟨n, ?_, ?_⟩
    · rw [Cell.shownText, h, hn]
      rfl
    · rw [Cell.shown, h]
      rfl
  · right
    rw [Cell.shownText, Cell.shown, h]
    rfl

theorem shownText_append (cells others : List Cell) :
    shownText (cells ++ others) = shownText cells ++ shownText others :=
  List.flatMap_append

theorem IsClosed.masked_append {text : List Char} (h : IsClosed text) (rest : List Char) :
    masked (text ++ rest) = masked text ++ masked rest := by
  rw [masked, h.mask_append, shownText_append, ← masked, ← masked]

/-- A text without quotes and slashes shows itself. -/
theorem visible_mask_of_isPlain {text : List Char} (h : ∀ c ∈ text, IsPlain c) :
    visible (mask text) = text := by
  rw [mask_of_isPlain h, visible, List.map_map]
  exact List.map_id text

/-- Cells that show no blank put one character each into the masked copy. -/
theorem shownText_eq_visible {cells : List Cell} (h : ∀ c ∈ visible cells, c ≠ ' ') :
    shownText cells = visible cells := by
  induction cells with
  | nil => rfl
  | cons cell cells ih =>
    obtain ⟨hcell, hcells⟩ := List.forall_mem_cons.1 h
    rcases cell.shownText_eq with ⟨n, -, hshown⟩ | htext
    · exact absurd hshown hcell
    · show cell.shownText ++ shownText cells = cell.shown :: visible cells
      rw [htext, ih hcells, List.singleton_append]

/-- Where cells show a word between others, the masked copy has it between theirs. -/
theorem shownText_of_visible {cells : List Cell} {before word after : List Char}
    (hword : ∀ c ∈ word, c ≠ ' ') (h : visible cells = before ++ word ++ after) :
    ∃ front back, shownText cells = shownText front ++ word ++ shownText back ∧
      visible front = before ∧ visible back = after := by
  obtain ⟨left, back, rfl, hleft, rfl⟩ := List.map_eq_append_iff.1 h
  obtain ⟨front, middle, rfl, rfl, rfl⟩ := List.map_eq_append_iff.1 hleft
  refine ⟨front, back, ?_, rfl, rfl⟩
  rw [shownText_append, shownText_append, shownText_eq_visible hword, visible]

/-- The masked copy has the characters that its cells show. -/
theorem mem_shownText {c : Char} {cells : List Cell} : c ∈ shownText cells ↔ c ∈ visible cells := by
  rw [shownText, visible, List.mem_flatMap, List.mem_map]
  refine exists_congr fun cell => and_congr_right fun _ => ?_
  rcases cell.shownText_eq with ⟨n, htext, hshown⟩ | htext
  · rw [htext, hshown, List.mem_replicate]
    exact ⟨fun h => h.2.symm, fun h => ⟨n.succ_ne_zero, h.symm⟩⟩
  · rw [htext, List.mem_singleton, eq_comm]

/-- The masked copy begins with what its first cell shows. -/
theorem head?_shownText (cells : List Cell) : (shownText cells).head? = (visible cells).head? := by
  cases cells with
  | nil => rfl
  | cons cell cells =>
    rw [shownText, List.flatMap_cons, visible, List.map_cons, List.head?_cons]
    rcases cell.shownText_eq with ⟨n, htext, hshown⟩ | htext
    · rw [htext, hshown]
      rfl
    · rw [htext]
      rfl

/-- The masked copy ends with what its last cell shows. -/
theorem getLast?_shownText (cells : List Cell) :
    (shownText cells).getLast? = (visible cells).getLast? := by
  rcases cells.eq_nil_or_concat with rfl | ⟨cells, cell, rfl⟩
  · rfl
  · rw [List.concat_eq_append, shownText_append, visible_append]
    show (shownText cells ++ (cell.shownText ++ [])).getLast? = _
    rw [List.append_nil, List.getLast?_append, List.getLast?_append]
    rcases cell.shownText_eq with ⟨n, htext, hshown⟩ | htext
    · rw [htext, List.getLast?_replicate, visible, List.map_singleton, hshown]
      rfl
    · rw [htext]
      rfl

theorem shownText_eq_nil {cells : List Cell} : shownText cells = [] ↔ cells = [] := by
  rw [← List.head?_eq_none_iff, head?_shownText, List.head?_eq_none_iff, visible,
    List.map_eq_nil_iff]

/-- A character that is no blank is in the masked copy for a cell of its own. -/
theorem exists_cell_of_shownText {cells : List Cell} {before after : List Char} {c : Char}
    (hc : c ≠ ' ') (h : shownText cells = before ++ c :: after) :
    ∃ front cell back, cells = front ++ cell :: back ∧ shownText front = before ∧
      cell.shown = c ∧ shownText back = after := by
  induction cells generalizing before with
  | nil => exact absurd h.symm (List.append_ne_nil_of_right_ne_nil _ (List.cons_ne_nil _ _))
  | cons cell cells ih =>
    rcases List.append_eq_append_iff.1 h with ⟨ahead, rfl, hrest⟩ | ⟨shared, hcell, hafter⟩
    · obtain ⟨front, found, back, rfl, rfl, hfound, hback⟩ := ih hrest
      exact ⟨cell :: front, found, back, rfl, rfl, hfound, hback⟩
    · cases shared with
      | nil =>
        rw [List.append_nil] at hcell
        obtain ⟨front, found, back, rfl, hfront, hfound, hback⟩ := @ih [] hafter.symm
        refine ⟨cell :: front, found, back, rfl, ?_, hfound, hback⟩
        show cell.shownText ++ shownText front = before
        rw [hfront, List.append_nil, hcell]
      | cons d shared =>
        obtain ⟨rfl, rfl⟩ := List.cons.inj hafter
        rcases cell.shownText_eq with ⟨n, htext, -⟩ | htext
        · have hmem : c ∈ List.replicate (n + 1) ' ' := by
            rw [← htext, hcell]
            exact List.mem_append_right _ List.mem_cons_self
          exact absurd (List.mem_replicate.1 hmem).2 hc
        · rw [htext, List.singleton_eq_append_iff] at hcell
          rcases hcell with ⟨rfl, hshown⟩ | ⟨-, hnil⟩
          · obtain ⟨hc', rfl⟩ := List.cons.inj hshown
            exact ⟨[], cell, cells, rfl, rfl, hc'.symm, rfl⟩
          · exact absurd hnil (List.cons_ne_nil _ _)

/-- A word at the front of the masked copy is what the first cells show. -/
theorem exists_cells_of_prefix {cells : List Cell} {word after : List Char}
    (hword : ∀ c ∈ word, c ≠ ' ') (h : shownText cells = word ++ after) :
    ∃ taken back, cells = taken ++ back ∧ visible taken = word ∧ shownText back = after := by
  induction word generalizing cells with
  | nil => exact ⟨[], cells, rfl, rfl, h⟩
  | cons c word ih =>
    obtain ⟨hc, hword'⟩ := List.forall_mem_cons.1 hword
    obtain ⟨front, cell, behind, rfl, hfront, rfl, hbehind⟩ :=
      @exists_cell_of_shownText cells [] _ c hc h
    obtain rfl := shownText_eq_nil.1 hfront
    obtain ⟨taken, back, rfl, rfl, hback⟩ := ih hword' hbehind
    exact ⟨cell :: taken, back, rfl, rfl, hback⟩

/-- Where the masked copy has a word, some cells show it. -/
theorem exists_cells_of_shownText {cells : List Cell} {before word after : List Char}
    (hne : word ≠ []) (hword : ∀ c ∈ word, c ≠ ' ')
    (h : shownText cells = before ++ word ++ after) :
    ∃ front middle back, cells = front ++ middle ++ back ∧ shownText front = before ∧
      visible middle = word ∧ shownText back = after := by
  obtain ⟨c, word, rfl⟩ := List.exists_cons_of_ne_nil hne
  obtain ⟨hc, hword'⟩ := List.forall_mem_cons.1 hword
  rw [List.append_assoc] at h
  obtain ⟨front, cell, behind, rfl, hfront, rfl, hbehind⟩ := exists_cell_of_shownText hc h
  obtain ⟨taken, back, rfl, rfl, hback⟩ := exists_cells_of_prefix hword' hbehind
  refine ⟨front, cell :: taken, back, ?_, hfront, rfl, hback⟩
  rw [List.append_assoc, List.cons_append]

end PropertyIndex.Source
