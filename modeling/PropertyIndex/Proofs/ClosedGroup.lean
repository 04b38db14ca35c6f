import PropertyIndex.Proofs.Nesting

/-!
# Groups that close

A brace group closes at the first place behind which there are as many closing braces as opening
ones.  The search for that place counts open groups, and it passes over whatever else stands in
the text.

* `StaysOpen`: a text that leaves the outermost of the groups around it open.
* `IsClosedGroup`: a group that ends where it closes; it is the only one at its place.
* `throughClose_eq_none_iff`, `inner_of_throughClose`: what the search finds.
* `closedGroup_of_throughClose`, `lt_count_of_throughClose`: the search from an opening brace on.
* `splitHeader_group`: the search for a body passes over the group of a clause.
-/

namespace PropertyIndex.Source

/-! ## Texts inside groups -/

/-- No part of a text from its start on closes all the groups around it. -/
def StaysOpen (depth : Nat) (text : List Char) : Prop :=
  ∀ front, front <+: text → front.count '}' < depth + front.count '{'

section Open

variable {depth : Nat} {c : Char} {front text : List Char}

/-- The parts of a text from its start on. -/
theorem forall_prefix_cons {p : List Char → Prop} :
    (∀ front, front <+: c :: text → p front) ↔
      p [] ∧ ∀ front, front <+: text → p (c :: front) := by
  constructor
  · intro h
    exact ⟨h [] List.nil_prefix, fun front hfront => h _ (List.cons_prefix_cons.2 ⟨rfl, hfront⟩)⟩
  · rintro ⟨hnil, hcons⟩ front hfront
    rcases List.prefix_cons_iff.1 hfront with rfl | ⟨tail, rfl, htail⟩
    · exact hnil
    · exact hcons tail htail

theorem staysOpen_nil : StaysOpen depth [] ↔ 0 < depth := by
  constructor
  · intro h
    exact h [] List.nil_prefix
  · intro h front hfront
    rw [List.prefix_nil.1 hfront]
    exact h

theorem StaysOpen.pos (h : StaysOpen depth text) : 0 < depth :=
  h [] List.nil_prefix

theorem staysOpen_cons_open :
    StaysOpen (depth + 1) ('{' :: text) ↔ StaysOpen (depth + 2) text := by
  rw [StaysOpen, forall_prefix_cons, StaysOpen]
  simp only [List.count_cons_self, List.count_cons_of_ne (show '{' ≠ '}' by decide)]
  refine (and_iff_right ?_).trans (forall₂_congr fun front _ => ?_)
  · exact Nat.succ_pos depth
  · omega

theorem staysOpen_cons_close : StaysOpen (depth + 1) ('}' :: text) ↔ StaysOpen depth text := by
  rw [StaysOpen, forall_prefix_cons, StaysOpen]
  simp only [List.count_cons_self, List.count_cons_of_ne (show '}' ≠ '{' by decide)]
  refine (and_iff_right ?_).trans (forall₂_congr fun front _ => ?_)
  · exact Nat.succ_pos depth
  · omega

theorem staysOpen_cons_of_ne (hopen : c ≠ '{') (hclose : c ≠ '}') :
    StaysOpen (depth + 1) (c :: text) ↔ StaysOpen (depth + 1) text := by
  rw [StaysOpen, forall_prefix_cons, StaysOpen]
  simp only [List.count_cons_of_ne hopen, List.count_cons_of_ne hclose]
  exact and_iff_right (Nat.succ_pos depth)

/-- Characters other than braces do not count. -/
theorem staysOpen_append (hfront : ∀ c ∈ front, c ≠ '{' ∧ c ≠ '}') :
    StaysOpen (depth + 1) (front ++ text) ↔ StaysOpen (depth + 1) text := by
  induction front with
  | nil => exact Iff.rfl
  | cons c front ih =>
    obtain ⟨⟨hopen, hclose⟩, hfront'⟩ := List.forall_mem_cons.1 hfront
    rw [List.cons_append, staysOpen_cons_of_ne hopen hclose, ih hfront']

end Open

/-! ## Closed groups -/

/-- A brace group that ends where it closes: it has as many closing braces as opening ones, and
every shorter part of it from its start on has more opening ones. -/
structure IsClosedGroup (group : List Char) : Prop where
  head : group.head? = some '{'
  balanced : group.count '{' = group.count '}'
  shorter : ∀ front, front <+: group → front ≠ [] → front ≠ group →
    front.count '}' < front.count '{'

namespace IsClosedGroup

variable {group other text : List Char}

theorem ne_nil (h : IsClosedGroup group) : group ≠ [] := by
  rintro rfl
  exact absurd h.head.symm (Option.some_ne_none _)

/-- A group that begins another one is that group. -/
theorem eq_of_begins (h : IsClosedGroup group) (hother : IsClosedGroup other)
    (hbegins : group <+: other) : group = other := by
  by_contra hne
  exact absurd h.balanced.symm (Nat.ne_of_lt (hother.shorter group hbegins h.ne_nil hne))

/-- There is one group at the front of a text. -/
theorem unique (h : IsClosedGroup group) (hother : IsClosedGroup other) (hgroup : group <+: text)
    (hbegins : other <+: text) : group = other := by
  rcases List.prefix_or_prefix_of_prefix hgroup hbegins with hle | hle
  · exact h.eq_of_begins hother hle
  · exact (hother.eq_of_begins h hle).symm

end IsClosedGroup

/-- A group around a text that stays open inside it and balances. -/
theorem isClosedGroup_of_inner {inner : List Char} (hinner : StaysOpen 1 inner)
    (hcount : inner.count '}' = inner.count '{') :
    IsClosedGroup ('{' :: (inner ++ ['}'])) where
  head := rfl
  balanced := by
    simp only [List.count_cons, List.count_append, List.count_nil, hcount]
    rfl
  shorter := by
    intro front hfront hne hshort
    rcases List.prefix_cons_iff.1 hfront with rfl | ⟨tail, rfl, htail⟩
    · exact absurd rfl hne
    rcases List.prefix_concat_iff.1 htail with rfl | htail
    · exact absurd rfl hshort
    have hlt := hinner tail htail
    rw [List.count_cons_self, List.count_cons_of_ne (by decide)]
    omega

/-! ## The search for the closing brace -/

section Search

variable {depth : Nat} {cell : Cell} {cells group rest taken more : List Cell}

theorem shownText_cons (cell : Cell) (cells : List Cell) :
    shownText (cell :: cells) = cell.shownText ++ shownText cells :=
  List.flatMap_cons

/-- A cell that shows a sign puts it into the masked copy. -/
theorem shownText_cons_of_shown {c : Char} (hcell : cell.shown = c) (hc : c ≠ ' ') :
    shownText (cell :: cells) = c :: shownText cells := by
  rw [shownText_cons]
  rcases cell.shownText_eq with ⟨n, -, hshown⟩ | htext
  · exact absurd (hcell.symm.trans hshown) hc
  · rw [htext, hcell]
    rfl

theorem forall_mem_shownText {p : Char → Prop} (h : p cell.shown) : ∀ c ∈ cell.shownText, p c := by
  intro c hc
  rcases cell.shownText_eq with ⟨n, htext, hshown⟩ | htext
  · rw [htext] at hc
    rw [(List.mem_replicate.1 hc).2, ← hshown]
    exact h
  · rw [htext, List.mem_singleton] at hc
    rw [hc]
    exact h

theorem throughClose_cons_last (hclose : cell.shown = '}') (cells : List Cell) :
    throughClose 1 (cell :: cells) = some [cell] := by
  rw [throughClose, hclose]
  rfl

/-- The search comes to an opening brace, to the brace that closes the last group, to one that
closes another group, or to a cell that does not count. -/
theorem shown_cases (depth : Nat) (cell : Cell) : cell.shown = '{' ∨
    (cell.shown = '}' ∧ depth = 0) ∨ (cell.shown = '}' ∧ ∃ outer, depth = outer + 1) ∨
      (cell.shown ≠ '{' ∧ cell.shown ≠ '}') := by
  by_cases hopen : cell.shown = '{'
  · exact Or.inl hopen
  by_cases hclose : cell.shown = '}'
  · cases depth with
    | zero => exact Or.inr (Or.inl ⟨hclose, rfl⟩)
    | succ outer => exact Or.inr (Or.inr (Or.inl ⟨hclose, outer, rfl⟩))
  · exact Or.inr (Or.inr (Or.inr ⟨hopen, hclose⟩))

/-- The search finds nothing exactly when the groups stay open up to the end. -/
theorem throughClose_eq_none_iff :
    throughClose (depth + 1) cells = none ↔ StaysOpen (depth + 1) (shownText cells) := by
  induction cells generalizing depth with
  | nil => exact iff_of_true rfl (staysOpen_nil.2 (Nat.succ_pos depth))
  | cons cell cells ih =>
    rcases shown_cases depth cell with hopen | ⟨hclose, rfl⟩ | ⟨hclose, outer, rfl⟩ |
      ⟨hopen, hclose⟩
    · rw [throughClose_cons_open hopen, Option.map_eq_none_iff, ih,
        shownText_cons_of_shown hopen (by decide), staysOpen_cons_open]
    · rw [throughClose_cons_last hclose, shownText_cons_of_shown hclose (by decide),
        staysOpen_cons_close]
      exact iff_of_false (Option.some_ne_none _) fun h => absurd h.pos (Nat.lt_irrefl 0)
    · rw [throughClose_cons_close hclose (Nat.succ_pos outer), Option.map_eq_none_iff, ih,
        shownText_cons_of_shown hclose (by decide), staysOpen_cons_close]
    · rw [throughClose_cons_of_ne hopen hclose, Option.map_eq_none_iff, ih, shownText_cons,
        staysOpen_append (forall_mem_shownText ⟨hopen, hclose⟩)]

/-- The search finds the first brace that closes the groups. -/
theorem inner_of_throughClose (h : throughClose (depth + 1) cells = some taken) :
    ∃ inner closing more, taken = inner ++ [closing] ∧ cells = taken ++ more ∧
      closing.shown = '}' ∧ StaysOpen (depth + 1) (shownText inner) ∧
      (shownText inner).count '}' = depth + (shownText inner).count '{' := by
  induction cells generalizing depth taken with
  | nil => exact absurd h.symm (Option.some_ne_none _)
  | cons cell cells ih =>
    rcases shown_cases depth cell with hopen | ⟨hclose, rfl⟩ | ⟨hclose, outer, rfl⟩ |
      ⟨hopen, hclose⟩
    · rw [throughClose_cons_open hopen] at h
      obtain ⟨taken, htaken, rfl⟩ := Option.map_eq_some_iff.1 h
      obtain ⟨inner, closing, more, rfl, rfl, hclosing, hstays, hcount⟩ := ih htaken
      refine ⟨cell :: inner, closing, more, rfl, rfl, hclosing, ?_, ?_⟩
      · rwa [shownText_cons_of_shown hopen (by decide), staysOpen_cons_open]
      · rw [shownText_cons_of_shown hopen (by decide), List.count_cons_self,
          List.count_cons_of_ne (by decide), hcount]
        omega
    · rw [throughClose_cons_last hclose] at h
      obtain rfl := Option.some_inj.1 h
      exact ⟨[], cell, cells, rfl, rfl, hclose, staysOpen_nil.2 Nat.one_pos, rfl⟩
    · rw [throughClose_cons_close hclose (Nat.succ_pos outer)] at h
      obtain ⟨taken, htaken, rfl⟩ := Option.map_eq_some_iff.1 h
      obtain ⟨inner, closing, more, rfl, rfl, hclosing, hstays, hcount⟩ := ih htaken
      refine ⟨cell :: inner, closing, more, rfl, rfl, hclosing, ?_, ?_⟩
      · rwa [shownText_cons_of_shown hclose (by decide), staysOpen_cons_close]
      · rw [shownText_cons_of_shown hclose (by decide), List.count_cons_self,
          List.count_cons_of_ne (by decide), hcount]
        omega
    · rw [throughClose_cons_of_ne hopen hclose] at h
      obtain ⟨taken, htaken, rfl⟩ := Option.map_eq_some_iff.1 h
      obtain ⟨inner, closing, more, rfl, rfl, hclosing, hstays, hcount⟩ := ih htaken
      have hplain := forall_mem_shownText (p := fun c => c ≠ '{' ∧ c ≠ '}') ⟨hopen, hclose⟩
      refine ⟨cell :: inner, closing, more, rfl, rfl, hclosing, ?_, ?_⟩
      · rwa [shownText_cons, staysOpen_append hplain]
      · rw [shownText_cons, List.count_append, List.count_append, hcount,
          List.count_eq_zero.2 fun hmem => (hplain _ hmem).2 rfl,
          List.count_eq_zero.2 fun hmem => (hplain _ hmem).1 rfl, Nat.zero_add, Nat.zero_add]

/-- From an opening brace on the search finds a group that closes. -/
theorem closedGroup_of_throughClose (hopen : (visible cells).head? = some '{')
    (h : throughClose 0 cells = some group) :
    IsClosedGroup (shownText group) ∧ ∃ more, cells = group ++ more := by
  cases cells with
  | nil => exact absurd hopen.symm (Option.some_ne_none _)
  | cons cell cells =>
    have hcell : cell.shown = '{' := Option.some_inj.1 hopen
    rw [throughClose_cons_open hcell] at h
    obtain ⟨taken, htaken, rfl⟩ := Option.map_eq_some_iff.1 h
    obtain ⟨inner, closing, more, rfl, rfl, hclosing, hstays, hcount⟩ :=
      inner_of_throughClose htaken
    refine ⟨?_, more, rfl⟩
    rw [shownText_cons_of_shown hcell (by decide), shownText_append,
      shownText_cons_of_shown hclosing (by decide)]
    exact isClosedGroup_of_inner hstays (hcount.trans (Nat.zero_add _))

/-- Where the search finds nothing, every part of the text has more opening braces. -/
theorem lt_count_of_throughClose (hopen : (visible cells).head? = some '{')
    (h : throughClose 0 cells = none) {front : List Char} (hfront : front <+: shownText cells)
    (hne : front ≠ []) : front.count '}' < front.count '{' := by
  cases cells with
  | nil => exact absurd hopen.symm (Option.some_ne_none _)
  | cons cell cells =>
    have hcell : cell.shown = '{' := Option.some_inj.1 hopen
    rw [throughClose_cons_open hcell, Option.map_eq_none_iff, throughClose_eq_none_iff] at h
    rw [shownText_cons_of_shown hcell (by decide)] at hfront
    rcases List.prefix_cons_iff.1 hfront with rfl | ⟨tail, rfl, htail⟩
    · exact absurd rfl hne
    · have hlt := h tail htail
      rw [List.count_cons_self, List.count_cons_of_ne (by decide)]
      omega

/-! ## The group of a clause -/

/-- Inside a group of a clause the search for a body goes on behind the brace that closes it. -/
theorem splitHeader_inside {seen : List Cell}
    (h : throughClose (depth + 1) (group ++ rest) = some group) :
    splitHeader seen (depth + 1) (group ++ rest) =
      (splitHeader (group.reverse ++ seen) 0 rest).map (prepend group) := by
  induction group generalizing depth seen with
  | nil =>
    obtain ⟨inner, closing, -, hnil, -⟩ := inner_of_throughClose h
    exact absurd hnil.symm (List.append_ne_nil_of_right_ne_nil _ (List.cons_ne_nil _ _))
  | cons cell group ih =>
    rw [List.cons_append] at h ⊢
    rw [List.reverse_cons, List.append_assoc, List.singleton_append, ← map_prepend_cons]
    rcases shown_cases depth cell with hopen | ⟨hclose, rfl⟩ | ⟨hclose, outer, rfl⟩ |
      ⟨hopen, hclose⟩
    · rw [throughClose_cons_open hopen, Option.map_eq_some_iff] at h
      obtain ⟨taken, htaken, heq⟩ := h
      obtain rfl := (List.cons.inj heq).2
      rw [splitHeader_cons_inside_open hopen, ih htaken]
    · rw [throughClose_cons_last hclose, Option.some_inj] at h
      obtain rfl := (List.cons.inj h).2
      rw [splitHeader_cons_inside_close hclose, map_prepend_cons]
      rfl
    · rw [throughClose_cons_close hclose (Nat.succ_pos outer), Option.map_eq_some_iff] at h
      obtain ⟨taken, htaken, heq⟩ := h
      obtain rfl := (List.cons.inj heq).2
      rw [splitHeader_cons_inside_close hclose, ih htaken]
    · rw [throughClose_cons_of_ne hopen hclose, Option.map_eq_some_iff] at h
      obtain ⟨taken, htaken, heq⟩ := h
      obtain rfl := (List.cons.inj heq).2
      rw [splitHeader_cons_inside_of_ne hopen hclose, ih htaken]

/-- The group of a clause belongs to the header. -/
theorem splitHeader_group {seen : List Cell} (hopen : (visible group).head? = some '{')
    (hends : endsFiltered seen = true) (hclose : throughClose 0 (group ++ rest) = some group) :
    splitHeader seen 0 (group ++ rest) =
      (splitHeader (group.reverse ++ seen) 0 rest).map (prepend group) := by
  cases group with
  | nil => exact absurd hopen.symm (Option.some_ne_none _)
  | cons cell group =>
    have hcell : cell.shown = '{' := Option.some_inj.1 hopen
    rw [List.cons_append, throughClose_cons_open hcell, Option.map_eq_some_iff] at hclose
    obtain ⟨taken, htaken, heq⟩ := hclose
    obtain rfl := (List.cons.inj heq).2
    have hcond : (endsFiltered seen && (throughClose 1 (taken ++ rest)).isSome) = true := by
      rw [hends, htaken]
      rfl
    rw [List.cons_append, splitHeader, hcell, if_neg (by decide), if_pos (by decide), if_pos hcond]
    show (splitHeader (cell :: seen) 1 (taken ++ rest)).map (prepend [cell]) = _
    rw [splitHeader_inside htaken, map_prepend_cons, List.reverse_cons, List.append_assoc]
    rfl

end Search

end PropertyIndex.Source
