import PropertyIndex.Proofs.Definition

/-!
# Reading a definition

What the two searches find in the text of a well-formed definition, whatever follows it.

* `Layout.visible_blank`, `Piece.visible_nested`, `Piece.visible_free`, `Head.visible_plain`: the
  conditions on the pieces, for what their cells show.
* `Group.isGroup_body`, `Group.continuesWithGroup_text`, `Group.free_append`: a group.
* `Definition.block?_tail`: the extent of a definition is found exactly.
* `Definition.occurrencesFrom_text`, `Definition.occurrencesFrom_text_of_ne`: its own keyword is
  found in it once, and the other one not at all.
-/

namespace PropertyIndex.Spec

open Text Source

/-! ## Reading the pieces -/

theorem isPlain_of_isIdentChar {c : Char} (h : isIdentChar c = true) : IsPlain c := by
  refine ⟨?_, ?_, ?_⟩ <;> rintro rfl <;> exact Bool.noConfusion h

theorem Kind.isPlain (kind : Kind) : ∀ c ∈ kind.keyword.toList, IsPlain c :=
  fun c hc => isPlain_of_isIdentChar (kind.isKeyword.ident c hc)

theorem filtered_isPlain : ∀ c ∈ "filtered".toList, IsPlain c :=
  fun c hc => isPlain_of_isIdentChar (filtered_ident c hc)

namespace Layout

variable (layout : Layout)

theorem visible_blank : ∀ c ∈ visible (mask layout.text), isAsciiBlank c = true :=
  fun c hc => layout.isAsciiBlank_of_mem c (mem_shownText.2 hc)

theorem not_ident : ∀ c ∈ visible (mask layout.text), isIdentChar c = false :=
  fun c hc => isIdentChar_of_isAsciiBlank (layout.visible_blank c hc)

end Layout

namespace Name

variable (name : Name)

theorem isIdentChar_of_mem : ∀ c ∈ name.text, isIdentChar c = true :=
  List.all_eq_true.1 name.ident

theorem isPlain : ∀ c ∈ name.text, IsPlain c :=
  fun c hc => isPlain_of_isIdentChar (name.isIdentChar_of_mem c hc)

theorem free : FreeOfKeywords name.text :=
  fun kind hword => name.ne_keyword kind (eq_of_hasWord_ident name.isIdentChar_of_mem hword)

end Name

namespace Piece

variable (piece : Piece)

theorem visible_nested : nestedWithin [] (visible (mask piece.text)) = true := by
  rw [← nestedWithin_shownText]
  exact piece.nested

theorem visible_free : FreeOfKeywords (visible (mask piece.text)) :=
  fun kind hword => piece.free kind (hasWord_shownText kind.isKeyword.ident hword)

end Piece

theorem Head.visible_plain (head : Head) :
    ∀ c ∈ visible (mask head.text), c ≠ '{' ∧ c ≠ '}' ∧ c ≠ ';' := by
  obtain ⟨hopen, hclose, hsemicolon⟩ := head.plain
  rw [masked, mem_shownText] at hopen hclose hsemicolon
  intro c hc
  exact ⟨fun h => hopen (h ▸ hc), fun h => hclose (h ▸ hc), fun h => hsemicolon (h ▸ hc)⟩

namespace Group

variable (group : Group)

theorem closed_front : IsClosed group.front := by
  rw [front]
  rcases group.introduced with _ | gap
  · rw [List.append_nil]
    exact group.lead.closed
  · exact group.lead.closed.append ((isClosed_of_isPlain filtered_isPlain).append gap.closed)

theorem closed_body : IsClosed group.body := by
  have hopen : IsClosed ['{'] := isClosed_singleton (by decide)
  have hclose : IsClosed ['}'] := isClosed_singleton (by decide)
  exact hopen.append (group.inner.closed.append hclose)

theorem closed_text : IsClosed group.text :=
  group.closed_front.append group.closed_body

theorem mask_body : mask group.body =
    ⟨'{', .code⟩ :: (mask group.inner.text ++ [⟨'}', .code⟩]) := by
  rw [body, mask, (maskFrom_code_cons (by decide) _).1, ← mask, group.inner.closed.mask_append]
  rfl

/-- The cells of a body are a brace group. -/
theorem isGroup_body : IsGroup (mask group.body) :=
  ⟨⟨'{', .code⟩, mask group.inner.text, ⟨'}', .code⟩, group.mask_body, rfl, rfl,
    group.inner.visible_nested⟩

theorem mask_front_of_none (h : group.introduced = none) :
    mask group.front = mask group.lead.text := by
  rw [front, h]
  exact congrArg mask (List.append_nil _)

theorem mask_front_of_some {gap : Layout} (h : group.introduced = some gap) :
    mask group.front =
      mask group.lead.text ++ (mask "filtered".toList ++ mask gap.text) := by
  rw [front, h]
  exact (group.lead.closed.mask_append _).trans
    (congrArg _ ((isClosed_of_isPlain filtered_isPlain).mask_append _))

/-- What stands in front of a body has neither signs nor a semicolon. -/
theorem front_plain : ∀ c ∈ visible (mask group.front), ¬IsSign c ∧ c ≠ ';' := by
  intro c hc
  rcases hintroduced : group.introduced with _ | gap
  · rw [group.mask_front_of_none hintroduced] at hc
    exact plain_of_isAsciiBlank (group.lead.visible_blank c hc)
  · rw [group.mask_front_of_some hintroduced, visible_append, visible_append,
      visible_mask_of_isPlain filtered_isPlain] at hc
    rcases List.mem_append.1 hc with hlead | hc
    · exact plain_of_isAsciiBlank (group.lead.visible_blank c hlead)
    · rcases List.mem_append.1 hc with hword | hgap
      · exact plain_of_isIdentChar (filtered_ident c hword)
      · exact plain_of_isAsciiBlank (gap.visible_blank c hgap)

theorem front_nested : nestedWithin [] (visible (mask group.front)) = true := by
  have hpass := nestedWithin_append_of_not_isSign (fun c hc => (group.front_plain c hc).1) [] []
  rw [List.append_nil] at hpass
  exact hpass

/-- At a group a statement goes on. -/
theorem continuesWithGroup_text (rest : List Cell) :
    continuesWithGroup (mask group.text ++ rest) = true := by
  rw [text, group.closed_front.mask_append, List.append_assoc]
  rcases hintroduced : group.introduced with _ | gap
  · rw [group.mask_front_of_none hintroduced,
      continuesWithGroup_append_blank group.lead.visible_blank,
      continuesWithGroup_group group.isGroup_body]
  · rw [group.mask_front_of_some hintroduced, List.append_assoc, List.append_assoc,
      continuesWithGroup_append_blank group.lead.visible_blank]
    refine continuesWithGroup_word (visible_mask_of_isPlain filtered_isPlain) ?_
    rw [visible_append, group.mask_body]
    exact head?_any_append (head?_any_of_not_ident gap.not_ident) rfl

theorem visible_body :
    visible (mask group.body) = '{' :: (visible (mask group.inner.text) ++ ['}']) := by
  rw [group.mask_body]
  show '{' :: visible (mask group.inner.text ++ [⟨'}', .code⟩]) = _
  rw [visible_append]
  rfl

theorem visible_text :
    visible (mask group.text) = visible (mask group.front) ++ visible (mask group.body) := by
  rw [text, group.closed_front.mask_append, visible_append]

theorem getLast?_text (before : List Char) :
    (before ++ visible (mask group.text)).getLast?.any isIdentChar = false := by
  rw [group.visible_text, group.visible_body, ← List.append_assoc, ← List.cons_append,
    ← List.append_assoc, List.getLast?_concat]
  rfl

theorem free_body : FreeOfKeywords (visible (mask group.body)) := by
  have hopen : FreeOfKeywords ['{'] := freeOfKeywords_singleton rfl
  have hclose : FreeOfKeywords ['}'] := freeOfKeywords_singleton rfl
  rw [group.visible_body]
  exact freeOfKeywords_append hopen
    (freeOfKeywords_append group.inner.visible_free hclose (Or.inr rfl)) (Or.inl rfl)

/-- No keyword arises where a group is written behind a text. -/
theorem free_append {before : List Char} (hbefore : FreeOfKeywords before)
    (hends : group.introduced.isSome →
      (before ++ visible (mask group.lead.text)).getLast?.any isIdentChar = false) :
    FreeOfKeywords (before ++ visible (mask group.text)) := by
  have hlead : FreeOfKeywords (before ++ visible (mask group.lead.text)) :=
    freeOfKeywords_append hbefore (freeOfKeywords_of_not_ident group.lead.not_ident)
      (Or.inr (head?_any_of_not_ident group.lead.not_ident))
  have hfront : FreeOfKeywords (before ++ visible (mask group.front)) := by
    rcases hintroduced : group.introduced with _ | gap
    · rw [group.mask_front_of_none hintroduced]
      exact hlead
    · rw [hintroduced] at hends
      have hfiltered : FreeOfKeywords "filtered".toList := by
        rintro (_ | _) <;> decide
      rw [group.mask_front_of_some hintroduced, visible_append, visible_append,
        visible_mask_of_isPlain filtered_isPlain, ← List.append_assoc, ← List.append_assoc]
      exact freeOfKeywords_append (freeOfKeywords_append hlead hfiltered (Or.inl (hends rfl)))
        (freeOfKeywords_of_not_ident gap.not_ident)
        (Or.inr (head?_any_of_not_ident gap.not_ident))
  rw [group.visible_text, ← List.append_assoc]
  refine freeOfKeywords_append hfront group.free_body (Or.inr ?_)
  rw [group.visible_body]
  rfl

end Group

/-- No keyword arises where groups are written behind a text. -/
theorem free_groups {groups : List Group} {before : List Char} (hbefore : FreeOfKeywords before)
    (hends : ∀ group ∈ groups.head?, group.introduced.isSome →
      (before ++ visible (mask group.lead.text)).getLast?.any isIdentChar = false) :
    FreeOfKeywords (before ++ visible (mask (groups.flatMap Group.text))) := by
  induction groups generalizing before with
  | nil =>
    rw [show visible (mask ([].flatMap Group.text)) = [] from rfl, List.append_nil]
    exact hbefore
  | cons group groups ih =>
    rw [List.flatMap_cons, group.closed_text.mask_append, visible_append, ← List.append_assoc]
    refine ih (group.free_append hbefore (hends group rfl)) fun next _ _ => ?_
    exact getLast?_any_append (group.getLast?_text before)
      (getLast?_any_of_not_ident next.lead.not_ident)

theorem closed_groups (groups : List Group) : IsClosed (groups.flatMap Group.text) := by
  induction groups with
  | nil => exact isClosed_nil
  | cons group groups ih => exact group.closed_text.append ih

/-- A statement ends with its last group. -/
theorem statementFrom_groups {groups : List Group} (hne : groups ≠ []) {rest : List Cell}
    (hrest : continuesWithGroup rest = false) :
    statementFrom 0 (mask (groups.flatMap Group.text) ++ rest) =
      (mask (groups.flatMap Group.text), true) := by
  induction groups with
  | nil => exact absurd rfl hne
  | cons group groups ih =>
    have hfront : ∀ c ∈ visible (mask group.front), c ≠ ';' ∧ c ≠ '}' := fun c hc =>
      ⟨(group.front_plain c hc).2,
        fun hbrace => (group.front_plain c hc).1 (Or.inr (Or.inr (Or.inr hbrace)))⟩
    have hpass := fun more => @statementFrom_append (mask group.front) more [] 0 group.front_nested
      (Or.inr hfront)
    rw [List.flatMap_cons, group.closed_text.mask_append, Group.text,
      group.closed_front.mask_append, List.append_assoc, List.append_assoc]
    refine (hpass _).trans ?_
    rw [statementFrom_group group.isGroup_body]
    cases groups with
    | nil =>
      rw [show mask ([].flatMap Group.text) ++ rest = rest from rfl, if_pos hrest]
      exact congrArg (·, true) (List.append_nil _).symm
    | cons next groups =>
      have hnext :
          ¬continuesWithGroup (mask ((next :: groups).flatMap Group.text) ++ rest) = false := by
        rw [List.flatMap_cons, next.closed_text.mask_append, List.append_assoc,
          next.continuesWithGroup_text]
        exact Bool.noConfusion
      rw [if_neg hnext, ih (List.cons_ne_nil _ _), prepend_append]
      rfl

namespace Definition

variable (definition : Definition)

theorem mask_tail : mask definition.tail = mask definition.head.text ++
    mask (if definition.groups = [] then [';'] else definition.groups.flatMap Group.text) := by
  rw [tail, tailText, definition.head.closed.mask_append]

theorem visible_head_ends {group : Group} (h : group ∈ definition.groups.head?)
    (hintroduced : group.introduced.isSome) :
    (visible (mask definition.head.text) ++
      visible (mask group.lead.text)).getLast?.any isIdentChar = false := by
  rw [← visible_append, ← definition.head.closed.mask_append, ← getLast?_shownText]
  exact definition.head_ends group h hintroduced

/-- No keyword is behind the name of a definition. -/
theorem free_tail : FreeOfKeywords (visible (mask definition.tail)) := by
  rw [mask_tail, visible_append]
  by_cases hgroups : definition.groups = []
  · rw [if_pos hgroups]
    exact freeOfKeywords_append definition.head.visible_free
      (freeOfKeywords_singleton rfl) (Or.inr rfl)
  · rw [if_neg hgroups]
    exact free_groups definition.head.visible_free fun group h => definition.visible_head_ends h

/-- Read as a statement, a definition ends with its last group or its semicolon. -/
theorem statementFrom_tail {rest : List Cell} (hrest : continuesWithGroup rest = false) :
    statementFrom 0 (mask definition.tail ++ rest) = (mask definition.tail, true) := by
  have hplain : ∀ c ∈ visible (mask definition.head.text), c ≠ ';' ∧ c ≠ '}' := fun c hc =>
    ⟨(definition.head.visible_plain c hc).2.2, (definition.head.visible_plain c hc).2.1⟩
  rw [mask_tail, List.append_assoc]
  refine (@statementFrom_append _ _ [] 0 definition.head.visible_nested (Or.inr hplain)).trans ?_
  by_cases hgroups : definition.groups = []
  · rw [if_pos hgroups]
    exact congrArg (prepend _) (statementFrom_cons_semicolon rfl)
  · rw [if_neg hgroups, statementFrom_groups hgroups hrest]
    rfl

/-- No body begins in front of the first group. -/
theorem header_plain (group : Group) :
    ∀ c ∈ visible (mask definition.head.text ++ mask group.front), c ≠ ';' ∧ c ≠ '{' := by
  intro c hc
  rw [visible_append] at hc
  rcases List.mem_append.1 hc with hhead | hfront
  · exact ⟨(definition.head.visible_plain c hhead).2.2, (definition.head.visible_plain c hhead).1⟩
  · exact ⟨(group.front_plain c hfront).2,
      fun hbrace => (group.front_plain c hfront).1 (Or.inr (Or.inr (Or.inl hbrace)))⟩

/-- The header of a rule ends in the word `filtered` exactly when its first group is a clause. -/
theorem endsFiltered_header (hrule : definition.kind = .rule) {group : Group}
    (h : group ∈ definition.groups.head?) :
    endsFiltered (mask definition.head.text ++ mask group.front).reverse =
      group.introduced.isSome := by
  rw [List.reverse_append]
  rcases hintroduced : group.introduced with _ | gap
  · rw [group.mask_front_of_none hintroduced, endsFiltered_append_blank group.lead.visible_blank,
      Option.isSome_none, Bool.eq_false_iff]
    intro htrue
    refine definition.rule_head hrule ?_
    exact endsInWord_shownText filtered_ident (endsFiltered_iff.1 htrue)
  · rw [group.mask_front_of_some hintroduced, List.reverse_append, List.reverse_append,
      List.append_assoc, List.append_assoc, endsFiltered_append_blank gap.visible_blank,
      Option.isSome_some]
    refine endsFiltered_word (visible_mask_of_isPlain filtered_isPlain) ?_
    rw [← List.reverse_append, visible_reverse, List.head?_reverse, visible_append]
    refine definition.visible_head_ends h ?_
    rw [hintroduced]
    rfl

/-- Read as a block with a body, a rule ends with its last group. -/
theorem bodyBlock?_tail (hrule : definition.kind = .rule) (rest : List Cell) :
    bodyBlock? (mask definition.tail ++ rest) = some (mask definition.tail, true) := by
  have htail : ∀ first groups, definition.groups = first :: groups → mask definition.tail =
      mask definition.head.text ++ mask first.front ++
        (mask first.body ++ mask (groups.flatMap Group.text)) := by
    intro first groups hgroups
    rw [mask_tail, hgroups, if_neg (List.cons_ne_nil _ _), List.flatMap_cons,
      first.closed_text.mask_append, Group.text, first.closed_front.mask_append,
      List.append_assoc, List.append_assoc]
  rcases definition.rule_groups hrule with hgroups | hgroups
  · obtain ⟨body, hgroups, hbody⟩ := List.map_eq_singleton_iff.1 hgroups
    have hends := @endsFiltered_header definition hrule body (by rw [hgroups]; rfl)
    rw [hbody] at hends
    rw [htail body [] hgroups, show mask ([].flatMap Group.text) = [] from rfl, List.append_nil]
    exact bodyBlock?_body (definition.header_plain body) hends body.isGroup_body
  · obtain ⟨clause, groups, hgroups, hclause, hmap⟩ := List.map_eq_cons_iff.1 hgroups
    obtain ⟨body, rfl, hbody⟩ := List.map_eq_singleton_iff.1 hmap
    have hends := @endsFiltered_header definition hrule clause (by rw [hgroups]; rfl)
    rw [hclause] at hends
    have hlead : mask body.front = mask body.lead.text :=
      body.mask_front_of_none (Option.not_isSome_iff_eq_none.1 (Bool.eq_false_iff.1 hbody))
    rw [htail clause [body] hgroups, List.flatMap_singleton, Group.text,
      body.closed_front.mask_append, hlead]
    exact bodyBlock?_clause (definition.header_plain clause) hends clause.isGroup_body
      body.lead.visible_blank body.isGroup_body

/-- The extent of a definition ends with its text. -/
theorem block?_tail {rest : List Cell} (hrest : continuesWithGroup rest = false) :
    definition.kind.extent.block? (mask definition.tail ++ rest) =
      some (mask definition.tail, true) := by
  rcases hkind : definition.kind with _ | _
  · exact definition.bodyBlock?_tail hkind rest
  · exact congrArg some (definition.statementFrom_tail hrest)

theorem closed_tail : IsClosed definition.tail := by
  rw [tail, tailText]
  refine definition.head.closed.append ?_
  by_cases hgroups : definition.groups = []
  · rw [if_pos hgroups]
    exact isClosed_singleton (by decide)
  · rw [if_neg hgroups]
    exact closed_groups definition.groups

/-- A definition ends in a closing brace or a semicolon. -/
theorem exists_tail_eq : ∃ init c, definition.tail = init ++ [c] ∧ (c = '}' ∨ c = ';') := by
  rw [tail, tailText]
  by_cases hgroups : definition.groups = []
  · rw [if_pos hgroups]
    exact ⟨definition.head.text, ';', rfl, Or.inr rfl⟩
  · rw [if_neg hgroups]
    rcases definition.groups.eq_nil_or_concat with hnil | ⟨groups, group, hconcat⟩
    · exact absurd hnil hgroups
    · refine ⟨definition.head.text ++ (groups.flatMap Group.text ++
        (group.front ++ '{' :: group.inner.text)), '}', ?_, Or.inl rfl⟩
      rw [hconcat, List.concat_eq_append, List.flatMap_append, List.flatMap_singleton, Group.text,
        Group.body, List.append_assoc, List.append_assoc, List.append_assoc, List.cons_append]

theorem closed_opening : IsClosed definition.opening :=
  (isClosed_of_isPlain definition.kind.isPlain).append
    (definition.gap.closed.append (isClosed_of_isPlain definition.name.isPlain))

theorem closed_text : IsClosed definition.text :=
  definition.closed_opening.append definition.closed_tail

theorem mask_opening : mask definition.opening = mask definition.kind.keyword.toList ++
    (mask definition.gap.text ++ mask definition.name.text) := by
  rw [opening, (isClosed_of_isPlain definition.kind.isPlain).mask_append,
    definition.gap.closed.mask_append]

theorem mask_text : mask definition.text = mask definition.opening ++ mask definition.tail :=
  definition.closed_opening.mask_append definition.tail

theorem visible_tail_head :
    (visible (mask definition.tail)).head?.any isIdentChar = false := by
  rw [← head?_shownText]
  exact definition.name_ends

theorem visible_keyword :
    visible (mask definition.kind.keyword.toList) = definition.kind.keyword.toList :=
  visible_mask_of_isPlain definition.kind.isPlain

theorem visible_name : visible (mask definition.name.text) = definition.name.text :=
  visible_mask_of_isPlain definition.name.isPlain

theorem visible_gap_head :
    (visible (mask definition.gap.text)).head?.any isIdentChar = false :=
  head?_any_of_not_ident definition.gap.not_ident

theorem mask_gap_ne_nil : mask definition.gap.text ≠ [] := by
  intro hnil
  refine definition.gap_ne_nil ?_
  rw [← source_mask definition.gap.text, hnil]
  rfl

theorem visible_gap_getLast :
    (visible (mask definition.gap.text)).getLast?.any isIdentChar = false :=
  getLast?_any_of_not_ident definition.gap.not_ident

section Search

variable {before rest : List Cell}

/-- The keyword of a definition is found at its front, and nowhere else in it. -/
theorem occurrencesFrom_text (hbefore : (visible before).head?.any isWordChar = false)
    (hrest : (visible rest).head?.any isIdentChar = false) :
    occurrencesFrom definition.kind.keyword.toList before 0 false (mask definition.text ++ rest) =
      ⟨before, mask definition.opening, String.ofList definition.name.text,
        mask definition.tail ++ rest⟩ ::
        occurrencesFrom definition.kind.keyword.toList ((mask definition.text).reverse ++ before) 0
          false rest := by
  have hkeyword := definition.kind.isKeyword
  have hname : ∀ c ∈ visible (mask definition.name.text), isIdentChar c = true := by
    rw [definition.visible_name]
    exact definition.name.isIdentChar_of_mem
  have hnamene : mask definition.name.text ≠ [] := by
    intro hnil
    refine definition.name.ne_nil ?_
    rw [← definition.visible_name, hnil]
    rfl
  have hbehind : (visible (mask definition.tail ++ rest)).head?.any isIdentChar = false := by
    rw [visible_append]
    exact head?_any_append definition.visible_tail_head hrest
  have hplace : occurrenceAt definition.kind.keyword.toList before
      (mask definition.opening ++ (mask definition.tail ++ rest)) =
      some ⟨before, mask definition.opening, String.ofList definition.name.text,
        mask definition.tail ++ rest⟩ := by
    rw [mask_opening, List.append_assoc, List.append_assoc, occurrenceAt_eq_some hkeyword
      definition.visible_keyword hbefore definition.gap.visible_blank definition.mask_gap_ne_nil
      hname hnamene hbehind, source_mask, List.append_assoc]
  rw [mask_text, List.append_assoc, occurrencesFrom_of_place hkeyword hplace,
    occurrencesFrom_of_not_hasWord hkeyword (definition.free_tail _) (Or.inr hrest),
    List.reverse_append, List.append_assoc]

/-- The other keyword is not found in a definition. -/
theorem occurrencesFrom_text_of_ne {kind : Kind} (hkind : definition.kind ≠ kind)
    (hrest : (visible rest).head?.any isIdentChar = false) :
    occurrencesFrom kind.keyword.toList before 0 false (mask definition.text ++ rest) =
      occurrencesFrom kind.keyword.toList ((mask definition.text).reverse ++ before) 0 false
        rest := by
  have hother : ¬HasWord isWordChar kind.keyword.toList definition.kind.keyword.toList := by
    rcases hown : definition.kind with _ | _ <;> rcases kind with _ | _
    · exact absurd hown hkind
    · decide
    · decide
    · exact absurd hown hkind
  have hident := kind.isKeyword.ident
  refine occurrencesFrom_of_not_hasWord kind.isKeyword ?_ (Or.inr hrest)
  rw [definition.mask_text, definition.mask_opening, visible_append, visible_append,
    visible_append, definition.visible_keyword, definition.visible_name]
  refine not_hasWord_append hident (not_hasWord_append hident hother ?_ ?_)
    (definition.free_tail kind) (Or.inr definition.visible_tail_head)
  · exact not_hasWord_append hident
      (freeOfKeywords_of_not_ident definition.gap.not_ident kind) (definition.name.free kind)
      (Or.inl definition.visible_gap_getLast)
  · right
    have hne : visible (mask definition.gap.text) ≠ [] := fun hnil =>
      definition.mask_gap_ne_nil (List.map_eq_nil_iff.1 hnil)
    rw [List.head?_append_of_ne_nil _ hne]
    exact definition.visible_gap_head

end Search

end Definition

end PropertyIndex.Spec
