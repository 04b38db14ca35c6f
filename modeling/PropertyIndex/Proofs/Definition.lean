import PropertyIndex.Proofs.BlockEnd
import PropertyIndex.Proofs.KeywordSearch
import PropertyIndex.Spec.Property

/-!
# Well-formed definitions

A definition is written from pieces: a keyword, a name, a header, and brace groups or a semicolon.
The pieces carry the conditions under which they can be read again, all of them on the masked copy,
so comments and string literals may hold anything.

* `FreeOfKeywords`: no keyword is a whole word of a text.
* `Layout`, `Name`, `Piece`, `Head`, `Group`: the pieces.
* `Head.withExpression`: a header with an expression behind it.
* `Definition`, `Definition.text`: a rule or an invariant, and the text that it is written as.
-/

namespace PropertyIndex.Spec

open Text Source

/-! ## Texts without keywords -/

/-- No keyword of a property is a whole word of a text. -/
def FreeOfKeywords (text : List Char) : Prop :=
  ∀ kind : Kind, ¬HasWord isWordChar kind.keyword.toList text

instance (text : List Char) : Decidable (FreeOfKeywords text) :=
  decidable_of_iff (¬HasWord isWordChar Kind.rule.keyword.toList text ∧
    ¬HasWord isWordChar Kind.invariant.keyword.toList text) <| by
    constructor
    · rintro ⟨hrule, hinvariant⟩ (_ | _)
      · exact hrule
      · exact hinvariant
    · intro h
      exact ⟨h .rule, h .invariant⟩

theorem Kind.isKeyword (kind : Kind) : IsKeyword kind.keyword.toList := by
  cases kind with
  | rule => exact ⟨by decide, List.all_eq_true.1 (by decide)⟩
  | invariant => exact ⟨by decide, List.all_eq_true.1 (by decide)⟩

theorem freeOfKeywords_append {front back : List Char} (hfront : FreeOfKeywords front)
    (hback : FreeOfKeywords back)
    (hseam : front.getLast?.any isIdentChar = false ∨ back.head?.any isIdentChar = false) :
    FreeOfKeywords (front ++ back) :=
  fun kind => not_hasWord_append kind.isKeyword.ident (hfront kind) (hback kind) hseam

/-- A keyword needs identifier characters. -/
theorem freeOfKeywords_of_not_ident {text : List Char} (h : ∀ c ∈ text, isIdentChar c = false) :
    FreeOfKeywords text := by
  rintro kind ⟨before, after, rfl, -, -⟩
  obtain ⟨c, word, hword⟩ := List.exists_cons_of_ne_nil kind.isKeyword.ne_nil
  have hc : c ∈ kind.keyword.toList := by
    rw [hword]
    exact List.mem_cons_self
  have hfalse := h c (List.mem_append_left _ (List.mem_append_right _ hc))
  rw [kind.isKeyword.ident c hc] at hfalse
  exact Bool.noConfusion hfalse

theorem freeOfKeywords_singleton {c : Char} (h : isIdentChar c = false) : FreeOfKeywords [c] :=
  freeOfKeywords_of_not_ident (List.forall_mem_singleton.2 h)

/-! ## Pieces -/

/-- A stretch of blanks and comments. -/
structure Layout where
  text : List Char
  closed : IsClosed text
  blank : (masked text).all isAsciiBlank = true

/-- The name of a property. -/
structure Name where
  text : List Char
  ne_nil : text ≠ []
  ident : text.all isIdentChar = true
  ne_keyword : ∀ kind : Kind, text ≠ kind.keyword.toList

/-- A stretch of text with nested groups and without keywords. -/
structure Piece where
  text : List Char
  closed : IsClosed text
  nested : nestedWithin [] (masked text) = true
  free : FreeOfKeywords (masked text)

/-- What follows a name up to the groups or the semicolon: the header, and of an invariant also the
expression. -/
structure Head extends Piece where
  plain : '{' ∉ masked text ∧ '}' ∉ masked text ∧ ';' ∉ masked text

theorem Layout.isAsciiBlank_of_mem (layout : Layout) :
    ∀ c ∈ masked layout.text, isAsciiBlank c = true :=
  List.all_eq_true.1 layout.blank

/-- A header with an expression behind it, if something sets the two apart. -/
def Head.withExpression (header : Head) (gap : Layout) (expression : Head)
    (hgap : masked gap.text ≠ []) : Head where
  text := header.text ++ (gap.text ++ expression.text)
  closed := header.closed.append (gap.closed.append expression.closed)
  nested := by
    have hsign : ∀ c ∈ masked gap.text, ¬IsSign c := fun c hc =>
      (plain_of_isAsciiBlank (gap.isAsciiBlank_of_mem c hc)).1
    rw [header.closed.masked_append, gap.closed.masked_append]
    refine nestedWithin_append header.nested ?_
    rw [nestedWithin_append_of_not_isSign hsign]
    exact expression.nested
  free := by
    have hblank : ∀ c ∈ masked gap.text, isIdentChar c = false := fun c hc =>
      isIdentChar_of_isAsciiBlank (gap.isAsciiBlank_of_mem c hc)
    rw [header.closed.masked_append, gap.closed.masked_append]
    refine freeOfKeywords_append header.free (freeOfKeywords_append
      (freeOfKeywords_of_not_ident hblank) expression.free
      (Or.inl (getLast?_any_of_not_ident hblank))) (Or.inr ?_)
    rw [List.head?_append_of_ne_nil _ hgap]
    exact head?_any_of_not_ident hblank
  plain := by
    have hnotMem : ∀ c, isAsciiBlank c = false → c ∉ masked header.text →
        c ∉ masked expression.text → c ∉ masked (header.text ++ (gap.text ++ expression.text)) := by
      intro c hblank hheader hexpression hmem
      rw [header.closed.masked_append, gap.closed.masked_append, List.mem_append,
        List.mem_append] at hmem
      rcases hmem with hmem | hmem | hmem
      · exact hheader hmem
      · rw [gap.isAsciiBlank_of_mem c hmem] at hblank
        exact Bool.noConfusion hblank
      · exact hexpression hmem
    exact ⟨hnotMem '{' rfl header.plain.1 expression.plain.1,
      hnotMem '}' rfl header.plain.2.1 expression.plain.2.1,
      hnotMem ';' rfl header.plain.2.2 expression.plain.2.2⟩

/-- A brace group with the layout in front of it.  If the word `filtered` introduces it, the layout
behind that word is given as well. -/
structure Group where
  lead : Layout
  introduced : Option Layout
  inner : Piece

namespace Group

/-- What stands in front of the opening brace. -/
def front (group : Group) : List Char :=
  group.lead.text ++
    match group.introduced with
    | none => []
    | some gap => "filtered".toList ++ gap.text

/-- The group from its opening to its closing brace. -/
def body (group : Group) : List Char :=
  '{' :: (group.inner.text ++ ['}'])

/-- The text of a group. -/
def text (group : Group) : List Char :=
  group.front ++ group.body

end Group

/-- What follows the name of a property: its head, and then its groups or else a semicolon. -/
def tailText (head : Head) (groups : List Group) : List Char :=
  head.text ++ if groups = [] then [';'] else groups.flatMap Group.text

/-- A well-formed rule or invariant. -/
structure Definition where
  kind : Kind
  gap : Layout
  name : Name
  head : Head
  groups : List Group
  gap_ne_nil : gap.text ≠ []
  /-- The name does not run into what follows it. -/
  name_ends : (masked (tailText head groups)).head?.any isIdentChar = false
  /-- The head does not run into the word `filtered`. -/
  head_ends : ∀ group ∈ groups.head?, group.introduced.isSome →
    (masked (head.text ++ group.lead.text)).getLast?.any isIdentChar = false
  /-- A rule has a body, in front of which it may have one group that the word `filtered`
  introduces. -/
  rule_groups : kind = .rule → groups.map (·.introduced.isSome) = [false] ∨
    groups.map (·.introduced.isSome) = [true, false]
  /-- The header of a rule does not end in the word itself. -/
  rule_head : kind = .rule → ¬EndsInWord "filtered".toList (masked head.text)

namespace Definition

/-- What follows the name of a definition. -/
def tail (definition : Definition) : List Char :=
  tailText definition.head definition.groups

/-- The keyword of a definition with its name. -/
def opening (definition : Definition) : List Char :=
  definition.kind.keyword.toList ++ (definition.gap.text ++ definition.name.text)

/-- The text that a definition is written as. -/
def text (definition : Definition) : List Char :=
  definition.opening ++ definition.tail

end Definition

end PropertyIndex.Spec
