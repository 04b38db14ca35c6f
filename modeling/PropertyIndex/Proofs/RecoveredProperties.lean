import PropertyIndex.Proofs.DefinitionReading
import PropertyIndex.Proofs.Utf8

/-!
# Properties read back from a spec

A spec that is written from well-formed definitions, one below the other, is read back: every
definition gives one property, with its own text and lines, and of several with one name only the
first counts.

* `specText`: the spec that is written from definitions.
* `Definition.property`, `propertiesFrom`: the properties that definitions stand for.
* `blocks_specText`: the search for a keyword cuts exactly the definitions of its kind.
* `merge_filter_kind`: putting both kinds in order gives the order of the file.
* `properties_specText`: the properties of such a spec.
-/

namespace PropertyIndex.Spec

open Text Source

/-- A spec that is written from definitions, one below the other. -/
def specText (definitions : List Definition) : String :=
  joinLines (definitions.map fun definition => String.ofList definition.text)

/-- The property that a definition stands for, if it begins on the given line. -/
def Definition.property (definition : Definition) (file : String) (methods : List String)
    (line : Nat) : Property :=
  { kind := definition.kind
    name := String.ofList definition.name.text
    file
    startLine := line
    endLine := line + definition.text.count '\n'
    lines := (lines definition.text).map String.ofList
    methods := methods.filter fun method =>
      HasWord isNameChar (bareName method).toList definition.text }

/-- The properties that definitions stand for, if the first one begins on the given line. -/
def propertiesFrom (file : String) (methods : List String) (line : Nat) :
    List Definition → List Property
  | [] => []
  | definition :: definitions =>
    definition.property file methods line ::
      propertiesFrom file methods (line + definition.text.count '\n' + 1) definitions

/-! ## The cells of a spec -/

/-- The cells from the end of a definition on, if the given definitions follow it. -/
def below (definitions : List Definition) : List Cell :=
  match definitions with
  | [] => []
  | _ :: _ => ⟨'\n', .code⟩ :: mask (specText definitions).toList

theorem toList_specText_cons (definition next : Definition) (definitions : List Definition) :
    (specText (definition :: next :: definitions)).toList =
      definition.text ++ '\n' :: (specText (next :: definitions)).toList := by
  rw [specText, specText, joinLines, joinWith, List.map_cons, List.map_cons,
    String.intercalate_cons_cons, String.toList_append, String.toList_append, String.toList_ofList,
    List.append_assoc]
  rfl

theorem mask_specText_cons (definition : Definition) (definitions : List Definition) :
    mask (specText (definition :: definitions)).toList =
      mask definition.text ++ below definitions := by
  cases definitions with
  | nil =>
    rw [specText, joinLines, joinWith, List.map_singleton, String.intercalate_singleton,
      String.toList_ofList, below, List.append_nil]
  | cons next definitions =>
    rw [toList_specText_cons, definition.closed_text.mask_append]
    exact congrArg _ (maskFrom_code_cons (by decide) _).1

/-- What follows a definition is a line feed, if anything. -/
theorem below_head (definitions : List Definition) :
    (visible (below definitions)).head?.any isIdentChar = false := by
  cases definitions with
  | nil => rfl
  | cons definition definitions => rfl

/-- No group follows a definition: the next one begins with its keyword. -/
theorem continuesWithGroup_below (definitions : List Definition) :
    continuesWithGroup (below definitions) = false := by
  cases definitions with
  | nil => rfl
  | cons definition definitions =>
    have hblank : ∀ c ∈ visible [⟨'\n', .code⟩], isAsciiBlank c = true :=
      List.forall_mem_singleton.2 rfl
    rw [below, ← List.singleton_append, continuesWithGroup_append_blank hblank, mask_specText_cons]
    refine continuesWithGroup_eq_false ?_
    rw [definition.mask_text, definition.mask_opening, List.append_assoc, List.append_assoc,
      visible_append, definition.visible_keyword]
    cases definition.kind with
    | rule =>
      rintro c ⟨⟩
      decide
    | invariant =>
      rintro c ⟨⟩
      decide

/-! ## The blocks of a spec -/

/-- The block of a definition that has the given text in front of it. -/
def Definition.block (definition : Definition) (front : List Char) : Block :=
  { name := String.ofList definition.name.text
    start := width front
    stop := width front + width definition.text
    startLine := lineNumber front
    endLine := lineNumber (front ++ definition.text.dropLast)
    text := String.ofList definition.text
    terminated := true }

/-- The candidates of definitions that have the given text in front of them. -/
def located (front : List Char) : List Definition → List Candidate
  | [] => []
  | definition :: definitions =>
    ⟨definition.kind, definition.block front⟩ ::
      located (front ++ (definition.text ++ ['\n'])) definitions

/-- The search goes on in the next definition. -/
theorem occurrencesFrom_below (kind : Kind) (before : List Cell) (definitions : List Definition) :
    occurrencesFrom kind.keyword.toList before 0 false (below definitions) =
      occurrencesFrom kind.keyword.toList (⟨'\n', .code⟩ :: before) 0 false
        (mask (specText definitions).toList) := by
  cases definitions with
  | nil =>
    show occurrencesFrom _ before 0 false [] = occurrencesFrom _ _ 0 false []
    rw [occurrencesFrom_nil kind.isKeyword, occurrencesFrom_nil kind.isKeyword]
  | cons definition definitions =>
    have hfree : FreeOfKeywords (visible [⟨'\n', .code⟩]) := freeOfKeywords_singleton rfl
    exact occurrencesFrom_of_not_hasWord kind.isKeyword (hfree kind) (Or.inl rfl)

/-- At the place of its keyword a definition is cut out exactly. -/
theorem block?_place (definition : Definition) (before : List Cell) {rest : List Cell}
    (hrest : continuesWithGroup rest = false) :
    Occurrence.block? ⟨before, mask definition.opening, String.ofList definition.name.text,
      mask definition.tail ++ rest⟩ definition.kind.extent =
      some (definition.block (source before.reverse)) := by
  rw [Occurrence.block?, definition.block?_tail hrest, Option.map_some]
  show some (Block.mk _ _ _ _ _ _ _) = _
  rw [← definition.mask_text, source_mask]
  rfl

/-- The search for a keyword cuts exactly the definitions of its kind. -/
theorem blocks_specText (kind : Kind) {before : List Cell}
    (hbefore : (visible before).head?.any isWordChar = false) (definitions : List Definition) :
    (occurrencesFrom kind.keyword.toList before 0 false
      (mask (specText definitions).toList)).filterMap (·.block? kind.extent) =
      ((located (source before.reverse) definitions).filter (·.kind == kind)).map (·.block) := by
  induction definitions generalizing before with
  | nil =>
    show List.filterMap _ (occurrencesFrom _ before 0 false []) = _
    rw [occurrencesFrom_nil kind.isKeyword]
    rfl
  | cons definition definitions ih =>
    have hnext := @ih (⟨'\n', .code⟩ :: ((mask definition.text).reverse ++ before)) rfl
    have hfront : source (⟨'\n', .code⟩ :: ((mask definition.text).reverse ++ before)).reverse =
        source before.reverse ++ (definition.text ++ ['\n']) := by
      rw [List.reverse_cons, List.reverse_append, List.reverse_reverse, List.append_assoc, source,
        List.map_append, List.map_append, ← source, ← source, ← source, source_mask]
      rfl
    rw [hfront] at hnext
    rw [mask_specText_cons, located]
    by_cases hkind : definition.kind = kind
    · subst hkind
      rw [definition.occurrencesFrom_text hbefore (below_head definitions), List.filterMap_cons,
        block?_place definition before (continuesWithGroup_below definitions),
        occurrencesFrom_below, hnext, List.filter_cons, if_pos (beq_self_eq_true _)]
      rfl
    · rw [definition.occurrencesFrom_text_of_ne hkind (below_head definitions),
        occurrencesFrom_below, hnext, List.filter_cons_of_neg (by rwa [beq_iff_eq])]

/-! ## Both kinds in the order of the file -/

theorem start_of_mem_located {front : List Char} {definitions : List Definition}
    {candidate : Candidate} (h : candidate ∈ located front definitions) :
    width front ≤ candidate.block.start := by
  induction definitions generalizing front with
  | nil => exact absurd h List.not_mem_nil
  | cons definition definitions ih =>
    rcases List.mem_cons.1 h with rfl | hmem
    · exact Nat.le_refl _
    · have hstart := ih hmem
      rw [width_append] at hstart
      exact Nat.le_trans (Nat.le_add_right _ _) hstart

/-- Definitions begin one behind the other. -/
theorem pairwise_located (front : List Char) (definitions : List Definition) :
    (located front definitions).Pairwise fun a b => a.block.start < b.block.start := by
  induction definitions generalizing front with
  | nil => exact List.Pairwise.nil
  | cons definition definitions ih =>
    refine List.Pairwise.cons (fun candidate hmem => ?_) (ih _)
    have hstart := start_of_mem_located hmem
    rw [width_append, width_append] at hstart
    have hnewline : width ['\n'] = 1 := by decide
    show width front < _
    omega

theorem name_of_mem_located {front : List Char} {definitions : List Definition}
    {candidate : Candidate} (h : candidate ∈ located front definitions) :
    candidate.block.name ≠ "" := by
  induction definitions generalizing front with
  | nil => exact absurd h List.not_mem_nil
  | cons definition definitions ih =>
    rcases List.mem_cons.1 h with rfl | hmem
    · intro hname
      refine definition.name.ne_nil ?_
      rw [← @String.toList_ofList definition.name.text]
      exact congrArg String.toList hname
    · exact ih hmem

section Merge

variable {α : Type} {le : α → α → Bool} {x : α} {xs ys : List α}

theorem cons_merge_of_forall (h : ∀ y ∈ ys, le x y = true) :
    (x :: xs).merge ys le = x :: xs.merge ys le := by
  cases ys with
  | nil => rw [List.merge_right, List.merge_right]
  | cons y ys => exact List.cons_merge_cons_pos _ _ _ (h y List.mem_cons_self)

theorem merge_cons_of_forall (h : ∀ y ∈ ys, le y x = false) :
    ys.merge (x :: xs) le = x :: ys.merge xs le := by
  cases ys with
  | nil => rw [List.nil_merge, List.nil_merge]
  | cons y ys =>
    refine List.cons_merge_cons_neg _ _ _ ?_
    rw [h y List.mem_cons_self]
    exact Bool.noConfusion

end Merge

/-- The candidates of both kinds, taken apart and put in order again. -/
theorem merge_filter_kind {candidates : List Candidate}
    (h : candidates.Pairwise fun a b => a.block.start < b.block.start) :
    (candidates.filter (·.kind == .rule)).merge (candidates.filter (·.kind == .invariant))
      (fun a b => a.block.start ≤ b.block.start) = candidates := by
  induction candidates with
  | nil => exact List.nil_merge _
  | cons candidate candidates ih =>
    obtain ⟨hfirst, hrest⟩ := List.pairwise_cons.1 h
    rw [List.filter_cons, List.filter_cons]
    rcases hkind : candidate.kind with _ | _
    · rw [if_pos (by decide), if_neg (by decide), cons_merge_of_forall, ih hrest]
      intro other hother
      exact decide_eq_true (Nat.le_of_lt (hfirst other (List.mem_filter.1 hother).1))
    · rw [if_neg (by decide), if_pos (by decide), merge_cons_of_forall, ih hrest]
      intro other hother
      exact decide_eq_false (Nat.not_le_of_lt (hfirst other (List.mem_filter.1 hother).1))

/-- The candidates of a spec are its definitions. -/
theorem candidates_specText (definitions : List Definition) :
    candidates (specText definitions) = located [] definitions := by
  have hkind : ∀ kind, candidatesOfKind kind (specText definitions) =
      (located [] definitions).filter (·.kind == kind) := by
    intro kind
    have hblocks : (occurrencesFrom kind.keyword.toList [] 0 false
        (mask (specText definitions).toList)).filterMap (·.block? kind.extent) =
        ((located [] definitions).filter (·.kind == kind)).map (·.block) :=
      blocks_specText kind rfl definitions
    have hname : ∀ block ∈ ((located [] definitions).filter (·.kind == kind)).map (·.block),
        (block.name != "") = true := by
      intro block hblock
      obtain ⟨candidate, hcandidate, rfl⟩ := List.mem_map.1 hblock
      rw [bne_iff_ne]
      exact name_of_mem_located (List.mem_filter.1 hcandidate).1
    rw [candidatesOfKind, blocksOfKind, scan, occurrences, hblocks, List.filter_eq_self.2 hname,
      List.map_map]
    refine (List.map_congr_left fun candidate hcandidate => ?_).trans (List.map_id _)
    rw [show kind = candidate.kind from (beq_iff_eq.1 (List.mem_filter.1 hcandidate).2).symm]
    rfl
  rw [candidates, hkind, hkind]
  exact merge_filter_kind (pairwise_located [] definitions)

/-! ## The properties -/

/-- Of the properties that candidates stand for, the first one of each name is kept. -/
theorem map_firstOfEachName (file : String) (methods seen : List String)
    (candidates : List Candidate) :
    (firstOfEachName seen candidates).map (·.property file methods) =
      ((candidates.map (·.property file methods)).filter
        fun property => !seen.contains property.name).eraseDupsBy fun a b => a.name == b.name := by
  induction candidates generalizing seen with
  | nil => rfl
  | cons candidate candidates ih =>
    have hname : (candidate.property file methods).name = candidate.block.name := rfl
    rw [firstOfEachName, List.map_cons, List.filter_cons, hname]
    rcases hseen : seen.contains candidate.block.name with _ | _
    · rw [if_neg Bool.false_ne_true, Bool.not_false, if_pos rfl, List.map_cons,
        List.eraseDupsBy_cons, List.filter_filter, ih]
      refine congrArg (fun rest => _ :: List.eraseDupsBy _ rest)
        (List.filter_congr fun property _ => ?_)
      rw [List.contains_cons, Bool.not_or, hname]
      cases property.name == candidate.block.name with
      | true => rfl
      | false => rfl
    · rw [if_pos rfl, Bool.not_true, if_neg Bool.false_ne_true, ih]

/-- The last line of a definition is the line of its last character. -/
theorem lineNumber_dropLast (definition : Definition) (front : List Char) :
    lineNumber (front ++ definition.text.dropLast) =
      lineNumber front + definition.text.count '\n' := by
  obtain ⟨init, c, htail, hc⟩ := definition.exists_tail_eq
  have hne : c ≠ '\n' := by
    rintro rfl
    exact absurd hc (by decide)
  have hcount : (definition.opening ++ init ++ [c]).count '\n' =
      (definition.opening ++ init).count '\n' := by
    rw [List.count_append, List.count_singleton, if_neg (by rwa [beq_iff_eq]), Nat.add_zero]
  rw [Definition.text, htail, ← List.append_assoc, List.dropLast_concat, hcount, lineNumber,
    lineNumber, List.count_append, Nat.add_right_comm]

/-- The candidates of definitions give their properties. -/
theorem map_property_located {file : String} {methods : List String}
    (hmethods : ∀ method ∈ methods, isQualifiedName method.toList = true) (front : List Char)
    (definitions : List Definition) :
    (located front definitions).map (·.property file methods) =
      propertiesFrom file methods (lineNumber front) definitions := by
  induction definitions generalizing front with
  | nil => rfl
  | cons definition definitions ih =>
    have hproperty : Candidate.property ⟨definition.kind, definition.block front⟩ file methods =
        definition.property file methods (lineNumber front) := by
      have hlines : (definition.block front).lines =
          (lines definition.text).map String.ofList := by
        rw [Block.lines, Definition.block, String.toList_ofList]
      have hlisted : (methods.filter fun method =>
          containsWord (String.ofList definition.text).toList (bareName method).toList) =
          methods.filter fun method =>
            HasWord isNameChar (bareName method).toList definition.text := by
        refine List.filter_congr fun method hmethod => ?_
        rw [String.toList_ofList, containsWord_bareName (hmethods method hmethod)]
      show Property.mk _ _ _ _ (lineNumber (front ++ definition.text.dropLast)) _ _ = _
      rw [hlines, lineNumber_dropLast, Definition.property, ← hlisted]
      rfl
    have hline : lineNumber (front ++ (definition.text ++ ['\n'])) =
        lineNumber front + definition.text.count '\n' + 1 := by
      rw [lineNumber, lineNumber, List.count_append, List.count_append, List.count_singleton_self]
      omega
    rw [located, List.map_cons, hproperty, ih, hline]
    rfl

/-- A spec that is written from well-formed definitions is read back: in the order of the file, the
first definition of each name gives a property with its kind, text and lines, and with those of the
declared methods whose bare name is a whole name in the text. -/
theorem properties_specText (definitions : List Definition) (file : String) (methods : List String)
    (hmethods : ∀ method ∈ methods, isQualifiedName method.toList = true) :
    properties (specText definitions) file methods =
      (propertiesFrom file methods 1 definitions).eraseDupsBy fun a b => a.name == b.name := by
  rw [properties, candidates_specText, map_firstOfEachName, map_property_located hmethods]
  exact congrArg _ (List.filter_eq_self.2 fun _ _ => rfl)

/-- One space. -/
def space : Layout where
  text := [' ']
  closed := by decide
  blank := by decide

/-- A rule with a clause in front of its body.  The body holds keywords and braces in a comment and
in a string literal. -/
def transferRule : Definition where
  kind := .rule
  gap := space
  name :=
    { text := "transferMoves".toList
      ne_nil := by decide
      ident := by decide
      ne_keyword := by rintro (_ | _) <;> decide }
  head :=
    { text := "(address to)".toList
      closed := by decide
      nested := by decide
      free := by decide
      plain := by decide }
  groups :=
    [{ lead := space
       introduced := some space
       inner :=
        { text := " f -> f.isView ".toList
          closed := by decide
          nested := by decide
          free := by decide } },
     { lead := space
       introduced := none
       inner :=
        { text := "\n  _token.transfer(to); // no rule \x7b\n  log(\"invariant \x7d\");\n".toList
          closed := by decide
          nested := by decide +kernel
          free := by decide +kernel } }]
  gap_ne_nil := by decide
  name_ends := by decide
  head_ends := by decide
  rule_groups := by decide
  rule_head := by decide

/-- An invariant with a header and an expression, which ends with its only group. -/
def totalInvariant : Definition where
  kind := .invariant
  gap := space
  name :=
    { text := "totalMatches".toList
      ne_nil := by decide
      ident := by decide
      ne_keyword := by rintro (_ | _) <;> decide }
  head :=
    Head.withExpression
      { text := "()".toList
        closed := by decide
        nested := by decide
        free := by decide
        plain := by decide }
      space
      { text := "sum() == total".toList
        closed := by decide
        nested := by decide
        free := by decide
        plain := by decide }
      (by decide)
  groups :=
    [{ lead := space
       introduced := none
       inner :=
        { text := " preserved \x7b check(); \x7d ".toList
          closed := by decide
          nested := by decide
          free := by decide } }]
  gap_ne_nil := by decide
  name_ends := by decide
  head_ends := by decide
  rule_groups := by decide
  rule_head := by decide

/-- An invariant that ends with a semicolon and has the name of a rule. -/
def transferInvariant : Definition where
  kind := .invariant
  gap := space
  name := transferRule.name
  head :=
    { text := " (true)".toList
      closed := by decide
      nested := by decide
      free := by decide
      plain := by decide }
  groups := []
  gap_ne_nil := by decide
  name_ends := by decide
  head_ends := by decide
  rule_groups := by decide
  rule_head := by decide

theorem properties_specText_transfer :
    (∀ method ∈ ["_token.transfer", "sum", "log.total"], isQualifiedName method.toList = true) ∧
      properties (specText [transferRule, totalInvariant, transferInvariant]) "Vault.spec"
        ["_token.transfer", "sum", "log.total"] =
        [⟨.rule, "transferMoves", "Vault.spec", 1, 4,
          ["rule transferMoves(address to) filtered \x7b f -> f.isView \x7d \x7b",
           "  _token.transfer(to); // no rule \x7b", "  log(\"invariant \x7d\");", "\x7d"],
          ["_token.transfer"]⟩,
         ⟨.invariant, "totalMatches", "Vault.spec", 5, 5,
          ["invariant totalMatches() sum() == total \x7b preserved \x7b check(); \x7d \x7d"],
          ["sum", "log.total"]⟩] :=
  ⟨by decide, (properties_specText _ _ _ (by decide)).trans (by decide +kernel)⟩

end PropertyIndex.Spec
