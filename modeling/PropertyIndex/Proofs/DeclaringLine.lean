import PropertyIndex.Proofs.DeclarationForm
import PropertyIndex.Spec.Method

/-!
# Lines that declare a method

A line declares a method when a qualified name stands on it directly before an opening parenthesis.
In front of the name there may be blanks, and the word `function` with blanks behind it.  That word
could itself be a method, so it introduces another name only where blanks follow it.

* `calledName?_eq_some_iff`: a name directly before a parenthesis.
* `IsLead`, `declaredMethod?_eq_some_iff`: what a line that declares a method looks like.
* `declaredMethod?_dropCarriageReturn`, `filterMap_declaredMethod?_lines`: line ends do not matter.
* `mem_methodsOfLines_iff`: the methods that lines declare.
-/

namespace PropertyIndex.Spec

open Text

variable {text line name lead rest : List Char}

/-! ## Lines -/

/-- A called name is a qualified name directly before an opening parenthesis. -/
theorem calledName?_eq_some_iff : calledName? text = some name ↔
    isQualifiedName name = true ∧ ∃ rest, text = name ++ '(' :: rest := by
  constructor
  · intro h
    simp only [calledName?] at h
    split_ifs at h with hcalled
    obtain rfl := Option.some_inj.1 h
    rw [Bool.and_eq_true, beq_iff_eq] at hcalled
    obtain ⟨rest, hrest⟩ := List.head?_eq_some_iff.1 hcalled.2
    exact ⟨hcalled.1, rest, by rw [← hrest, List.takeWhile_append_dropWhile]⟩
  · rintro ⟨hname, rest, rfl⟩
    have hdotted := isDottedChar_of_isQualifiedName hname
    simp only [calledName?]
    rw [takeWhile_run hdotted rfl, dropWhile_run hdotted rfl, hname]
    rfl

/-- What may stand in front of the name on a line that declares a method. -/
inductive IsLead : List Char → Prop
  /-- Nothing but blanks. -/
  | blanks {indent : List Char} (blank : ∀ c ∈ indent, isBlank c = true) : IsLead indent
  /-- The word `function`, with blanks behind it. -/
  | introduced {indent gap : List Char} (blank : ∀ c ∈ indent, isBlank c = true)
    (gap_blank : ∀ c ∈ gap, isBlank c = true) (gap_ne_nil : gap ≠ []) :
    IsLead (indent ++ ("function".toList ++ gap))

/-- Where the word `function` begins a called name, no blank follows it. -/
theorem introduced_eq_none (hname : isQualifiedName name = true) :
    ("function".toList.isPrefixOf? (name ++ '(' :: rest)).bind afterBlanks? = none := by
  rw [Option.bind_eq_none_iff]
  intro behind hbehind
  rw [List.isPrefixOf?_eq_some_iff_append_eq] at hbehind
  obtain ⟨c, tail, rfl, -⟩ := exists_cons_of_isQualifiedName hname
  have hdotted := isDottedChar_of_isQualifiedName hname
  have hword : ∀ c ∈ "function".toList, isDottedChar c = true := List.all_eq_true.1 (by decide)
  obtain ⟨shift, hshift, rfl⟩ := eq_append_of_seam hword (List.cons_ne_nil c tail)
    (Or.inr (show ('(' :: rest).head?.any isDottedChar = false from rfl)) hbehind.symm
  have hhead : (shift ++ '(' :: rest).head?.any isBlank = false := by
    cases shift with
    | nil => rfl
    | cons d shift =>
      refine isBlank_of_isDottedChar (hdotted d ?_)
      rw [hshift]
      exact List.mem_append_right _ List.mem_cons_self
  rw [Contract.afterBlanks?_eq, hhead]
  rfl

/-- A line declares a method exactly when the name stands behind a lead and before a parenthesis. -/
theorem declaredMethod?_eq_some_iff : declaredMethod? line = some name ↔
    ∃ lead rest, line = lead ++ (name ++ '(' :: rest) ∧ IsLead lead ∧
      isQualifiedName name = true := by
  constructor
  · intro h
    have hline : line = line.takeWhile isBlank ++ line.dropWhile isBlank :=
      (List.takeWhile_append_dropWhile).symm
    have hindent : ∀ c ∈ line.takeWhile isBlank, isBlank c = true :=
      fun _ hc => List.mem_takeWhile_imp hc
    simp only [declaredMethod?, Option.or_eq_some_iff] at h
    rcases h with hintroduced | ⟨-, hcalled⟩
    · obtain ⟨after, hafter, hcalled⟩ := Option.bind_eq_some_iff.1 hintroduced
      obtain ⟨behind, hword, hblanks⟩ := Option.bind_eq_some_iff.1 hafter
      obtain ⟨gap, rfl, hgap, hne⟩ := exists_of_afterBlanks? hblanks
      obtain ⟨hname, rest, rfl⟩ := calledName?_eq_some_iff.1 hcalled
      rw [← List.isPrefixOf?_eq_some_iff_append_eq.1 hword] at hline
      refine ⟨_, rest, ?_, IsLead.introduced hindent hgap hne, hname⟩
      rw [List.append_assoc, List.append_assoc]
      exact hline
    · obtain ⟨hname, rest, hrest⟩ := calledName?_eq_some_iff.1 hcalled
      rw [hrest] at hline
      exact ⟨_, rest, hline, IsLead.blanks hindent, hname⟩
  · rintro ⟨lead, rest, rfl, hlead, hname⟩
    obtain ⟨c, tail, hcons, hstart⟩ := exists_cons_of_isQualifiedName hname
    have hcalled : calledName? (name ++ '(' :: rest) = some name :=
      calledName?_eq_some_iff.2 ⟨hname, rest, rfl⟩
    have hfront : (name ++ '(' :: rest).head?.any isBlank = false := by
      have hdotted := isDottedChar_of_isQualifiedName hname
      rw [hcons] at hdotted ⊢
      exact isBlank_of_isDottedChar (hdotted c List.mem_cons_self)
    simp only [declaredMethod?]
    cases hlead with
    | blanks hblank =>
      rw [dropWhile_run hblank hfront, introduced_eq_none hname, hcalled]
      rfl
    | @introduced indent gap hblank hgap hne =>
      have hword : ("function".toList ++ gap ++ (name ++ '(' :: rest)).head?.any isBlank = false :=
        rfl
      rw [List.append_assoc, dropWhile_run hblank hword, List.append_assoc,
        List.isPrefixOf?_eq_some_iff_append_eq.2 rfl, Option.bind_some,
        afterBlanks?_append hgap hne hfront, Option.bind_some, hcalled]
      rfl

/-- A carriage return at the end of a line does not matter. -/
theorem declaredMethod?_dropCarriageReturn (line : List Char) :
    declaredMethod? (dropCarriageReturn line) = declaredMethod? line := by
  rw [dropCarriageReturn]
  split_ifs with hlast
  · obtain ⟨line, rfl⟩ := List.getLast?_eq_some_iff.1 (beq_iff_eq.1 hlast)
    rw [List.dropLast_concat]
    ext name
    rw [declaredMethod?_eq_some_iff, declaredMethod?_eq_some_iff]
    constructor
    · rintro ⟨lead, rest, rfl, hlead, hname⟩
      exact ⟨lead, rest ++ ['\r'], by simp, hlead, hname⟩
    · rintro ⟨lead, rest, hline, hlead, hname⟩
      have hrest : rest ≠ [] := by
        rintro rfl
        have hend := congrArg List.getLast? hline
        simp at hend
      obtain ⟨init, c, rfl⟩ := (List.eq_nil_or_concat' rest).resolve_left hrest
      have hinit : line ++ ['\r'] = lead ++ (name ++ '(' :: init) ++ [c] := by
        rw [hline]
        simp
      exact ⟨lead, init, (List.append_inj' hinit rfl).1, hlead, hname⟩
  · rfl

/-- The methods of a text stand on its pieces between line feeds. -/
theorem filterMap_declaredMethod?_lines (text : List Char) :
    (lines text).filterMap declaredMethod? = (pieces '\n' text).filterMap declaredMethod? := by
  rw [lines]
  generalize pieces '\n' text = parts
  induction parts with
  | nil => rfl
  | cons piece rest ih =>
    cases rest with
    | nil =>
      rw [linesOfPieces]
      split_ifs with hpiece
      · rw [List.isEmpty_iff.1 hpiece]
        rfl
      · rfl
    | cons next rest =>
      rw [linesOfPieces, List.filterMap_cons, List.filterMap_cons, ih,
        declaredMethod?_dropCarriageReturn]
      exact fun hnil => absurd hnil (List.cons_ne_nil _ _)

/-- The methods that lines declare, but for the words of the spec language. -/
theorem mem_methodsOfLines_iff {method : String} {lines : List (List Char)} :
    method ∈ methodsOfLines lines ↔
      method ∉ builtinPredicates ∧ method.toList ∈ lines.filterMap declaredMethod? := by
  rw [methodsOfLines, List.mem_eraseDups, List.mem_filter, List.mem_map, and_comm]
  refine and_congr (by simp) ⟨?_, fun hname => ⟨_, hname, String.ofList_toList⟩⟩
  rintro ⟨name, hname, rfl⟩
  rw [String.toList_ofList]
  exact hname

end PropertyIndex.Spec
