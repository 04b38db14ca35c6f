import PropertyIndex.Proofs.BlockCells
import PropertyIndex.Proofs.DeclarationReading
import PropertyIndex.Proofs.LineEndIndependence

/-!
# Where state variables are declared

Each state variable has a place in the masked copy of its contract at which a reader finds it.  The
readers know nothing of functions, so such a place may be inside one: a mapping between the braces
of a function is read like any other.  What keeps locals out otherwise is the visibility that a
typed declaration has to have.

* `VariableSite`, `VariableSite.Declares`: the places of declarations.
* `exists_of_mem_declarationsFrom`: what the search finds has a place.
* `VariableSite.Declares.hasVisibility`, `VariableSite.Declares.outside_or`: what a place has in
  common with a function.
* `exists_variableSite`: the places of the state variables.
-/

namespace PropertyIndex.Contract

open Text Source

/-! ## Places of declarations -/

/-- A place in a text: what stands in front of a declaration, the declaration with its semicolon, and
what is behind it. -/
structure VariableSite where
  form : Form
  front : List Char
  taken : List Char
  back : List Char

namespace VariableSite

/-- At a place a text declares a name if a line begins there, and the reader takes the declaration
and gives the name. -/
structure Declares (site : VariableSite) (text name : List Char) : Prop where
  eq : text = site.front ++ (site.taken ++ site.back)
  line_start : site.front = [] ∨ site.front.getLast? = some '\n'
  read : site.form.read (site.taken ++ site.back) = some (name, site.back)

/-- The byte offset at which a declaration begins. -/
def start (site : VariableSite) : Nat :=
  width site.front

/-- The byte offset at which a declaration ends. -/
def stop (site : VariableSite) : Nat :=
  width (site.front ++ site.taken)

/-- A declaration and a block have no characters in common. -/
def IsOutside (site : VariableSite) (block : Block) : Prop :=
  site.stop ≤ block.start ∨ block.stop ≤ site.start

/-- A declaration begins behind the start of a block and in front of its end. -/
def BeginsInside (site : VariableSite) (block : Block) : Prop :=
  block.start < site.start ∧ site.start < block.stop

/-- A visibility is a word of a declaration. -/
def HasVisibility (site : VariableSite) : Prop :=
  ∃ word, isVisibility word = true ∧ HasWord isWordChar word site.taken

end VariableSite

/-! ## The search -/

section Search

variable {shape : List Char → Option (List Char × List Char)} {lineStart : Bool} {skip : Nat}
  {front text name : List Char}

/-- What the search finds begins at the start of a line, and the reader takes it.  The induction is
on the text; `front` is what the search has passed over. -/
theorem exists_of_mem_declarationsFrom (hshape : IsShape shape)
    (hstart : lineStart = true → front = [] ∨ front.getLast? = some '\n')
    (h : name ∈ declarationsFrom shape lineStart skip text) :
    ∃ before taken back, text = before ++ (taken ++ back) ∧
      (front ++ before = [] ∨ (front ++ before).getLast? = some '\n') ∧
      shape (taken ++ back) = some (name, back) := by
  induction text generalizing lineStart skip front with
  | nil => exact absurd h List.not_mem_nil
  | cons c text ih =>
    have hlater (skip : Nat) (hmem : name ∈ declarationsFrom shape (c == '\n') skip text) :
        ∃ before taken back, c :: text = before ++ (taken ++ back) ∧
          (front ++ before = [] ∨ (front ++ before).getLast? = some '\n') ∧
          shape (taken ++ back) = some (name, back) := by
      have hnext : (c == '\n') = true → front ++ [c] = [] ∨ (front ++ [c]).getLast? = some '\n' := by
        intro hc
        rw [beq_iff_eq.1 hc]
        exact Or.inr List.getLast?_concat
      obtain ⟨before, taken, back, rfl, hline, hread⟩ := ih hnext hmem
      rw [List.append_assoc] at hline
      exact ⟨c :: before, taken, back, rfl, hline, hread⟩
    cases skip with
    | succ skip => exact hlater skip h
    | zero =>
      cases lineStart with
      | false => exact hlater 0 h
      | true =>
        cases hread : shape (c :: text) with
        | none =>
          rw [declarationsFrom_of_none fun _ => hread] at h
          exact hlater 0 h
        | some found =>
          obtain ⟨found, rest⟩ := found
          simp only [declarationsFrom, if_true, hread] at h
          rcases List.mem_cons.1 h with rfl | hmem
          · obtain ⟨inner, hinner⟩ := hshape.ends hread
            have htext : c :: text = inner ++ [';'] ++ rest := by
              rw [← hinner, List.append_assoc, List.singleton_append]
            refine ⟨[], inner ++ [';'], rest, htext, ?_, htext ▸ hread⟩
            rw [List.append_nil]
            exact hstart rfl
          · exact hlater _ hmem

end Search

/-! ## Declarations and functions -/

/-- A word that begins in front of a semicolon ends in front of it. -/
theorem hasWord_of_semicolon {inside : Char → Bool} {word front inner behind back : List Char}
    (hword : ';' ∉ word) (h : word ++ behind = inner ++ ';' :: back)
    (hfront : front.getLast?.any inside = false) (hbehind : behind.head?.any inside = false) :
    HasWord inside word (front ++ inner ++ [';']) := by
  obtain ⟨more, rfl, rfl⟩ : ∃ more, inner = word ++ more ∧ behind = more ++ ';' :: back := by
    rcases List.append_eq_append_iff.1 h with ⟨more, hinner, hmore⟩ | ⟨more, rfl, hmore⟩
    · exact ⟨more, hinner, hmore⟩
    · cases more with
      | nil => exact ⟨[], by simp, hmore.symm⟩
      | cons c more =>
        obtain ⟨rfl, -⟩ := List.cons.inj hmore
        exact absurd (List.mem_append_right _ List.mem_cons_self) hword
  refine ⟨front, more ++ [';'], by simp only [List.append_assoc], hfront, ?_⟩
  cases more with
  | nil => exact hbehind
  | cons c more => exact hbehind

namespace VariableSite.Declares

variable {site : VariableSite} {source : String} {text name : List Char} {block : Block}

/-- A declaration ends with its semicolon. -/
theorem exists_taken (h : site.Declares text name) : ∃ inner, site.taken = inner ++ [';'] := by
  obtain ⟨inner, hinner⟩ := site.form.isShape_read.ends h.read
  refine ⟨inner, (List.append_left_inj site.back).1 ?_⟩
  rw [← hinner, List.append_assoc, List.singleton_append]

/-- A declaration that is no mapping has a visibility. -/
theorem hasVisibility (h : site.Declares text name) :
    site.form = .mapping ∨ site.HasVisibility := by
  by_cases hform : site.form = .mapping
  · exact Or.inl hform
  obtain ⟨name', behind, htyped, tail, rfl⟩ := Form.exists_typedName? hform h.read
  obtain ⟨front, word, more, hline, hword, hfront, hmore⟩ := exists_of_typedName? htyped
  refine Or.inr ⟨word, hword, front, more ++ tail, ?_, hfront, hmore tail⟩
  refine (List.append_left_inj site.back).1 ?_
  rw [hline]
  simp only [List.append_assoc]

/-- A function that has characters in common with a declaration begins in front of it, or its
keyword stands in the declaration. -/
theorem outside_or (h : site.Declares (masked source.toList) name)
    (hblock : block ∈ scanBodies "function" source) :
    site.IsOutside block ∨ site.BeginsInside block ∨
      HasWord isWordChar "function".toList site.taken := by
  obtain ⟨front, word, more, back, hcells, hword, hlast, hhead⟩ :=
    exists_hasCells isKeyword_function hblock
  have hstart : block.start = width (shownText front) := by
    rw [width_shownText, hcells.start_eq]
  by_cases hbefore : block.start < site.start
  · by_cases hinside : site.start < block.stop
    · exact Or.inr (Or.inl ⟨hbefore, hinside⟩)
    · exact Or.inl (Or.inr (Nat.le_of_not_lt hinside))
  by_cases hbehind : site.stop ≤ block.start
  · exact Or.inl (Or.inl hbehind)
  obtain ⟨inner, hinner⟩ := h.exists_taken
  have htext : site.front ++ (inner ++ ';' :: site.back) =
      shownText front ++ ("function".toList ++ shownText (more ++ back)) := by
    rw [← shownText_keyword isKeyword_function hword, ← shownText_append, ← shownText_append,
      ← List.append_assoc word, ← hcells.eq]
    refine Eq.trans ?_ h.eq.symm
    rw [hinner, List.append_assoc, List.singleton_append]
  obtain ⟨lead, hlead⟩ := exists_append_of_width_le htext (hstart ▸ Nat.le_of_not_lt hbefore)
  rw [hlead, List.append_assoc] at htext
  have htaken := List.append_cancel_left htext
  have hwidth : width lead ≤ width inner := by
    rw [hstart, hlead, width_append, stop, hinner, width_append, width_append] at hbehind
    have hsemicolon : width [';'] = 1 := rfl
    omega
  obtain ⟨shift, rfl⟩ := exists_append_of_width_le htaken.symm hwidth
  rw [List.append_assoc] at htaken
  rw [hlead] at hlast
  refine Or.inr (Or.inr ?_)
  rw [hinner]
  exact hasWord_of_semicolon (by decide) (List.append_cancel_left htaken).symm
    (getLast?_any_of_append hlast) hhead

end VariableSite.Declares

/-! ## State variables -/

/-- Each state variable is declared at a place of the masked copy, as a mapping or with a
visibility.  A function that is not apart from the place begins in front of it, so that the
declaration begins on a line inside the function, or the function begins with a keyword inside the
declaration. -/
theorem exists_variableSite {source name : String} (h : name ∈ (stateVariables source).toList) :
    ∃ site : VariableSite, site.Declares (masked source.toList) name.toList ∧
      (site.form = .mapping ∨ site.HasVisibility) ∧
      ∀ block ∈ scanBodies "function" source, site.IsOutside block ∨ site.BeginsInside block ∨
        HasWord isWordChar "function".toList site.taken := by
  obtain ⟨form, hform⟩ := mem_stateVariables_iff.1 h
  obtain ⟨front, taken, back, htext, hline, hread⟩ :=
    @exists_of_mem_declarationsFrom _ _ _ [] _ _ form.isShape_read (fun _ => Or.inl rfl) hform
  have hsite : VariableSite.Declares ⟨form, front, taken, back⟩ (masked source.toList)
      name.toList := ⟨htext, hline, hread⟩
  exact ⟨_, hsite, hsite.hasVisibility, fun block hblock => hsite.outside_or hblock⟩

/-- A contract without state variables.  One of its functions has a mapping as a parameter, on a line
of its own, and returns early. -/
def guardedText : String :=
  "contract C \x7b\n" ++
    "    function f(\n" ++
    "        mapping(address => uint) storage m,\n" ++
    "        address a\n" ++
    "    ) internal \x7b\n" ++
    "        if (m[a] > 0) return;\n" ++
    "        m[a] = 1;\n" ++
    "    \x7d\n" ++
  "\x7d\n"

theorem mem_stateVariables_guardedText : "return" ∈ (stateVariables guardedText).toList := by
  decide +kernel

theorem exists_variableSite_guardedText :
    "return" ∈ (stateVariables guardedText).toList ∧
      ∃ site : VariableSite, site.Declares (masked guardedText.toList) "return".toList ∧
        (site.form = .mapping ∨ site.HasVisibility) ∧
        ∀ block ∈ scanBodies "function" guardedText, site.IsOutside block ∨
          site.BeginsInside block ∨ HasWord isWordChar "function".toList site.taken :=
  ⟨mem_stateVariables_guardedText, exists_variableSite mem_stateVariables_guardedText⟩

/-- A name that is declared only inside a function is a state variable. -/
theorem not_forall_outside_functions :
    ¬ ∀ source name : String, name ∈ (stateVariables source).toList →
      ∃ site : VariableSite, site.Declares (masked source.toList) name.toList ∧
        ∀ block ∈ scanBodies "function" source, site.IsOutside block := by
  intro h
  obtain ⟨site, hsite, houtside⟩ := h guardedText "return" mem_stateVariables_guardedText
  obtain ⟨block, hblock, hstart, hstop⟩ : ∃ block ∈ scanBodies "function" guardedText,
      block.start = 17 ∧ block.stop = 161 := by
    decide +kernel
  have hinside : ∀ form ∈ Form.all,
      ∀ n ≤ (masked guardedText.toList).length,
        (form.read ((masked guardedText.toList).drop n)).map Prod.fst = some "return".toList →
          17 ≤ width ((masked guardedText.toList).take n) ∧
            width ((masked guardedText.toList).take n) < 161 := by
    decide +kernel
  have hlength : site.front.length ≤ (masked guardedText.toList).length := by
    rw [hsite.eq, List.length_append]
    exact Nat.le_add_right _ _
  have hplace := hinside site.form site.form.mem_all site.front.length hlength
  rw [hsite.eq, List.drop_left, List.take_left, hsite.read] at hplace
  obtain ⟨hbehind, hbefore⟩ := hplace rfl
  obtain ⟨inner, hinner⟩ := hsite.exists_taken
  have hpos : 0 < width site.taken := by
    rw [hinner]
    exact width_pos (List.append_ne_nil_of_right_ne_nil _ (List.cons_ne_nil _ _))
  have hapart := houtside block hblock
  rw [VariableSite.IsOutside, VariableSite.stop, VariableSite.start, width_append, hstart,
    hstop] at hapart
  omega

end PropertyIndex.Contract
