import PropertyIndex.Proofs.ChangeOffsets
import PropertyIndex.Proofs.LowerCase

/-!
# Which functions count as changing state

A function counts as changing state when one of its statements assigns to a state variable, or when
it calls a member that may change state and is not marked as a view.  A statement is a stretch
between semicolons.  Its first assignment counts, and what stands in front of the operator is looked
through for the names of the variables.

* `IsAssignment`, `targetIn`: an equality sign that assigns, and what stands in front of its
  operator.
* `IsFirstTarget`, `assignmentTarget?_eq_some_iff`: the target of a statement.
* `CallsMember`, `callsMutatingMember_iff`: the calls of members.
* `modifiesState_mono`: more variables change no answer to a no.
* `modifiesState_exact`: the test as a whole.
-/

namespace PropertyIndex.Contract

open Text

/-! ## Assignments -/

/-- An equality sign between two parts of a statement assigns when it does not belong to a
comparison or an arrow.  Behind an angle bracket it assigns only if the bracket is doubled. -/
structure IsAssignment (left right : List Char) : Prop where
  behind : right.head? ≠ some '=' ∧ right.head? ≠ some '>'
  front : left.getLast? ≠ some '=' ∧ left.getLast? ≠ some '!'
  doubled : left.getLast? = some '<' ∨ left.getLast? = some '>' →
    left.dropLast.getLast? = left.getLast?

/-- What stands in front of the operator of an assignment, where `left` stands in front of its
equality sign.  The operator of a shift begins with its brackets. -/
def targetIn (left : List Char) : List Char :=
  if left.getLast? = some '<' ∨ left.getLast? = some '>' then left.dropLast.dropLast else left

/-- What stands in front of the operator of the first assignment of a statement. -/
def IsFirstTarget (statement target : List Char) : Prop :=
  ∃ left right, statement = left ++ '=' :: right ∧ IsAssignment left right ∧
    target = targetIn left ∧
    ∀ left' right', statement = left' ++ '=' :: right' → IsAssignment left' right' →
      left.length ≤ left'.length

section Assignment

variable {left text target : List Char} {c : Char}

/-- The text in front of an equality sign gives a target when the sign assigns. -/
theorem targetBefore?_eq_some_iff : targetBefore? left = some target ↔
    ((left.reverse.getLast? ≠ some '=' ∧ left.reverse.getLast? ≠ some '!') ∧
      (left.reverse.getLast? = some '<' ∨ left.reverse.getLast? = some '>' →
        left.reverse.dropLast.getLast? = left.reverse.getLast?)) ∧
      target = targetIn left.reverse := by
  rw [targetBefore?_eq, targetIn, List.dropLast_reverse, List.dropLast_reverse,
    List.getLast?_reverse, List.getLast?_reverse]
  by_cases hcompares : left.head? = some '=' ∨ left.head? = some '!'
  · rw [if_pos hcompares]
    refine iff_of_false (Option.some_ne_none _).symm ?_
    rintro ⟨⟨⟨hequal, hbang⟩, -⟩, -⟩
    exact hcompares.elim hequal hbang
  rw [if_neg hcompares]
  by_cases hshift : left.head? = some '<' ∨ left.head? = some '>'
  · rw [if_pos hshift, if_pos hshift]
    by_cases hdouble : left.tail.head? = left.head?
    · rw [if_pos hdouble, Option.some_inj, eq_comm]
      exact (and_iff_right ⟨not_or.1 hcompares, fun _ => hdouble⟩).symm
    · rw [if_neg hdouble]
      refine iff_of_false (Option.some_ne_none _).symm ?_
      rintro ⟨⟨-, hdoubled⟩, -⟩
      exact hdouble (hdoubled hshift)
  · rw [if_neg hshift, if_neg hshift, Option.some_inj, eq_comm]
    exact (and_iff_right ⟨not_or.1 hcompares, fun h => absurd h hshift⟩).symm

/-- The reading of a statement stops at an equality sign that assigns and passes over any other
character. -/
theorem assignmentTargetFrom?_cons_eq_some_iff :
    assignmentTargetFrom? left (c :: text) = some target ↔
      (c = '=' ∧ IsAssignment left.reverse text ∧ target = targetIn left.reverse) ∨
        (¬ (c = '=' ∧ IsAssignment left.reverse text) ∧
          assignmentTargetFrom? (c :: left) text = some target) := by
  have hopens : opensComparison text = false ↔
      text.head? ≠ some '=' ∧ text.head? ≠ some '>' := by
    rw [opensComparison, Bool.or_eq_false_iff, beq_eq_false_iff_ne, beq_eq_false_iff_ne]
  have hhere : IsAssignment left.reverse text ↔ opensComparison text = false ∧
      ∃ target, targetBefore? left = some target := by
    rw [hopens]
    constructor
    · intro h
      exact ⟨h.behind, _, targetBefore?_eq_some_iff.2 ⟨⟨h.front, h.doubled⟩, rfl⟩⟩
    · rintro ⟨hbehind, target, htarget⟩
      obtain ⟨⟨hfront, hdoubled⟩, -⟩ := targetBefore?_eq_some_iff.1 htarget
      exact ⟨hbehind, hfront, hdoubled⟩
  rw [assignmentTargetFrom?, hhere]
  by_cases hc : c = '='
  · rcases hopen : opensComparison text with _ | _
    · rcases htarget : targetBefore? left with _ | found
      · simp [hc]
      · obtain ⟨-, rfl⟩ := targetBefore?_eq_some_iff.1 htarget
        simp [hc, eq_comm]
    · simp [hc]
  · simp [hc]

/-- An assignment that stands behind some characters of a statement. -/
theorem reverse_cons_append (c : Char) (left passed : List Char) :
    (c :: left).reverse ++ passed = left.reverse ++ c :: passed := by
  rw [List.reverse_cons, List.append_assoc, List.singleton_append]

/-- The first assignment that a statement has behind the characters that have been read. -/
theorem assignmentTargetFrom?_eq_some_iff :
    assignmentTargetFrom? left text = some target ↔
      ∃ passed right, text = passed ++ '=' :: right ∧
        IsAssignment (left.reverse ++ passed) right ∧ target = targetIn (left.reverse ++ passed) ∧
        ∀ passed' right', text = passed' ++ '=' :: right' →
          IsAssignment (left.reverse ++ passed') right' → passed.length ≤ passed'.length := by
  induction text generalizing left with
  | nil =>
    refine iff_of_false (Option.some_ne_none _).symm ?_
    rintro ⟨passed, right, htext, -⟩
    exact absurd htext.symm (List.append_ne_nil_of_right_ne_nil _ (List.cons_ne_nil _ _))
  | cons c text ih =>
    rw [assignmentTargetFrom?_cons_eq_some_iff, ih]
    simp only [reverse_cons_append]
    constructor
    · rintro (⟨rfl, hassigns, rfl⟩ | ⟨hnot, passed, right, rfl, hassigns, rfl, hfirst⟩)
      · refine ⟨[], text, rfl, ?_, ?_, fun _ _ _ _ => Nat.zero_le _⟩
        · rwa [List.append_nil]
        · rw [List.append_nil]
      · refine ⟨c :: passed, right, rfl, hassigns, rfl, fun passed' right' htext hassigns' => ?_⟩
        cases passed' with
        | nil =>
          obtain ⟨hc, hright⟩ := List.cons.inj htext
          rw [List.append_nil] at hassigns'
          exact absurd ⟨hc, hright ▸ hassigns'⟩ hnot
        | cons d passed' =>
          obtain ⟨rfl, hrest⟩ := List.cons.inj htext
          exact Nat.succ_le_succ (hfirst passed' right' hrest hassigns')
    · rintro ⟨passed, right, htext, hassigns, rfl, hfirst⟩
      cases passed with
      | nil =>
        obtain ⟨rfl, rfl⟩ := List.cons.inj htext
        rw [List.append_nil] at hassigns ⊢
        exact Or.inl ⟨rfl, hassigns, rfl⟩
      | cons d passed =>
        obtain ⟨rfl, rfl⟩ := List.cons.inj htext
        refine Or.inr ⟨?_, passed, right, rfl, hassigns, rfl, fun passed' right' hrest => ?_⟩
        · rintro ⟨rfl, hhere⟩
          have hle := hfirst [] _ rfl (by rwa [List.append_nil])
          exact absurd hle (Nat.not_succ_le_zero _)
        · intro hassigns'
          have hle := hfirst (c :: passed') right' (congrArg (c :: ·) hrest) hassigns'
          exact Nat.le_of_succ_le_succ hle

end Assignment

/-- A statement has a target exactly when one of its equality signs assigns, and the first one
counts. -/
theorem assignmentTarget?_eq_some_iff {statement target : List Char} :
    assignmentTarget? statement = some target ↔ IsFirstTarget statement target :=
  assignmentTargetFrom?_eq_some_iff

/-- A text assigns to one of a set of variables. -/
def Assigns (body : List Char) (state : NameSet) : Prop :=
  ∃ statement target, IsPiece ';' statement body ∧ IsFirstTarget statement target ∧
    ∃ name ∈ state.toList, name ≠ "" ∧ HasWord isNameChar name.toList target

theorem containsWord_nil (text : List Char) : containsWord text [] = false := by
  rw [containsWord, sitesOf, sitesFrom_nil]
  rfl

theorem assignsTo_iff {state : NameSet} {body : List Char}
    (hstate : ∀ name ∈ state.toList, ∀ c ∈ name.toList, isNameChar c = true) :
    assignsTo state body = true ↔ Assigns body state := by
  have hword : ∀ target : List Char, ∀ name ∈ state.toList,
      containsWord target name.toList = true ↔
        name ≠ "" ∧ HasWord isNameChar name.toList target := by
    intro target name hname
    by_cases hempty : name = ""
    · subst hempty
      refine iff_of_false ?_ fun h => h.1 rfl
      rw [String.toList_empty, containsWord_nil]
      exact Bool.false_ne_true
    · rw [containsWord_iff (hstate name hname) (by simpa using hempty)]
      exact (and_iff_right hempty).symm
  simp only [assignsTo, List.any_eq_true, Option.any_eq_true, mem_pieces_iff,
    assignmentTarget?_eq_some_iff]
  constructor
  · rintro ⟨statement, hpiece, target, htarget, name, hname, hfound⟩
    exact ⟨statement, target, hpiece, htarget, name, hname, (hword target name hname).1 hfound⟩
  · rintro ⟨statement, target, hpiece, htarget, name, hname, hfound⟩
    exact ⟨statement, hpiece, target, htarget, name, hname, (hword target name hname).2 hfound⟩

/-! ## Calls of members -/

/-- A text has a dot with an identifier directly behind it, and behind that an opening
parenthesis. -/
def CallsMember (body : List Char) (name : String) : Prop :=
  isIdentifier name.toList = true ∧
    ∃ before after, body = before ++ '.' :: (name.toList ++ '(' :: after)

theorem calledMember?_eq_some_iff {text name : List Char} :
    calledMember? text = some name ↔
      isIdentifier name = true ∧ ∃ after, text = name ++ '(' :: after := by
  rw [calledMember?]
  constructor
  · intro h
    split_ifs at h with hcall
    obtain rfl := Option.some_inj.1 h
    rw [Bool.and_eq_true, beq_iff_eq] at hcall
    obtain ⟨after, hafter⟩ := List.head?_eq_some_iff.1 hcall.2
    refine ⟨hcall.1, after, ?_⟩
    rw [← hafter, List.takeWhile_append_dropWhile]
  · rintro ⟨hname, after, rfl⟩
    have hident := (isIdentChar_of_isIdentifier hname).2
    have hafter : ('(' :: after).head?.any isIdentChar = false := rfl
    rw [takeWhile_run hident hafter, dropWhile_run hident hafter, hname]
    rfl

theorem mem_memberCalls_iff {body : List Char} {name : String} :
    name.toList ∈ memberCalls body ↔ CallsMember body name := by
  rw [memberCalls, List.mem_filterMap, CallsMember]
  simp only [calledMember?_eq_some_iff, mem_sitesOf_singleton_iff]
  constructor
  · rintro ⟨site, hsite, hname, after, hright⟩
    exact ⟨hname, site.left.reverse, after, by rw [hsite, hright]⟩
  · rintro ⟨hname, before, after, hbody⟩
    refine ⟨⟨before.reverse, name.toList ++ '(' :: after⟩, ?_, hname, after, rfl⟩
    rwa [List.reverse_reverse]

/-- A text calls a member other than those that only read, and it has the word for views nowhere,
letter case aside. -/
def CallsMutatingMember (body : List Char) : Prop :=
  ¬ "view".toList <:+: body.map Char.toLower ∧
    ∃ name, CallsMember body name ∧ name ≠ "balanceOf" ∧ name ≠ "totalSupply"

theorem callsMutatingMember_iff {body : List Char} :
    callsMutatingMember body = true ↔ CallsMutatingMember body := by
  have hview : IsSteady "view".toList := by decide
  rw [callsMutatingMember, Bool.and_eq_true, Bool.not_eq_true', ← Bool.not_eq_true, contains_iff,
    infix_lowercase_iff hview, List.any_eq_true]
  refine and_congr_right fun _ => ?_
  constructor
  · rintro ⟨name, hname, hreads⟩
    refine ⟨String.ofList name, mem_memberCalls_iff.1 (by rwa [String.toList_ofList]), ?_⟩
    simpa [readOnlyMembers] using hreads
  · rintro ⟨name, hname, hreads⟩
    refine ⟨name.toList, mem_memberCalls_iff.2 hname, ?_⟩
    rw [String.ofList_toList]
    simpa [readOnlyMembers] using hreads

/-! ## The test -/

/-- With more variables a function that changes state still does. -/
theorem modifiesState_mono {body : String} {state larger : NameSet}
    (hlarger : ∀ name ∈ state.toList, name ∈ larger.toList)
    (h : modifiesState body state = true) : modifiesState body larger = true := by
  rw [modifiesState, Bool.or_eq_true] at h ⊢
  refine h.imp_left fun hassigns => ?_
  simp only [assignsTo, List.any_eq_true, Option.any_eq_true] at hassigns ⊢
  obtain ⟨statement, hpiece, target, htarget, name, hname, hfound⟩ := hassigns
  exact ⟨statement, hpiece, target, htarget, name, hlarger name hname, hfound⟩

/-- A function counts as changing state exactly when it assigns to a state variable or calls a
member that may change state without being marked as a view.  Reading its text by byte offsets gives
the same answer for every text, without a cut through a character, and the answer never turns to a
no when variables are added. -/
theorem modifiesState_exact (body : String) (state : NameSet)
    (hstate : ∀ name ∈ state.toList, ∀ c ∈ name.toList, isNameChar c = true) :
    (modifiesState body state = true ↔
      Assigns body.toList state ∨ CallsMutatingMember body.toList) ∧
    modifiesStateByOffset? body state = some (modifiesState body state) ∧
    ∀ larger : NameSet, (∀ name ∈ state.toList, name ∈ larger.toList) →
      modifiesState body state = true → modifiesState body larger = true := by
  refine ⟨?_, modifiesStateByOffset?_eq body state,
    fun larger hlarger => modifiesState_mono hlarger⟩
  rw [modifiesState, Bool.or_eq_true, assignsTo_iff hstate, callsMutatingMember_iff]

/-- A function that compares, shifts and assigns next to characters of several bytes.  Its second
statement reads a variable that the third one shifts. -/
def tallyText : String :=
  "\x7b require(é == 1 && a => b); ok = é >= 2 ? 1 : 0; ü.é <<= 1; token.balanceOf(é); \x7d"

theorem modifiesState_exact_tallyText :
    (∀ name ∈ (NameSet.ofList ["é", ""]).toList, ∀ c ∈ name.toList, isNameChar c = true) ∧
      Assigns tallyText.toList (NameSet.ofList ["é", ""]) ∧
      ¬ CallsMutatingMember tallyText.toList ∧
      modifiesStateByOffset? tallyText (NameSet.ofList ["ok2", "require"]) = some false := by
  have hall : (NameSet.ofList ["é", ""]).toList.all (·.toList.all isNameChar) = true := by
    decide +kernel
  have hall' : (NameSet.ofList ["ok2", "require"]).toList.all (·.toList.all isNameChar) = true := by
    decide +kernel
  simp only [List.all_eq_true] at hall hall'
  obtain ⟨hchanges, -, -⟩ := modifiesState_exact tallyText (NameSet.ofList ["é", ""]) hall
  obtain ⟨hkeeps, hoffset, -⟩ :=
    modifiesState_exact tallyText (NameSet.ofList ["ok2", "require"]) hall'
  have hno : modifiesState tallyText (NameSet.ofList ["ok2", "require"]) = false := by
    decide +kernel
  have hcalls : ¬ CallsMutatingMember tallyText.toList := by
    intro h
    exact absurd (hkeeps.2 (Or.inr h)) (by rw [hno]; exact Bool.false_ne_true)
  refine ⟨hall, (hchanges.1 (by decide +kernel)).resolve_right hcalls, hcalls, ?_⟩
  rw [hoffset, hno]

end PropertyIndex.Contract
