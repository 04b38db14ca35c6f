import PropertyIndex.Proofs.LinkageReadBack
import PropertyIndex.Proofs.LowerCase

/-!
# What a property is linked to

The evidence for a function is a declared method with its bare name or a call in the text, letter
case aside.  A search for calls passes over occurrences of a name that overlap an earlier one.  For
names that are identifiers it misses no call: an occurrence that overlaps the call from in front
would put one of its own characters directly before the name.

* `Calls`, `invokes_iff`: the search finds a call wherever the text has one.
* `HasEvidence`, `mem_linkedNames_iff`: the functions for which there is evidence.
* `NameSet.toList_eq_of_mem_iff`: a set of names has one ascending list.
* `linkage_exact`: the linkage of a property, and what it depends on.
-/

namespace PropertyIndex

open Text Contract

/-! ## Calls -/

/-- A text calls a name, letter case aside: the name stands in it with no name character directly in
front and the sign of a call directly behind. -/
def Calls (body name : String) : Prop :=
  ∃ before after sign, lowercase body.toList = before ++ lowercase name.toList ++ sign :: after ∧
    before.getLast?.any isNameChar = false ∧ (sign = '(' ∨ sign = '@')

theorem invokes_iff {name text : List Char} (hname : ∀ c ∈ name, isNameChar c = true)
    (hne : name ≠ []) :
    invokes text name = true ↔ ∃ before after sign, text = before ++ name ++ sign :: after ∧
      before.getLast?.any isNameChar = false ∧ (sign = '(' ∨ sign = '@') := by
  rw [invokes, List.any_eq_true]
  constructor
  · rintro ⟨site, hmem, hcall⟩
    rw [isCallSite, Bool.and_eq_true, Bool.not_eq_true', Option.any_eq_true] at hcall
    obtain ⟨hleft, sign, hhead, hsign⟩ := hcall
    obtain ⟨after, hright⟩ := List.head?_eq_some_iff.1 hhead
    refine ⟨site.left.reverse, after, sign, ?_, ?_, by simpa using hsign⟩
    · rw [← hright]
      exact (mem_sitesOf_name_iff hname hne hleft).1 hmem
    · rwa [List.getLast?_reverse]
  · rintro ⟨before, after, sign, htext, hbefore, hsign⟩
    have hleft : before.reverse.head?.any isNameChar = false := by
      rwa [List.head?_reverse]
    refine ⟨⟨before.reverse, sign :: after⟩, (mem_sitesOf_name_iff hname hne hleft).2 ?_, ?_⟩
    · rwa [List.reverse_reverse]
    · rw [isCallSite, hleft]
      simpa using hsign

/-- For an identifier the lower-case form of the name is looked for. -/
theorem invokes_lowercase_iff {name : String} (hname : IsNameRun name) (body : String) :
    invokes (lowercase body.toList) (lowercase name.toList) = true ↔ Calls body name := by
  have hident : ∀ c ∈ name.toList, isIdentChar c = true := List.all_eq_true.1 hname.2
  refine invokes_iff (fun c hc => ?_) ?_
  · exact isNameChar_of_isIdentChar (isIdentChar_of_mem_lowercase hident c hc)
  · rw [lowercase_of_ident hident, Ne, List.map_eq_nil_iff, String.toList_eq_nil_iff]
    exact hname.1

/-! ## Evidence -/

/-- The evidence for a function: a declared method with its name behind the last dot, or a call. -/
def HasEvidence (body : String) (methods : List String) (name : String) : Prop :=
  (∃ method ∈ methods, IsBareName name method) ∨ Calls body name

section Evidence

variable {body : String} {methods : List String} {table : FunctionTable}

/-- A property is linked to the functions of the table that there is evidence for. -/
theorem mem_linkedNames_iff (hnames : ∀ name ∈ table.names, IsNameRun name) {name : String} :
    name ∈ (linkedNames body methods table).toList ↔
      name ∈ table.names ∧ HasEvidence body methods name := by
  rw [linkedNames, NameSet.mem_ofList, List.mem_append, List.mem_filter, List.mem_filter,
    FunctionTable.contains_iff, List.mem_map, HasEvidence, and_or_left]
  refine or_congr ?_ ?_
  · simp only [bareName_eq_iff]
    exact and_comm
  · exact and_congr_right fun hmem => invokes_lowercase_iff (hnames name hmem) body

/-- A linkage names all the functions that there is evidence for. -/
theorem names_linkage (body : String) (methods : List String) (table : FunctionTable) :
    (linkage body methods table).names = (linkedNames body methods table).toList := by
  rcases linkage_cases body methods table with h | ⟨names, htarget, -, hnames⟩
  · rw [Linkage.names_of_isSentinel h]
    rw [linkage] at h
    split at h
    · next hnil => exact hnil.symm
    · exact absurd h (by simp [Linkage.isSentinel])
  · rw [htarget, ← hnames]
    rfl

/-- Without evidence the word for invariants decides. -/
theorem linkage_of_names_eq_nil (h : (linkage body methods table).names = []) :
    linkage body methods table =
      if "invariant".toList <:+: lowercase body.toList then .all else .unknown := by
  rw [names_linkage] at h
  rw [linkage, h]
  by_cases hword : "invariant".toList <:+: lowercase body.toList
  · rw [if_pos hword, if_pos (contains_iff.2 hword)]
  · rw [if_neg hword, if_neg (fun hcontains => hword (contains_iff.1 hcontains))]

end Evidence

/-- A set of names has one ascending list. -/
theorem NameSet.toList_eq_of_mem_iff {first second : NameSet}
    (h : ∀ name, name ∈ first.toList ↔ name ∈ second.toList) :
    first.toList = second.toList := by
  have hnodup : ∀ set : NameSet, set.toList.Nodup := by
    intro set
    refine set.ascending.imp ?_
    rintro name _ hlt rfl
    exact String.lt_irrefl name hlt
  have hperm := (List.perm_ext_iff_of_nodup (hnodup first) (hnodup second)).2 h
  exact hperm.eq_of_pairwise (fun a b _ _ hlt hgt => absurd (String.lt_trans hlt hgt)
    (String.lt_irrefl a)) first.ascending second.ascending

/-- A property is linked exactly to the functions of the contract that a declared method or a call
speaks of, in ascending order; without any, its text decides between the two other answers.  Of the
contract only the names of its functions matter, not their order, their number or their code. -/
theorem linkage_exact (body : String) (methods : List String) (table : FunctionTable)
    (hnames : ∀ name ∈ table.names, IsNameRun name) :
    (∀ name, name ∈ (linkage body methods table).names ↔
      name ∈ table.names ∧ HasEvidence body methods name) ∧
    (linkage body methods table).names.Pairwise (· < ·) ∧
    ((linkage body methods table).names = [] → linkage body methods table =
      if "invariant".toList <:+: lowercase body.toList then .all else .unknown) ∧
    ∀ functions : List SourceFunction,
      (∀ name, name ∈ functions.map SourceFunction.name ↔ name ∈ table.names) →
        linkage body methods (.ofList functions) = linkage body methods table := by
  refine ⟨fun name => ?_, ?_, linkage_of_names_eq_nil, fun functions hsame => ?_⟩
  · rw [names_linkage]
    exact mem_linkedNames_iff hnames
  · rw [names_linkage]
    exact (linkedNames body methods table).ascending
  · have hsame' : ∀ name, name ∈ (FunctionTable.ofList functions).names ↔ name ∈ table.names :=
      fun name => FunctionTable.mem_names_ofList.trans (hsame name)
    have hlinked : (linkedNames body methods (.ofList functions)).toList =
        (linkedNames body methods table).toList := by
      refine NameSet.toList_eq_of_mem_iff fun name => ?_
      rw [mem_linkedNames_iff hnames, mem_linkedNames_iff fun name hname =>
        hnames name ((hsame' name).1 hname), hsame']
    rw [linkage, linkage, hlinked]

/-- A contract with a function whose name overlaps itself, and one that is defined twice. -/
def payTable : FunctionTable :=
  FunctionTable.ofList
    [⟨"payPay", 1, 1, ["function payPay() external \x7b\x7d"]⟩,
     ⟨"Pay", 2, 2, ["function Pay() external;"]⟩,
     ⟨"burn", 3, 3, ["function burn() external \x7b\x7d"]⟩,
     ⟨"Pay", 4, 4, ["function Pay() external \x7b\x7d"]⟩]

/-- A rule that calls one function behind a letter that has two characters in lower case, and in
which another one occurs twice at the end of a longer name. -/
def payRule : String :=
  "rule r \x7b payPayPay(); İPAY@withrevert(); \x7d"

theorem linkage_exact_payTable :
    (∀ name ∈ payTable.names, IsNameRun name) ∧
      linkage payRule ["token.burn", "token.mint"] payTable = .functions ["Pay", "burn"] ∧
      HasEvidence payRule ["token.burn", "token.mint"] "Pay" ∧
      HasEvidence payRule ["token.burn", "token.mint"] "burn" ∧
      ¬ HasEvidence payRule ["token.burn", "token.mint"] "payPay" := by
  have hnames : ∀ name ∈ payTable.names, IsNameRun name := by decide +kernel
  have htarget : linkage payRule ["token.burn", "token.mint"] payTable =
      .functions ["Pay", "burn"] := by decide +kernel
  have hexact := (linkage_exact payRule ["token.burn", "token.mint"] payTable hnames).1
  rw [htarget] at hexact
  refine ⟨hnames, htarget, ((hexact "Pay").1 (by decide)).2, ((hexact "burn").1 (by decide)).2, ?_⟩
  intro hevidence
  exact absurd ((hexact "payPay").2 ⟨by decide +kernel, hevidence⟩) (by decide)

end PropertyIndex
