import PropertyIndex.Proofs.Identifier
import PropertyIndex.Proofs.IndexedRecords
import PropertyIndex.Proofs.StoredLinkage

/-!
# Linkages of properties after reading them back

Stored linkages have function names and the words of the sentinels in one place.  Several names
have a slash between them, which no sentinel has, so their text is their own.  A single function
that is called `ALL` or `UNKNOWN` cannot be told from the sentinel of that word: a property that is
linked to nothing else comes back with the sentinel.  This is the only loss.

* `IsNameRun`: the names of contract functions.
* `isStorable_linkage`: the other linkages of properties have a text of their own.
* `ofText_text_linkage_iff`: which linkages of properties come back.
-/

namespace PropertyIndex

open Text Contract

/-- A name that is a non-empty run of identifier characters. -/
def IsNameRun (name : String) : Prop :=
  name ≠ "" ∧ name.toList.all isIdentChar = true

instance (name : String) : Decidable (IsNameRun name) :=
  inferInstanceAs (Decidable (_ ∧ _))

theorem IsNameRun.slash_notMem {name : String} (h : IsNameRun name) : '/' ∉ name.toList :=
  fun hslash => absurd (List.all_eq_true.1 h.2 _ hslash) (by decide)

theorem Linkage.isStorable_of_isSentinel {target : Linkage} (h : target.isSentinel = true) :
    target.IsStorable := by
  cases target with
  | all => trivial
  | unknown => trivial
  | functions names => exact absurd h (by simp [isSentinel])

/-- Names of functions have a text of their own, unless they are a single one that spells a
sentinel. -/
theorem Linkage.isStorable_functions {names : List String} (hne : names ≠ [])
    (hascending : names.Pairwise (· < ·)) (hnames : ∀ name ∈ names, IsNameRun name)
    (hall : names ≠ ["ALL"]) (hunknown : names ≠ ["UNKNOWN"]) :
    (Linkage.functions names).IsStorable := by
  have hslash : ∀ name ∈ names, '/' ∉ name.toList := fun name hname =>
    (hnames name hname).slash_notMem
  have hempty : names ≠ [""] := by
    rintro rfl
    exact (hnames "" List.mem_cons_self).1 rfl
  refine ⟨hascending, hslash, ?_⟩
  simp only [List.mem_cons, List.not_mem_nil, or_false, not_or]
  exact ⟨fun h => hempty ((joinWith_eq_iff hne hslash (by decide)).1 h),
    fun h => hall ((joinWith_eq_iff hne hslash (by decide)).1 h),
    fun h => hunknown ((joinWith_eq_iff hne hslash (by decide)).1 h)⟩

section

variable {table : FunctionTable} {body : String} {methods : List String}

/-- A linkage of a property has a text of its own, unless it names a single function that spells a
sentinel. -/
theorem isStorable_linkage (hnames : ∀ name ∈ table.names, IsNameRun name)
    (hall : linkage body methods table ≠ .functions ["ALL"])
    (hunknown : linkage body methods table ≠ .functions ["UNKNOWN"]) :
    (linkage body methods table).IsStorable := by
  rcases linkage_cases body methods table with hsentinel | ⟨names, htarget, hne, hlinked⟩
  · exact Linkage.isStorable_of_isSentinel hsentinel
  · rw [htarget] at hall hunknown ⊢
    refine Linkage.isStorable_functions hne ?_ (fun name hname => ?_)
      (fun h => hall (h ▸ rfl)) (fun h => hunknown (h ▸ rfl))
    · rw [hlinked]
      exact (linkedNames body methods table).ascending
    · exact hnames name (mem_linkedNames (hlinked ▸ hname))

end

/-- The linkage of a property is read back from its text, except for one that names a single
function which spells a sentinel. -/
theorem ofText_text_linkage_iff (body : String) (methods : List String) (table : FunctionTable)
    (hnames : ∀ name ∈ table.names, IsNameRun name) :
    Linkage.ofText (linkage body methods table).text = linkage body methods table ↔
      linkage body methods table ≠ .functions ["ALL"] ∧
        linkage body methods table ≠ .functions ["UNKNOWN"] := by
  constructor
  · intro h
    constructor
    · intro hall
      rw [hall] at h
      exact absurd h (by decide)
    · intro hunknown
      rw [hunknown] at h
      exact absurd h (by decide)
  · rintro ⟨hall, hunknown⟩
    exact Linkage.ofText_text (isStorable_linkage hnames hall hunknown)

/-- A contract with a function that has the name of a sentinel, and another one. -/
def sentinelTable : FunctionTable :=
  FunctionTable.ofList
    [⟨"ALL", 1, 1, ["function ALL() external \x7b\x7d"]⟩,
     ⟨"pay", 2, 2, ["function pay() external \x7b\x7d"]⟩]

/-- Beside another function, one with the name of a sentinel comes back. -/
theorem ofText_text_linkage_iff_pay :
    (∀ name ∈ sentinelTable.names, IsNameRun name) ∧
      Linkage.ofText (linkage "rule r \x7b ALL(); pay(); \x7d" [] sentinelTable).text =
        .functions ["ALL", "pay"] := by
  have htarget : linkage "rule r \x7b ALL(); pay(); \x7d" [] sentinelTable =
      .functions ["ALL", "pay"] := by decide +kernel
  have hnames : ∀ name ∈ sentinelTable.names, IsNameRun name := by decide +kernel
  have hback := (ofText_text_linkage_iff "rule r \x7b ALL(); pay(); \x7d" [] sentinelTable
    hnames).2 ⟨by rw [htarget]; decide, by rw [htarget]; decide⟩
  exact ⟨hnames, hback.trans htarget⟩

/-- Alone it does not. -/
theorem not_forall_ofText_text_linkage :
    ¬ ∀ (body : String) (methods : List String) (table : FunctionTable),
      (∀ name ∈ table.names, IsNameRun name) →
        Linkage.ofText (linkage body methods table).text = linkage body methods table := by
  intro h
  have htarget : linkage "rule r \x7b ALL(); \x7d" [] sentinelTable = .functions ["ALL"] := by
    decide +kernel
  have hback := h "rule r \x7b ALL(); \x7d" [] sentinelTable (by decide +kernel)
  rw [htarget] at hback
  exact absurd hback (by decide)

end PropertyIndex
