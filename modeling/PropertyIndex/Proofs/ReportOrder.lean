import Mathlib.Data.List.Nodup
import Mathlib.Data.String.Basic
import PropertyIndex.Batch.Report

/-!
# Reports do not depend on the order of outcomes

Outcomes come in the order in which pairs happen to be processed.  A report sorts them by name, so
for pairs of different names nothing is left of that order.

* `pairwise_le_mergeSort`, `pairwise_lt_mergeSort`, `mergeSort_eq_of_perm`: sorting by names.
* `Outcome.IsNamed`: a summary has the name of its outcome.
* `names_ofOutcomes`: every outcome is in a report, once.
* `ofOutcomes_eq_of_perm`: the report on outcomes in another order.
-/

namespace PropertyIndex

/-! ## Sorting by names -/

section Sorting

variable {α : Type} {name : α → String} {l l' : List α}

theorem pairwise_le_mergeSort (name : α → String) (l : List α) :
    (l.mergeSort fun a b => name a ≤ name b).Pairwise fun a b => name a ≤ name b := by
  have htrans (a b c : α) (hab : decide (name a ≤ name b) = true)
      (hbc : decide (name b ≤ name c) = true) : decide (name a ≤ name c) = true :=
    decide_eq_true (String.le_trans (of_decide_eq_true hab) (of_decide_eq_true hbc))
  have htotal (a b : α) : (decide (name a ≤ name b) || decide (name b ≤ name a)) = true := by
    rw [Bool.or_eq_true, decide_eq_true_iff, decide_eq_true_iff]
    exact String.le_total _ _
  exact (List.pairwise_mergeSort htrans htotal l).imp of_decide_eq_true

/-- Different names come in strictly ascending order. -/
theorem pairwise_lt_mergeSort (h : (l.map name).Nodup) :
    (l.mergeSort fun a b => name a ≤ name b).Pairwise fun a b => name a < name b := by
  have hnodup : ((l.mergeSort fun a b => name a ≤ name b).map name).Nodup :=
    ((List.mergeSort_perm l _).map name).nodup_iff.2 h
  have hne := List.pairwise_map.1 hnodup
  exact (pairwise_le_mergeSort name l).imp₂ (fun _ _ hle hne => lt_of_le_of_ne hle hne) hne

/-- With different names the order before the sorting does not matter. -/
theorem mergeSort_eq_of_perm (h : (l.map name).Nodup) (hperm : l.Perm l') :
    (l.mergeSort fun a b => name a ≤ name b) = l'.mergeSort fun a b => name a ≤ name b := by
  refine List.Perm.eq_of_pairwise ?_ (pairwise_le_mergeSort name l) (pairwise_le_mergeSort name l')
    ((List.mergeSort_perm l _).trans (hperm.trans (List.mergeSort_perm l' _).symm))
  intro a b ha hb hle hge
  rw [List.mem_mergeSort] at ha hb
  exact List.inj_on_of_nodup_map h ha (hperm.mem_iff.2 hb) (String.le_antisymm hle hge)

end Sorting

/-! ## Reports -/

/-- A summary has the name of the outcome that it belongs to. -/
def Outcome.IsNamed (outcome : Outcome) : Prop :=
  ∀ summary, outcome.result = .ok summary → summary.name = outcome.name

namespace Report

variable {outcomes others : List Outcome}

/-- Outcomes are either summaries or failures. -/
theorem names_filterMap (hnamed : ∀ outcome ∈ outcomes, outcome.IsNamed) :
    ((outcomes.filterMap Outcome.summary?).map Summary.name ++
      (outcomes.filterMap Outcome.rejected?).map Rejected.name).Perm
        (outcomes.map Outcome.name) := by
  induction outcomes with
  | nil => exact List.Perm.nil
  | cons outcome outcomes ih =>
    have hrest := ih fun other hmem => hnamed other (List.mem_cons_of_mem _ hmem)
    rw [List.filterMap_cons, List.filterMap_cons, List.map_cons]
    rcases hresult : outcome.result with failure | summary
    · have hsummary : outcome.summary? = none := by rw [Outcome.summary?, hresult]
      have hrejected : outcome.rejected? = some ⟨outcome.name, failure.message⟩ := by
        rw [Outcome.rejected?, hresult]
      rw [hsummary, hrejected]
      exact List.perm_middle.trans (hrest.cons _)
    · have hsummary : outcome.summary? = some summary := by rw [Outcome.summary?, hresult]
      have hrejected : outcome.rejected? = none := by rw [Outcome.rejected?, hresult]
      rw [hsummary, hrejected, ← hnamed outcome List.mem_cons_self summary hresult]
      exact hrest.cons _

/-- Every outcome is in a report, once. -/
theorem names_ofOutcomes (hnamed : ∀ outcome ∈ outcomes, outcome.IsNamed) :
    ((ofOutcomes outcomes).indexed.map Summary.name ++
      (ofOutcomes outcomes).failed.map Rejected.name).Perm (outcomes.map Outcome.name) :=
  (((List.mergeSort_perm _ _).map _).append ((List.mergeSort_perm _ _).map _)).trans
    (names_filterMap hnamed)

theorem mem_indexed {outcome : Outcome} {summary : Summary} (hmem : outcome ∈ outcomes)
    (hresult : outcome.result = .ok summary) : summary ∈ (ofOutcomes outcomes).indexed := by
  refine List.mem_mergeSort.2 (List.mem_filterMap.2 ⟨outcome, hmem, ?_⟩)
  rw [Outcome.summary?, hresult]

theorem mem_failed {outcome : Outcome} {failure : Failure} (hmem : outcome ∈ outcomes)
    (hresult : outcome.result = .error failure) :
    ⟨outcome.name, failure.message⟩ ∈ (ofOutcomes outcomes).failed := by
  refine List.mem_mergeSort.2 (List.mem_filterMap.2 ⟨outcome, hmem, ?_⟩)
  rw [Outcome.rejected?, hresult]

/-- Outcomes of different names give summaries and failures of different names. -/
theorem nodup_names_filterMap (hnamed : ∀ outcome ∈ outcomes, outcome.IsNamed)
    (hnames : (outcomes.map Outcome.name).Nodup) :
    ((outcomes.filterMap Outcome.summary?).map Summary.name).Nodup ∧
      ((outcomes.filterMap Outcome.rejected?).map Rejected.name).Nodup := by
  have hnodup := (names_filterMap hnamed).nodup_iff.2 hnames
  exact ⟨List.Nodup.of_append_left hnodup, List.Nodup.of_append_right hnodup⟩

theorem pairwise_indexed (hnamed : ∀ outcome ∈ outcomes, outcome.IsNamed)
    (hnames : (outcomes.map Outcome.name).Nodup) :
    (ofOutcomes outcomes).indexed.Pairwise fun a b => a.name < b.name :=
  pairwise_lt_mergeSort (nodup_names_filterMap hnamed hnames).1

theorem pairwise_failed (hnamed : ∀ outcome ∈ outcomes, outcome.IsNamed)
    (hnames : (outcomes.map Outcome.name).Nodup) :
    (ofOutcomes outcomes).failed.Pairwise fun a b => a.name < b.name :=
  pairwise_lt_mergeSort (nodup_names_filterMap hnamed hnames).2

/-- For outcomes of different names a report does not depend on their order. -/
theorem ofOutcomes_eq_of_perm (hnamed : ∀ outcome ∈ outcomes, outcome.IsNamed)
    (hnames : (outcomes.map Outcome.name).Nodup) (hperm : outcomes.Perm others) :
    ofOutcomes outcomes = ofOutcomes others := by
  obtain ⟨hsummaries, hfailures⟩ := nodup_names_filterMap hnamed hnames
  rw [ofOutcomes, ofOutcomes, mergeSort_eq_of_perm hsummaries (hperm.filterMap _),
    mergeSort_eq_of_perm hfailures (hperm.filterMap _)]

end Report

end PropertyIndex
