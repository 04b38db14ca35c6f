import Mathlib.Data.List.Perm.Subperm
import PropertyIndex.Proofs.IndexedRecords
import PropertyIndex.Proofs.WalkAgreement

/-!
# Properties that no other one mentions

The table of properties that an expansion looks through holds all properties of the spec, but one
that no line of the others mentions is never entered from them.  Such properties can be added to a
spec at any places without a change in the records of the rest.

* `AddsUnmentioned`: a list of properties with properties added that the list does not mention.
* `AddsUnmentioned.sameOrderBehind`, `AddsUnmentioned.expanded_eq`: the properties at hand do not
  see the added ones.
* `Inputs.records_sublist`: the records of a spec among those of a spec with more properties.
-/

namespace PropertyIndex

/-- When all members that pass a test lie in a sublist, the test leaves the same of both lists. -/
theorem filter_eq_of_sublist {α : Type} {short long : List α} (hsub : short.Sublist long)
    (hlong : long.Nodup) {p : α → Bool} (h : ∀ x ∈ long, p x = true → x ∈ short) :
    long.filter p = short.filter p := by
  have hsubset : long.filter p ⊆ short.filter p := fun x hx =>
    List.mem_filter.2 ⟨h x (List.mem_filter.1 hx).1 (List.mem_filter.1 hx).2,
      (List.mem_filter.1 hx).2⟩
  have hlength : (long.filter p).length ≤ (short.filter p).length :=
    (List.subperm_of_subset (hlong.filter p) hsubset).length_le
  exact ((hsub.filter p).eq_of_length_le hlength).symm

namespace Spec

open Text

/-- The second list has the properties of the first one, unchanged and in order, and besides them
only such as no line of the first list mentions. -/
structure AddsUnmentioned (properties extended : List Property) : Prop where
  sublist : properties.Sublist extended
  unmentioned : ∀ extra ∈ extended, extra ∉ properties →
    ∀ property ∈ properties, ∀ line ∈ property.lines, ¬ extra.name.toList <:+: line.toList

section

variable {properties extended : List Property}

/-- A property whose name stands in a line of the first list belongs to that list. -/
theorem AddsUnmentioned.mem_of_mentions (h : AddsUnmentioned properties extended)
    {property extra : Property} (hproperty : property ∈ properties) {line : String}
    (hline : line ∈ property.lines) (hextra : extra ∈ extended)
    (hmentions : mentions line extra.name = true) : extra ∈ properties := by
  by_contra hnew
  exact h.unmentioned extra hextra hnew property hproperty line hline (mentions_iff.1 hmentions)

/-- Properties that no line of a list mentions do not come between the names in these lines. -/
theorem AddsUnmentioned.sameOrderBehind (h : AddsUnmentioned properties extended)
    (distinct : (extended.map Property.name).Nodup) {property : Property}
    (hproperty : property ∈ properties) : SameOrderBehind properties extended property := by
  intro owner hreaches line hline
  rw [Snapshot.othersIn, Snapshot.othersIn, names_snapshot, names_snapshot]
  refine filter_eq_of_sublist (h.sublist.map _) distinct fun name hname hothers => ?_
  obtain ⟨extra, hextra, rfl⟩ := List.mem_map.1 hname
  have hmentions : mentions line extra.name = true := (Bool.and_eq_true_iff.1 hothers).2
  exact List.mem_map_of_mem
    (h.mem_of_mentions (mem_of_reaches hreaches hproperty) hline hextra hmentions)

/-- Properties that no line of a list mentions do not change what the list expands to. -/
theorem AddsUnmentioned.expanded_eq (h : AddsUnmentioned properties extended)
    (distinct : (extended.map Property.name).Nodup) {property : Property}
    (hproperty : property ∈ properties) :
    (snapshot extended).expanded property.name = (snapshot properties).expanded property.name :=
  expanded_eq_of_sameOrderBehind (distinct.sublist (h.sublist.map _)) distinct h.sublist.subset
    hproperty (h.sameOrderBehind distinct hproperty)

end

end Spec

namespace Inputs

open Spec

/-- The same contract with another spec in the place of its own. -/
def withSpec (inputs : Inputs) (spec : String) : Inputs :=
  { inputs with spec }

/-- Properties that are added to a spec without being mentioned in it leave the records as they
are: those of the contract and of the properties at hand come up among the records of the longer
spec, in the same order. -/
theorem records_sublist (inputs : Inputs) (spec : String)
    (added : AddsUnmentioned inputs.properties (inputs.withSpec spec).properties) :
    inputs.records.Sublist (inputs.withSpec spec).records := by
  have hlinked : inputs.linkedProperties.Sublist (inputs.withSpec spec).linkedProperties := by
    rw [linkedProperties_eq, linkedProperties_eq]
    have hsame : ∀ property ∈ inputs.properties,
        (snapshot (inputs.withSpec spec).properties).expanded property.name =
          (snapshot inputs.properties).expanded property.name := fun property hproperty =>
      added.expanded_eq (nodup_names_properties _ _ _) hproperty
    rw [List.map_congr_left fun property hproperty => by rw [← hsame property hproperty]]
    exact added.sublist.map _
  exact (hlinked.map _).cons_cons _

/-- A contract whose spec has two rules, of which the first refers to the second. -/
def vault : Inputs where
  contractName := "Vault.sol"
  contract := "contract Vault \x7b function pay() external \x7b total -= 1; \x7d \x7d"
  specFile := "Vault.spec"
  spec := "rule paid \x7b pay(owed); \x7d\n\nrule owed \x7b\x7d"

/-- The spec of the vault with a rule in front of the first one, on the same line, and another one
between the two.  Both refer to the rules that were there. -/
def auditedSpec : String :=
  "rule all \x7b bad; owed; \x7d rule paid \x7b pay(owed); \x7d\n" ++
    "rule bad \x7b paid; \x7d\nrule owed \x7b\x7d"

theorem records_sublist_vault :
    AddsUnmentioned vault.properties (vault.withSpec auditedSpec).properties ∧
      vault.records.Sublist (vault.withSpec auditedSpec).records := by
  -- Without invariants, the candidates are those of the rules.
  have hrules : ∀ spec, candidatesOfKind .invariant spec = [] →
      candidates spec = candidatesOfKind .rule spec := fun spec h => by
    rw [candidates, h, List.merge_right]
  have hbefore : vault.properties =
      [⟨.rule, "paid", "Vault.spec", 1, 1, ["rule paid \x7b pay(owed); \x7d"], []⟩,
       ⟨.rule, "owed", "Vault.spec", 3, 3, ["rule owed \x7b\x7d"], []⟩] := by
    rw [Inputs.properties, Spec.properties, hrules _ (by decide +kernel)]
    decide +kernel
  have hafter : (vault.withSpec auditedSpec).properties =
      [⟨.rule, "all", "Vault.spec", 1, 1, ["rule all \x7b bad; owed; \x7d"], []⟩,
       ⟨.rule, "paid", "Vault.spec", 1, 1, ["rule paid \x7b pay(owed); \x7d"], []⟩,
       ⟨.rule, "bad", "Vault.spec", 2, 2, ["rule bad \x7b paid; \x7d"], []⟩,
       ⟨.rule, "owed", "Vault.spec", 3, 3, ["rule owed \x7b\x7d"], []⟩] := by
    rw [Inputs.properties, Spec.properties, hrules _ (by decide +kernel)]
    decide +kernel
  have added : AddsUnmentioned vault.properties (vault.withSpec auditedSpec).properties := by
    rw [hbefore, hafter]
    exact ⟨by decide +kernel, by decide +kernel⟩
  exact ⟨added, records_sublist vault auditedSpec added⟩

end Inputs

end PropertyIndex
