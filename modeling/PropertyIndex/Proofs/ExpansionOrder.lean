import Mathlib.Data.List.Forall2
import Mathlib.Logic.Function.Iterate
import PropertyIndex.Proofs.WalkAgreement

/-!
# The order of expanded lines

Which lines a property gets by expansion is a matter of what it reaches.  The inlined lines bring
mentions of their own into a property, but all that they mention is reached already, so a further
round of expansion can only put the lines in another order.  The order itself follows the list of
properties: where a line mentions several others, they are entered in the order of the list.

* `SameUpToOrder`: two versions of a property with the same lines.
* `IsSettled`, `isSettled_expand`: nothing is left to be brought in after one round.
* `sameUpToOrder_iterate_expand`: any number of rounds against a single one.
* `reaches_of_perm`, `sameUpToOrder_expand_perm`: the properties of a list in another order.
-/

namespace PropertyIndex

theorem forall₂_trans {α : Type} {R : α → α → Prop} (trans : ∀ a b c, R a b → R b c → R a c)
    {first second third : List α} (h : List.Forall₂ R first second)
    (h' : List.Forall₂ R second third) : List.Forall₂ R first third := by
  induction h generalizing third with
  | nil => exact h'
  | cons hab _ ih =>
    cases h' with
    | cons hbc hrest => exact List.Forall₂.cons (trans _ _ _ hab hbc) (ih hrest)

namespace Spec

variable {properties : List Property}

/-- Two versions of a property have the same lines, each as often, and differ in nothing else. -/
structure SameUpToOrder (first later : Property) : Prop where
  frame : later = { first with lines := later.lines }
  lines_perm : later.lines.Perm first.lines

namespace SameUpToOrder

theorem refl (property : Property) : SameUpToOrder property property :=
  ⟨rfl, List.Perm.refl _⟩

theorem trans {first second third : Property} (h : SameUpToOrder first second)
    (h' : SameUpToOrder second third) : SameUpToOrder first third where
  frame := by
    rw [h'.frame, h.frame]
  lines_perm := h'.lines_perm.trans h.lines_perm

end SameUpToOrder

/-! ## Expanded properties -/

/-- A property of a list with its lines after expansion. -/
theorem mem_expand {after : Property} : after ∈ expand properties ↔
    ∃ before ∈ properties,
      { before with lines := (snapshot properties).expanded before.name } = after :=
  List.mem_map

theorem names_expand (properties : List Property) :
    (expand properties).map Property.name = properties.map Property.name := by
  rw [expand, List.map_map]
  rfl

/-- Expansion writes the lines of everything that a property reaches. -/
theorem mem_expanded_iff (distinct : (properties.map Property.name).Nodup) {property : Property}
    (hproperty : property ∈ properties) {line : String} :
    line ∈ (snapshot properties).expanded property.name ↔
      ∃ other, Reaches properties property other ∧ line ∈ other.lines :=
  Snapshot.mem_expanded.trans (isLineBehind_iff distinct hproperty)

/-! ## Further rounds -/

/-- Another round has nothing to bring into the properties of a list: each one holds the lines of
those that it refers to, and none of them twice. -/
structure IsSettled (properties : List Property) : Prop where
  lines_subset : ∀ before after, Refers properties before after → after.lines ⊆ before.lines
  nodup : ∀ property ∈ properties, property.lines.Nodup

/-- In a settled list each property holds the lines of all that it reaches. -/
theorem IsSettled.lines_subset_of_reaches (settled : IsSettled properties)
    {before after : Property} (h : Reaches properties before after) :
    after.lines ⊆ before.lines := by
  induction h with
  | refl => exact List.Subset.refl _
  | tail _ hrefers ih =>
    exact List.Subset.trans (settled.lines_subset _ _ hrefers) ih

/-- After expansion a property refers only to what it has reached, so the list is settled. -/
theorem isSettled_expand (distinct : (properties.map Property.name).Nodup) :
    IsSettled (expand properties) where
  lines_subset := by
    rintro _ _ ⟨hone, hother, -, line, hline, hname⟩
    obtain ⟨before, hbefore, rfl⟩ := mem_expand.1 hone
    obtain ⟨after, hafter, rfl⟩ := mem_expand.1 hother
    -- The mention stands in a line of something that is reached.
    obtain ⟨between, hbetween, hmem⟩ := (mem_expanded_iff distinct hbefore).1 hline
    have hreaches : Reaches properties before after := by
      by_cases heq : between = after
      · exact heq ▸ hbetween
      · exact hbetween.tail ⟨mem_of_reaches hbetween hbefore, hafter, heq, line, hmem, hname⟩
    intro text htext
    obtain ⟨source, hsource, htext⟩ := (mem_expanded_iff distinct hafter).1 htext
    exact (mem_expanded_iff distinct hbefore).2 ⟨source, hreaches.trans hsource, htext⟩
  nodup := by
    intro property hproperty
    obtain ⟨before, -, rfl⟩ := mem_expand.1 hproperty
    exact Snapshot.nodup_expanded _

/-- Expansion puts the lines of a settled list at most in another order. -/
theorem IsSettled.sameUpToOrder_expand (settled : IsSettled properties)
    (distinct : (properties.map Property.name).Nodup) :
    List.Forall₂ SameUpToOrder properties (expand properties) := by
  rw [expand, List.forall₂_map_right_iff, List.forall₂_same]
  intro property hproperty
  have hmem : ∀ line, line ∈ (snapshot properties).expanded property.name ↔
      line ∈ property.lines := by
    intro line
    rw [mem_expanded_iff distinct hproperty]
    constructor
    · rintro ⟨other, hreaches, hline⟩
      exact settled.lines_subset_of_reaches hreaches hline
    · exact fun hline => ⟨property, Relation.ReflTransGen.refl, hline⟩
  exact ⟨rfl, (List.perm_ext_iff_of_nodup (Snapshot.nodup_expanded _)
    (settled.nodup property hproperty)).2 hmem⟩

theorem names_iterate_expand (properties : List Property) (rounds : Nat) :
    (expand^[rounds] properties).map Property.name = properties.map Property.name := by
  induction rounds with
  | zero => rfl
  | succ rounds ih => rw [Function.iterate_succ_apply', names_expand, ih]

/-- From the first round on the list is settled. -/
theorem isSettled_iterate_expand (distinct : (properties.map Property.name).Nodup) {rounds : Nat}
    (hrounds : 1 ≤ rounds) : IsSettled (expand^[rounds] properties) := by
  obtain ⟨earlier, rfl⟩ := Nat.exists_eq_add_of_le' hrounds
  rw [Function.iterate_succ_apply']
  exact isSettled_expand (names_iterate_expand properties earlier ▸ distinct)

/-- Any number of rounds of expansion, but none at all, gives the properties the lines that a single
round gives them, at most in another order. -/
theorem sameUpToOrder_iterate_expand (properties : List Property)
    (distinct : (properties.map Property.name).Nodup) {rounds : Nat} (hrounds : 1 ≤ rounds) :
    List.Forall₂ SameUpToOrder (expand properties) (expand^[rounds] properties) := by
  induction rounds, hrounds using Nat.le_induction with
  | base => exact List.forall₂_same.2 fun property _ => SameUpToOrder.refl property
  | succ rounds hrounds ih =>
    -- The list after these rounds is settled, so one more only moves lines.
    have hround := (isSettled_iterate_expand distinct hrounds).sameUpToOrder_expand
      (names_iterate_expand properties rounds ▸ distinct)
    rw [Function.iterate_succ_apply']
    exact forall₂_trans (R := SameUpToOrder) (fun _ _ _ => SameUpToOrder.trans) ih hround

/-- A third round on two rules that refer to each other and an invariant that one of them uses. -/
theorem sameUpToOrder_iterate_expand_circle :
    (circle.map Property.name).Nodup ∧ 1 ≤ 3 ∧
      List.Forall₂ SameUpToOrder (expand circle) (expand^[3] circle) :=
  ⟨by decide, by decide, sameUpToOrder_iterate_expand circle (by decide) (by decide)⟩

/-! ## The order of the properties -/

section

variable {reordered : List Property}

/-- What a property reaches is the same in every order of the list. -/
theorem reaches_of_perm (perm : properties.Perm reordered) :
    Reaches reordered = Reaches properties := by
  have hrefers : Refers reordered = Refers properties := by
    funext before after
    rw [Refers, Refers, perm.mem_iff, perm.mem_iff]
  rw [Reaches, Reaches, hrefers]

/-- The order of the properties in a list has no influence on which lines a property gets.  It has
none on their order either, if the names that may be entered from the property keep their order. -/
theorem sameUpToOrder_expand_perm (distinct : (properties.map Property.name).Nodup)
    (perm : properties.Perm reordered) :
    ∀ property ∈ properties, ∃ one ∈ expand properties, ∃ other ∈ expand reordered,
      one.name = property.name ∧ other.name = property.name ∧ SameUpToOrder one other ∧
        (SameOrderBehind properties reordered property → other = one) := by
  intro property hproperty
  have distinct' : (reordered.map Property.name).Nodup := (perm.map _).nodup_iff.1 distinct
  have hproperty' : property ∈ reordered := perm.mem_iff.1 hproperty
  refine ⟨_, mem_expand.2 ⟨property, hproperty, rfl⟩, _, mem_expand.2 ⟨property, hproperty', rfl⟩,
    rfl, rfl, ⟨rfl, ?_⟩, fun h => ?_⟩
  · refine (List.perm_ext_iff_of_nodup (Snapshot.nodup_expanded _)
      (Snapshot.nodup_expanded _)).2 fun line => ?_
    rw [mem_expanded_iff distinct hproperty, mem_expanded_iff distinct' hproperty',
      reaches_of_perm perm]
  · rw [expanded_eq_of_sameOrderBehind distinct distinct' perm.subset hproperty h]

end

/-- A rule that refers to two others in one line. -/
def forkRule : Property :=
  ⟨.rule, "both", "Vault.spec", 1, 1, ["rule both \x7b left; right; \x7d"], []⟩

/-- The rule with the two that it refers to. -/
def fork : List Property :=
  [forkRule, ⟨.rule, "left", "Vault.spec", 2, 2, ["rule left \x7b\x7d"], []⟩,
   ⟨.rule, "right", "Vault.spec", 3, 3, ["rule right \x7b\x7d"], []⟩]

/-- The same rules with the two that are referred to in the other order. -/
def reorderedFork : List Property :=
  [forkRule, ⟨.rule, "right", "Vault.spec", 3, 3, ["rule right \x7b\x7d"], []⟩,
   ⟨.rule, "left", "Vault.spec", 2, 2, ["rule left \x7b\x7d"], []⟩]

theorem sameUpToOrder_expand_perm_fork :
    (fork.map Property.name).Nodup ∧ fork.Perm reorderedFork ∧
      ∀ property ∈ fork, ∃ one ∈ expand fork, ∃ other ∈ expand reorderedFork,
        one.name = property.name ∧ other.name = property.name ∧ SameUpToOrder one other ∧
          (SameOrderBehind fork reorderedFork property → other = one) :=
  ⟨by decide, by decide, sameUpToOrder_expand_perm (by decide) (by decide)⟩

/-- A walk enters the two rules in the order of the list. -/
theorem stepsFrom_fork :
    (snapshot fork).stepsFrom "both" =
        [.wrote "rule both \x7b left; right; \x7d", .entered "left", .wrote "rule left \x7b\x7d",
          .entered "right", .wrote "rule right \x7b\x7d"] ∧
      (snapshot reorderedFork).stepsFrom "both" =
        [.wrote "rule both \x7b left; right; \x7d", .entered "right", .wrote "rule right \x7b\x7d",
          .entered "left", .wrote "rule left \x7b\x7d"] := by
  have hleft : mentions "rule both \x7b left; right; \x7d" "left" = true := by decide
  have hright : mentions "rule both \x7b left; right; \x7d" "right" = true := by decide
  have hnone : mentions "rule left \x7b\x7d" "right" = false := by decide
  have hnone' : mentions "rule right \x7b\x7d" "left" = false := by decide
  constructor <;>
    simp [fork, reorderedFork, forkRule, snapshot, Snapshot.stepsFrom, Snapshot.walk,
      Snapshot.tasksOf, Snapshot.linesOf, Snapshot.names, Snapshot.without, List.lookup_cons,
      hleft, hright, hnone, hnone']

/-- The order of the properties in a list does decide on the order of the expanded lines. -/
theorem not_forall_lines_eq_of_perm :
    ¬ ∀ properties reordered : List Property, (properties.map Property.name).Nodup →
      properties.Perm reordered → ∀ one ∈ expand properties, ∀ other ∈ expand reordered,
        one.name = other.name → one.lines = other.lines := by
  intro h
  have heq : (snapshot fork).expanded "both" = (snapshot reorderedFork).expanded "both" :=
    h fork reorderedFork (by decide) (by decide)
      _ (mem_expand.2 ⟨forkRule, List.mem_cons_self, rfl⟩)
      _ (mem_expand.2 ⟨forkRule, List.mem_cons_self, rfl⟩) rfl
  rw [Snapshot.expanded, Snapshot.expanded, stepsFrom_fork.1, stepsFrom_fork.2] at heq
  exact absurd heq (by decide)

end Spec

end PropertyIndex
