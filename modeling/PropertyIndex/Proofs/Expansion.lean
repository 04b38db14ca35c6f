import Mathlib.Data.List.Nodup
import Mathlib.Logic.Relation
import PropertyIndex.KeyedList
import PropertyIndex.Proofs.Occurrence
import PropertyIndex.Spec.CrossReference

/-!
# What expansion writes

The walk of an expansion shares one list of properties that may still be entered between all lines
and all levels.  Nothing is lost by that: a property that a written line mentions is entered
somewhere in the walk, wherever it was entered first, and all of its lines are written there.  So
the lines of an expanded property are those of all the properties that it reaches.

* `Snapshot.Refers`, `Snapshot.Reaches`: one name leads to another through a line.
* `Snapshot.wrote_of_line`, `Snapshot.wrote_of_entered`, `Snapshot.entered_of_wrote`: what a walk
  cannot leave out.
* `Snapshot.justified_of_mem_walk`: what a walk does has a reason.
* `Snapshot.mem_expanded`: the lines of an expanded property.
* `Refers`, `Reaches`: the same relations between properties.
* `IsExpansion`, `isExpansion_expand`: what expansion makes of a list of properties.
-/

namespace PropertyIndex.Spec

open Text

theorem mentions_iff {line name : String} :
    mentions line name = true ↔ name.toList <:+: line.toList :=
  contains_iff

/-- The text that a task is about. -/
def Task.text : Task → String
  | .line text => text
  | .mention text _ => text

namespace Snapshot

variable {snapshot : Snapshot}

theorem mem_without {names : List String} {name other : String} :
    other ∈ without names name ↔ other ∈ names ∧ other ≠ name := by
  rw [without, List.mem_filter, bne_iff_ne]

theorem mem_tasksOf {name : String} {task : Task} :
    task ∈ snapshot.tasksOf name ↔ ∃ text ∈ snapshot.linesOf name, Task.line text = task :=
  List.mem_map

/-! ## What a walk cannot leave out -/

/-- Every line that is still to be written is written. -/
theorem wrote_of_line {fresh : List String} {tasks : List Task} {text : String}
    (h : Task.line text ∈ tasks) : Step.wrote text ∈ snapshot.walk fresh tasks := by
  fun_induction Snapshot.walk snapshot fresh tasks with
  | case1 => exact absurd h List.not_mem_nil
  | case2 fresh other tasks ih =>
    rcases List.mem_cons.1 h with heq | hmem
    · rw [Task.line.inj heq]
      exact List.mem_cons_self
    · exact List.mem_cons_of_mem _ (ih (List.mem_append_right _ hmem))
  | case3 fresh other name tasks _ ih =>
    have hmem : Task.line text ∈ tasks := by simpa using h
    exact List.mem_cons_of_mem _ (ih (List.mem_append_right _ hmem))
  | case4 fresh other name tasks _ ih =>
    exact ih (by simpa using h)

/-- Every line of a property that is entered is written. -/
theorem wrote_of_entered {fresh : List String} {tasks : List Task} {name text : String}
    (hentered : Step.entered name ∈ snapshot.walk fresh tasks)
    (htext : text ∈ snapshot.linesOf name) : Step.wrote text ∈ snapshot.walk fresh tasks := by
  fun_induction Snapshot.walk snapshot fresh tasks with
  | case1 => exact absurd hentered List.not_mem_nil
  | case2 fresh other tasks ih =>
    exact List.mem_cons_of_mem _ (ih (by simpa using hentered))
  | case3 fresh other entered tasks _ ih =>
    refine List.mem_cons_of_mem _ ?_
    rcases List.mem_cons.1 hentered with heq | hmem
    · rw [← Step.entered.inj heq]
      exact wrote_of_line (List.mem_append_left _ (mem_tasksOf.2 ⟨text, htext, rfl⟩))
    · exact ih hmem
  | case4 fresh other name tasks _ ih => exact ih hentered

/-- A property is entered if it may be and a mention of it is still to be looked for in a line
that has one. -/
theorem entered_of_mention {fresh : List String} {tasks : List Task} {name text : String}
    (hfresh : name ∈ fresh) (htask : Task.mention text name ∈ tasks)
    (hmentions : mentions text name = true) :
    Step.entered name ∈ snapshot.walk fresh tasks := by
  fun_induction Snapshot.walk snapshot fresh tasks with
  | case1 => exact absurd htask List.not_mem_nil
  | case2 fresh other tasks ih =>
    have hmem : Task.mention text name ∈ tasks := by simpa using htask
    exact List.mem_cons_of_mem _ (ih hfresh (List.mem_append_right _ hmem))
  | case3 fresh other entered tasks _ ih =>
    by_cases heq : name = entered
    · rw [heq]
      exact List.mem_cons_self
    · have hmem : Task.mention text name ∈ tasks := by
        rcases List.mem_cons.1 htask with h | h
        · exact absurd (Task.mention.inj h).2 heq
        · exact h
      exact List.mem_cons_of_mem _
        (ih (mem_without.2 ⟨hfresh, heq⟩) (List.mem_append_right _ hmem))
  | case4 fresh other skipped tasks hskip ih =>
    rcases List.mem_cons.1 htask with h | h
    · obtain ⟨rfl, rfl⟩ := Task.mention.inj h
      refine absurd ?_ hskip
      rw [Bool.and_eq_true]
      exact ⟨List.contains_iff_mem.2 hfresh, hmentions⟩
    · exact ih hfresh h

/-- A property is entered if it may be and a line that is written mentions it. -/
theorem entered_of_wrote {fresh : List String} {tasks : List Task} {name text : String}
    (hfresh : name ∈ fresh) (hname : name ∈ snapshot.names)
    (hwrote : Step.wrote text ∈ snapshot.walk fresh tasks)
    (hmentions : mentions text name = true) :
    Step.entered name ∈ snapshot.walk fresh tasks := by
  fun_induction Snapshot.walk snapshot fresh tasks with
  | case1 => exact absurd hwrote List.not_mem_nil
  | case2 fresh line tasks ih =>
    refine List.mem_cons_of_mem _ ?_
    rcases List.mem_cons.1 hwrote with heq | hmem
    · -- The line at hand: its mentions are looked for next.
      obtain rfl := Step.wrote.inj heq
      exact entered_of_mention hfresh
        (List.mem_append_left _ (List.mem_map.2 ⟨name, hname, rfl⟩)) hmentions
    · exact ih hfresh hmem
  | case3 fresh line entered tasks _ ih =>
    by_cases heq : name = entered
    · rw [heq]
      exact List.mem_cons_self
    · exact List.mem_cons_of_mem _
        (ih (mem_without.2 ⟨hfresh, heq⟩) (by simpa using hwrote))
  | case4 fresh line skipped tasks _ ih => exact ih hfresh hwrote

/-! ## What a walk does -/

/-- A line of the first name mentions the second one. -/
def Refers (snapshot : Snapshot) (name other : String) : Prop :=
  other ∈ snapshot.names ∧ name ≠ other ∧
    ∃ line ∈ snapshot.linesOf name, mentions line other = true

/-- The first name leads to the second one through mentions. -/
def Reaches (snapshot : Snapshot) : String → String → Prop :=
  Relation.ReflTransGen snapshot.Refers

/-- A line of something that a name leads to. -/
def IsLineBehind (snapshot : Snapshot) (name line : String) : Prop :=
  ∃ other, snapshot.Reaches name other ∧ line ∈ snapshot.linesOf other

/-- A step that a walk from a name may take. -/
def Justified (snapshot : Snapshot) (name : String) : Step → Prop
  | .wrote text => snapshot.IsLineBehind name text
  | .entered other => snapshot.Reaches name other

/-- What is mentioned in a line behind a name is reached from it. -/
theorem reaches_of_isLineBehind {name other line : String} (hline : snapshot.IsLineBehind name line)
    (hother : other ∈ snapshot.names) (hmentions : mentions line other = true) :
    snapshot.Reaches name other := by
  obtain ⟨between, hreaches, hmem⟩ := hline
  by_cases heq : between = other
  · rw [← heq]
    exact hreaches
  · exact hreaches.tail ⟨hother, heq, line, hmem, hmentions⟩

/-- A walk whose tasks are about lines behind a name takes only steps that are justified by that
name. -/
theorem justified_of_mem_walk {name : String} {fresh : List String} {tasks : List Task}
    (hfresh : fresh ⊆ snapshot.names)
    (htasks : ∀ task ∈ tasks, snapshot.IsLineBehind name task.text) {step : Step}
    (hstep : step ∈ snapshot.walk fresh tasks) : snapshot.Justified name step := by
  fun_induction Snapshot.walk snapshot fresh tasks with
  | case1 => exact absurd hstep List.not_mem_nil
  | case2 fresh line tasks ih =>
    have hline : snapshot.IsLineBehind name line := htasks _ List.mem_cons_self
    rcases List.mem_cons.1 hstep with rfl | hmem
    · exact hline
    · refine ih hfresh (fun task htask => ?_) hmem
      rcases List.mem_append.1 htask with h | h
      · obtain ⟨other, -, rfl⟩ := List.mem_map.1 h
        exact hline
      · exact htasks _ (List.mem_cons_of_mem _ h)
  | case3 fresh line other tasks henter ih =>
    rw [Bool.and_eq_true, List.contains_iff_mem] at henter
    have hreaches : snapshot.Reaches name other :=
      reaches_of_isLineBehind (htasks _ List.mem_cons_self) (hfresh henter.1) henter.2
    rcases List.mem_cons.1 hstep with rfl | hmem
    · exact hreaches
    · refine ih (fun x hx => hfresh (mem_without.1 hx).1) (fun task htask => ?_) hmem
      rcases List.mem_append.1 htask with h | h
      · obtain ⟨text, htext, rfl⟩ := mem_tasksOf.1 h
        exact ⟨other, hreaches, htext⟩
      · exact htasks _ (List.mem_cons_of_mem _ h)
  | case4 fresh line other tasks _ ih =>
    exact ih hfresh (fun task htask => htasks _ (List.mem_cons_of_mem _ htask)) hstep

/-! ## The lines of an expanded property -/

theorem mem_stepsFrom_wrote {name line : String} (h : line ∈ snapshot.linesOf name) :
    Step.wrote line ∈ snapshot.stepsFrom name :=
  wrote_of_line (mem_tasksOf.2 ⟨line, h, rfl⟩)

/-- The walk from a name enters everything that the name reaches, itself apart. -/
theorem eq_or_entered_of_reaches {name other : String} (h : snapshot.Reaches name other) :
    other = name ∨ Step.entered other ∈ snapshot.stepsFrom name := by
  induction h with
  | refl => exact Or.inl rfl
  | @tail between other _ hrefers ih =>
    obtain ⟨hother, -, line, hline, hmentions⟩ := hrefers
    by_cases heq : other = name
    · exact Or.inl heq
    · have hwrote : Step.wrote line ∈ snapshot.stepsFrom name := by
        rcases ih with rfl | hentered
        · exact mem_stepsFrom_wrote hline
        · exact wrote_of_entered hentered hline
      exact Or.inr (entered_of_wrote (mem_without.2 ⟨hother, heq⟩) hother hwrote hmentions)

/-- The walk from a name writes exactly the lines of everything that the name reaches. -/
theorem wrote_mem_stepsFrom {name line : String} :
    Step.wrote line ∈ snapshot.stepsFrom name ↔ snapshot.IsLineBehind name line := by
  constructor
  · intro h
    refine justified_of_mem_walk (fun x hx => (mem_without.1 hx).1) (fun task htask => ?_) h
    obtain ⟨text, htext, rfl⟩ := mem_tasksOf.1 htask
    exact ⟨name, Relation.ReflTransGen.refl, htext⟩
  · rintro ⟨other, hreaches, hline⟩
    rcases eq_or_entered_of_reaches hreaches with rfl | hentered
    · exact mem_stepsFrom_wrote hline
    · exact wrote_of_entered hentered hline

theorem mem_filterMap_line {steps : List Step} {line : String} :
    line ∈ steps.filterMap Step.line? ↔ Step.wrote line ∈ steps := by
  rw [List.mem_filterMap]
  constructor
  · rintro ⟨_ | _, hmem, heq⟩
    · rw [← Option.some.inj heq]
      exact hmem
    · exact absurd heq (by simp [Step.line?])
  · exact fun h => ⟨_, h, rfl⟩

/-- The lines of an expanded property are those of everything that it reaches. -/
theorem mem_expanded {name line : String} :
    line ∈ snapshot.expanded name ↔ snapshot.IsLineBehind name line := by
  rw [expanded, List.mem_eraseDups, mem_filterMap_line, wrote_mem_stepsFrom]

theorem nodup_eraseDups : ∀ lines : List String, lines.eraseDups.Nodup
  | [] => List.nodup_nil
  | line :: lines => by
    rw [List.eraseDups_cons, List.nodup_cons, List.mem_eraseDups]
    refine ⟨fun h => ?_, nodup_eraseDups _⟩
    simpa using (List.mem_filter.1 h).2
termination_by lines => lines.length
decreasing_by exact Nat.lt_succ_of_le (List.length_filter_le _ _)

theorem nodup_expanded (name : String) : (snapshot.expanded name).Nodup :=
  nodup_eraseDups _

/-- The first line of a property stays first. -/
theorem head?_expanded {name : String} (h : snapshot.linesOf name ≠ []) :
    (snapshot.expanded name).head? = (snapshot.linesOf name).head? := by
  obtain ⟨line, lines, hlines⟩ := List.exists_cons_of_ne_nil h
  rw [expanded, stepsFrom, tasksOf, hlines, List.map_cons, walk, List.filterMap_cons,
    Step.line?, List.eraseDups_cons, List.head?_cons, List.head?_cons]

end Snapshot

/-! ## Expansion of a list of properties -/

section

variable {properties : List Property}

/-- One property of a list refers to another one: some line of the first has the name of the
second as a stretch. -/
def Refers (properties : List Property) (before after : Property) : Prop :=
  before ∈ properties ∧ after ∈ properties ∧ before ≠ after ∧
    ∃ line ∈ before.lines, after.name.toList <:+: line.toList

/-- The first property leads to the second one through references. -/
def Reaches (properties : List Property) : Property → Property → Prop :=
  Relation.ReflTransGen (Refers properties)

theorem names_snapshot : (snapshot properties).names = properties.map Property.name := by
  rw [Snapshot.names, snapshot, List.map_map]
  rfl

theorem eq_of_name_eq (distinct : (properties.map Property.name).Nodup) {one other : Property}
    (hone : one ∈ properties) (hother : other ∈ properties) (h : one.name = other.name) :
    one = other :=
  List.inj_on_of_nodup_map distinct hone hother h

/-- In a list without repeated names, each name stands for the lines of its property. -/
theorem linesOf_snapshot (distinct : (properties.map Property.name).Nodup) {property : Property}
    (h : property ∈ properties) : (snapshot properties).linesOf property.name = property.lines := by
  have hmem : (property.name, property.lines) ∈ (snapshot properties).reverse :=
    List.mem_reverse.2 (List.mem_map_of_mem (f := fun p : Property => (p.name, p.lines)) h)
  have hdistinct : ((snapshot properties).reverse.map Prod.fst).Nodup := by
    rw [List.map_reverse, List.nodup_reverse, ← Snapshot.names, names_snapshot]
    exact distinct
  rw [Snapshot.linesOf, (lookup_eq_some_iff_mem hdistinct).2 hmem, Option.getD_some]

/-- References between properties are references between their names. -/
theorem refers_iff (distinct : (properties.map Property.name).Nodup) {before after : Property}
    (hbefore : before ∈ properties) (hafter : after ∈ properties) :
    Refers properties before after ↔ (snapshot properties).Refers before.name after.name := by
  have hname : after.name ∈ (snapshot properties).names := by
    rw [names_snapshot]
    exact List.mem_map_of_mem hafter
  have hne : before ≠ after ↔ before.name ≠ after.name :=
    not_congr ⟨congrArg Property.name, eq_of_name_eq distinct hbefore hafter⟩
  simp only [Refers, Snapshot.Refers, linesOf_snapshot distinct hbefore, mentions_iff, hne,
    hbefore, hafter, hname, true_and]

theorem mem_of_reaches {before after : Property} (h : Reaches properties before after)
    (hbefore : before ∈ properties) : after ∈ properties := by
  induction h with
  | refl => exact hbefore
  | tail _ hrefers _ => exact hrefers.2.1

theorem reaches_name (distinct : (properties.map Property.name).Nodup) {before after : Property}
    (h : Reaches properties before after) :
    (snapshot properties).Reaches before.name after.name :=
  Relation.ReflTransGen.lift Property.name
    (fun _ _ hrefers => (refers_iff distinct hrefers.1 hrefers.2.1).1 hrefers) _ _ h

/-- A name that is reached belongs to a property that is reached. -/
theorem exists_of_reaches_name (distinct : (properties.map Property.name).Nodup)
    {before : Property} (hbefore : before ∈ properties) {name : String}
    (h : (snapshot properties).Reaches before.name name) :
    ∃ after, Reaches properties before after ∧ after.name = name := by
  induction h with
  | refl => exact ⟨before, Relation.ReflTransGen.refl, rfl⟩
  | @tail _ name _ hrefers ih =>
    obtain ⟨between, hreaches, rfl⟩ := ih
    have hname : name ∈ properties.map Property.name := names_snapshot ▸ hrefers.1
    obtain ⟨after, hafter, rfl⟩ := List.mem_map.1 hname
    exact ⟨after, hreaches.tail
      ((refers_iff distinct (mem_of_reaches hreaches hbefore) hafter).2 hrefers), rfl⟩

/-- The lines behind the name of a property are those of all the properties that it reaches. -/
theorem isLineBehind_iff (distinct : (properties.map Property.name).Nodup) {property : Property}
    (hproperty : property ∈ properties) {line : String} :
    (snapshot properties).IsLineBehind property.name line ↔
      ∃ other, Reaches properties property other ∧ line ∈ other.lines := by
  constructor
  · rintro ⟨name, hreaches, hline⟩
    obtain ⟨other, hother, rfl⟩ := exists_of_reaches_name distinct hproperty hreaches
    rw [linesOf_snapshot distinct (mem_of_reaches hother hproperty)] at hline
    exact ⟨other, hother, hline⟩
  · rintro ⟨other, hother, hline⟩
    refine ⟨other.name, reaches_name distinct hother, ?_⟩
    rwa [linesOf_snapshot distinct (mem_of_reaches hother hproperty)]

/-- What expansion makes of a property of a list. -/
structure IsExpansion (properties : List Property) (before after : Property) : Prop where
  /-- Only the lines are changed. -/
  frame : after = { before with lines := after.lines }
  nodup : after.lines.Nodup
  /-- The lines are those of the properties that the property reaches, itself included. -/
  mem_lines : ∀ line, line ∈ after.lines ↔
    ∃ other, Reaches properties before other ∧ line ∈ other.lines
  head : before.lines ≠ [] → after.lines.head? = before.lines.head?

/-- Expansion goes through a list of properties with distinct names in order and writes into each
one the lines of all the properties that it reaches, each line once. -/
theorem isExpansion_expand (properties : List Property)
    (distinct : (properties.map Property.name).Nodup) :
    List.Forall₂ (IsExpansion properties) properties (expand properties) := by
  rw [expand, List.forall₂_map_right_iff, List.forall₂_same]
  intro property hproperty
  exact
    { frame := rfl
      nodup := Snapshot.nodup_expanded _
      mem_lines := fun line => Snapshot.mem_expanded.trans (isLineBehind_iff distinct hproperty)
      head := fun h => by
        rw [← linesOf_snapshot distinct hproperty] at h ⊢
        exact Snapshot.head?_expanded h }

/-- Two rules that refer to each other, and to themselves, and an invariant that one of them
uses. -/
def circle : List Property :=
  [⟨.rule, "ping", "Vault.spec", 1, 3, ["rule ping", "  pong", "\x7d"], []⟩,
   ⟨.rule, "pong", "Vault.spec", 4, 6, ["rule pong", "  ping; solvent", "\x7d"], []⟩,
   ⟨.invariant, "solvent", "Vault.spec", 7, 7, ["invariant solvent() x > 0;"], []⟩]

theorem isExpansion_expand_circle :
    (circle.map Property.name).Nodup ∧
      List.Forall₂ (IsExpansion circle) circle (expand circle) :=
  ⟨by decide, isExpansion_expand circle (by decide)⟩

end

end PropertyIndex.Spec
