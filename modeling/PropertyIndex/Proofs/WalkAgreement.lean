import PropertyIndex.Proofs.Expansion

/-!
# Walks over snapshots that agree

A walk looks in every line that it writes for a mention of every property, and most of these tasks
are idle: the mention is not there, or the property has been entered before.  What counts of a
snapshot are the lines of the properties that are reached, and the order of the other names in each
of these lines.  Where two snapshots agree on that much, they lead to the same walk, however many
properties the rest of them holds and in which order.

* `Task.isLive`, `Snapshot.walk_idle_append`: the tasks that have an effect.
* `Snapshot.othersIn`: the names in a line, without those that are known.
* `Snapshot.AgreeBehind`: agreement on all that a name reaches.
* `Snapshot.FreshAgree`: agreement on what may still be entered.
* `Snapshot.walk_eq_of_agreeBehind`, `Snapshot.expanded_eq_of_agreeBehind`: walks and expanded
  lines over snapshots that agree.
* `SameOrderBehind`, `expanded_eq_of_sameOrderBehind`: the same for two lists of properties.
-/

namespace PropertyIndex.Spec

open Text

namespace Task

/-- Whether a task has an effect while the given properties may be entered. -/
def isLive (fresh : List String) : Task → Bool
  | .line _ => true
  | .mention text name => fresh.contains name && mentions text name

/-- The property that a task may enter. -/
def name? : Task → Option String
  | .line _ => none
  | .mention _ name => some name

/-- Entering a property makes the tasks idle that may enter it, and no others. -/
theorem isLive_without (fresh : List String) (entered : String) (task : Task) :
    task.isLive (Snapshot.without fresh entered) =
      (task.name? != some entered && task.isLive fresh) := by
  cases task with
  | line text => rfl
  | mention text name =>
    have hcontains : (Snapshot.without fresh entered).contains name =
        (name != entered && fresh.contains name) := by
      rw [Bool.eq_iff_iff, List.contains_iff_mem, Snapshot.mem_without, Bool.and_eq_true,
        List.contains_iff_mem, bne_iff_ne, and_comm]
    have hname : ((Task.mention text name).name? != some entered) = (name != entered) := rfl
    rw [isLive, isLive, hcontains, hname, Bool.and_assoc]

theorem filter_isLive_without (fresh : List String) (entered : String) (tasks : List Task) :
    tasks.filter (isLive (Snapshot.without fresh entered)) =
      (tasks.filter (isLive fresh)).filter fun task => task.name? != some entered := by
  rw [List.filter_filter]
  exact List.filter_congr fun task _ => isLive_without fresh entered task

end Task

namespace Snapshot

variable {one other : Snapshot} {start : String}

/-! ## Live and idle tasks -/

/-- The tasks that come with entering a property are all live. -/
theorem filter_isLive_tasksOf (snapshot : Snapshot) (fresh : List String) (name : String) :
    (snapshot.tasksOf name).filter (Task.isLive fresh) = snapshot.tasksOf name := by
  refine List.filter_eq_self.2 fun task htask => ?_
  obtain ⟨line, -, rfl⟩ := mem_tasksOf.1 htask
  rfl

/-- A walk enters the property of a live mention. -/
theorem walk_live_cons (snapshot : Snapshot) {fresh : List String} {line name : String}
    (h : (Task.mention line name).isLive fresh = true) (tasks : List Task) :
    snapshot.walk fresh (.mention line name :: tasks) =
      .entered name :: snapshot.walk (without fresh name) (snapshot.tasksOf name ++ tasks) := by
  rw [walk]
  exact if_pos h

/-- A walk passes over idle tasks. -/
theorem walk_idle_append (snapshot : Snapshot) {fresh : List String} {idle : List Task}
    (h : ∀ task ∈ idle, ¬ task.isLive fresh = true) (tasks : List Task) :
    snapshot.walk fresh (idle ++ tasks) = snapshot.walk fresh tasks := by
  induction idle with
  | nil => rw [List.nil_append]
  | cons task idle ih =>
    have hidle : ¬ task.isLive fresh = true := h task List.mem_cons_self
    cases task with
    | line text => exact absurd rfl hidle
    | mention text name =>
      have hskip : ¬ (fresh.contains name && mentions text name) = true := hidle
      rw [List.cons_append, walk, if_neg hskip,
        ih fun task htask => h task (List.mem_cons_of_mem _ htask)]

/-- A walk takes up the first live one of its tasks. -/
theorem exists_walk_eq_of_filter_eq_cons {fresh : List String} {tasks rest : List Task}
    {task : Task} (h : tasks.filter (Task.isLive fresh) = task :: rest) :
    ∃ behind, task.isLive fresh = true ∧ behind.filter (Task.isLive fresh) = rest ∧
      ∀ snapshot : Snapshot, snapshot.walk fresh tasks = snapshot.walk fresh (task :: behind) := by
  obtain ⟨idle, behind, rfl, hidle, hlive, hbehind⟩ := List.filter_eq_cons_iff.1 h
  exact ⟨behind, hlive, hbehind, fun snapshot => walk_idle_append snapshot hidle _⟩

/-! ## Agreement -/

/-- The names that a line mentions, in the order of the snapshot and without those in `known`. -/
def othersIn (snapshot : Snapshot) (known : List String) (line : String) : List String :=
  snapshot.names.filter fun name => !known.contains name && mentions line name

/-- The live tasks that look for mentions in a line, when the names in `known` have been entered. -/
theorem filter_isLive_mentions (snapshot : Snapshot) {known fresh : List String} (line : String)
    (h : ∀ name ∈ known, name ∉ fresh) :
    (snapshot.names.map (Task.mention line)).filter (Task.isLive fresh) =
      ((snapshot.othersIn known line).filter fresh.contains).map (Task.mention line) := by
  rw [List.filter_map, othersIn, List.filter_filter]
  refine congrArg _ (List.filter_congr fun name _ => ?_)
  show (fresh.contains name && mentions line name) =
    (fresh.contains name && (!known.contains name && mentions line name))
  by_cases hname : name ∈ fresh
  · have hknown : name ∉ known := fun hmem => h name hmem hname
    simp [hknown]
  · simp [hname]

/-- Two snapshots agree on all that a name reaches in the first one: the properties reached have
the same lines, and each of these lines mentions the same names in the same order.  The name at the
start and the property that the line belongs to do not count, since both have been entered. -/
structure AgreeBehind (one other : Snapshot) (start : String) : Prop where
  linesOf_eq : ∀ owner, one.Reaches start owner → other.linesOf owner = one.linesOf owner
  othersIn_eq : ∀ owner, one.Reaches start owner → ∀ line ∈ one.linesOf owner,
    other.othersIn [start, owner] line = one.othersIn [start, owner] line

theorem AgreeBehind.tasksOf_eq (agree : AgreeBehind one other start) {owner : String}
    (h : one.Reaches start owner) : other.tasksOf owner = one.tasksOf owner := by
  rw [tasksOf, agree.linesOf_eq owner h, tasksOf]

/-- The properties that may still be entered in two walks from one name are the same, as far as
lines behind that name bring them in. -/
structure FreshAgree (snapshot : Snapshot) (start : String) (fresh fresh' : List String) :
    Prop where
  subset_names : fresh ⊆ snapshot.names
  start_notMem : start ∉ fresh ∧ start ∉ fresh'
  mem_iff : ∀ owner, snapshot.Reaches start owner → ∀ line ∈ snapshot.linesOf owner,
    ∀ name ∈ snapshot.othersIn [start, owner] line, name ∈ fresh ↔ name ∈ fresh'

/-- A line belongs to a property that has been entered in both walks. -/
def IsOwned (snapshot : Snapshot) (start : String) (fresh fresh' : List String) (line : String) :
    Prop :=
  ∃ owner, snapshot.Reaches start owner ∧ line ∈ snapshot.linesOf owner ∧
    owner ∉ fresh ∧ owner ∉ fresh'

section

variable {fresh fresh' : List String}

theorem FreshAgree.without (h : FreshAgree one start fresh fresh') (entered : String) :
    FreshAgree one start (without fresh entered) (without fresh' entered) where
  subset_names _ hname := h.subset_names (mem_without.1 hname).1
  start_notMem := ⟨fun hstart => h.start_notMem.1 (mem_without.1 hstart).1,
    fun hstart => h.start_notMem.2 (mem_without.1 hstart).1⟩
  mem_iff owner howner line hline name hname := by
    rw [mem_without, mem_without, h.mem_iff owner howner line hline name hname]

theorem IsOwned.without {line : String} (h : IsOwned one start fresh fresh' line)
    (entered : String) :
    IsOwned one start (without fresh entered) (without fresh' entered) line := by
  obtain ⟨owner, howner, hline, hfresh, hfresh'⟩ := h
  exact ⟨owner, howner, hline, fun hmem => hfresh (mem_without.1 hmem).1,
    fun hmem => hfresh' (mem_without.1 hmem).1⟩

/-- A line of a property that has been entered brings the same properties into both walks. -/
theorem AgreeBehind.filter_isLive_eq (agree : AgreeBehind one other start)
    (hfresh : FreshAgree one start fresh fresh') {line : String}
    (hline : IsOwned one start fresh fresh' line) :
    (other.names.map (Task.mention line)).filter (Task.isLive fresh') =
      (one.names.map (Task.mention line)).filter (Task.isLive fresh) := by
  obtain ⟨owner, howner, hmem, hold, hold'⟩ := hline
  have hknown : ∀ name ∈ [start, owner], name ∉ fresh := by simp [hfresh.start_notMem.1, hold]
  have hknown' : ∀ name ∈ [start, owner], name ∉ fresh' := by simp [hfresh.start_notMem.2, hold']
  rw [filter_isLive_mentions other line hknown', filter_isLive_mentions one line hknown,
    agree.othersIn_eq owner howner line hmem]
  refine congrArg _ (List.filter_congr fun name hname => ?_)
  rw [Bool.eq_iff_iff, List.contains_iff_mem, List.contains_iff_mem]
  exact (hfresh.mem_iff owner howner line hmem name hname).symm

end

/-! ## The same walk -/

/-- Two walks take the same steps when their snapshots agree on what a name reaches and their live
tasks, all about lines of properties that have been entered, are the same. -/
theorem walk_eq_of_agreeBehind (agree : AgreeBehind one other start) {fresh fresh' : List String}
    {tasks tasks' : List Task} (hfresh : FreshAgree one start fresh fresh')
    (howned : ∀ task ∈ tasks, IsOwned one start fresh fresh' task.text)
    (hlive : tasks'.filter (Task.isLive fresh') = tasks.filter (Task.isLive fresh)) :
    other.walk fresh' tasks' = one.walk fresh tasks := by
  fun_induction Snapshot.walk one fresh tasks generalizing fresh' tasks' with
  | case1 fresh =>
    have hidle : ∀ task ∈ tasks', ¬ task.isLive fresh' = true := List.filter_eq_nil_iff.1 hlive
    rw [← List.append_nil tasks', walk_idle_append other hidle, walk]
  | case2 fresh line tasks ih =>
    have hline : IsOwned one start fresh fresh' line := howned _ List.mem_cons_self
    obtain ⟨rest, -, hrest, hwalk⟩ := exists_walk_eq_of_filter_eq_cons hlive
    rw [hwalk, walk]
    refine congrArg _ (ih hfresh (fun task htask => ?_) ?_)
    · rcases List.mem_append.1 htask with h | h
      · obtain ⟨name, -, rfl⟩ := List.mem_map.1 h
        exact hline
      · exact howned _ (List.mem_cons_of_mem _ h)
    · rw [List.filter_append, List.filter_append, agree.filter_isLive_eq hfresh hline, hrest]
  | case3 fresh line entered tasks henter ih =>
    rw [List.filter_cons_of_pos (by exact henter)] at hlive
    obtain ⟨rest, henter', hrest, hwalk⟩ := exists_walk_eq_of_filter_eq_cons hlive
    have hreaches : one.Reaches start entered := by
      obtain ⟨owner, howner, hmem, -⟩ := howned _ List.mem_cons_self
      rw [Bool.and_eq_true, List.contains_iff_mem] at henter
      exact reaches_of_isLineBehind ⟨owner, howner, hmem⟩ (hfresh.subset_names henter.1) henter.2
    rw [hwalk, walk_live_cons other henter', agree.tasksOf_eq hreaches]
    refine congrArg _ (ih (hfresh.without entered) (fun task htask => ?_) ?_)
    · rcases List.mem_append.1 htask with h | h
      · obtain ⟨text, htext, rfl⟩ := mem_tasksOf.1 h
        exact ⟨entered, hreaches, htext, fun hmem => (mem_without.1 hmem).2 rfl,
          fun hmem => (mem_without.1 hmem).2 rfl⟩
      · exact (howned _ (List.mem_cons_of_mem _ h)).without entered
    · rw [List.filter_append, List.filter_append, filter_isLive_tasksOf, filter_isLive_tasksOf,
        Task.filter_isLive_without, hrest, ← Task.filter_isLive_without]
  | case4 fresh line skipped tasks hskip ih =>
    rw [List.filter_cons_of_neg (by exact hskip)] at hlive
    exact ih hfresh (fun task htask => howned task (List.mem_cons_of_mem _ htask)) hlive

/-- Two snapshots that agree on what a name reaches may enter the same properties from it. -/
theorem AgreeBehind.freshAgree (agree : AgreeBehind one other start) :
    FreshAgree one start (without one.names start) (without other.names start) where
  subset_names _ hname := (mem_without.1 hname).1
  start_notMem := ⟨fun h => (mem_without.1 h).2 rfl, fun h => (mem_without.1 h).2 rfl⟩
  mem_iff owner howner line hline name hname := by
    have hname' := agree.othersIn_eq owner howner line hline ▸ hname
    rw [mem_without, mem_without]
    exact and_congr_left' (iff_of_true (List.mem_filter.1 hname).1 (List.mem_filter.1 hname').1)

/-- The lines of an expanded property depend only on what its name reaches. -/
theorem expanded_eq_of_agreeBehind (agree : AgreeBehind one other start) :
    other.expanded start = one.expanded start := by
  have hstart : one.Reaches start start := Relation.ReflTransGen.refl
  have hsteps : other.stepsFrom start = one.stepsFrom start := by
    rw [stepsFrom, stepsFrom, agree.tasksOf_eq hstart]
    refine walk_eq_of_agreeBehind agree agree.freshAgree (fun task htask => ?_) ?_
    · obtain ⟨text, htext, rfl⟩ := mem_tasksOf.1 htask
      exact ⟨start, hstart, htext, agree.freshAgree.start_notMem⟩
    · rw [filter_isLive_tasksOf, filter_isLive_tasksOf]
  rw [expanded, hsteps, expanded]

end Snapshot

/-! ## Lists of properties -/

/-- In each line behind a property, the names that may be entered from there come in the same order
in two lists of properties.  These are the names in the line, except those of the property itself
and of the one that the line belongs to. -/
def SameOrderBehind (properties others : List Property) (property : Property) : Prop :=
  ∀ owner, Reaches properties property owner → ∀ line ∈ owner.lines,
    (snapshot others).othersIn [property.name, owner.name] line =
      (snapshot properties).othersIn [property.name, owner.name] line

/-- A property has the same expanded lines in two lists that hold everything it reaches and put the
names behind it in the same order. -/
theorem expanded_eq_of_sameOrderBehind {properties others : List Property}
    (distinct : (properties.map Property.name).Nodup) (distinct' : (others.map Property.name).Nodup)
    (hsubset : properties ⊆ others) {property : Property} (hproperty : property ∈ properties)
    (h : SameOrderBehind properties others property) :
    (snapshot others).expanded property.name = (snapshot properties).expanded property.name := by
  -- A name that is reached stands for a property that is reached.
  have howner : ∀ name, (snapshot properties).Reaches property.name name →
      ∃ owner, Reaches properties property owner ∧ owner ∈ properties ∧ owner.name = name := by
    intro name hname
    obtain ⟨owner, hreaches, hname⟩ := exists_of_reaches_name distinct hproperty hname
    exact ⟨owner, hreaches, mem_of_reaches hreaches hproperty, hname⟩
  refine Snapshot.expanded_eq_of_agreeBehind ⟨fun name hname => ?_, fun name hname line hline => ?_⟩
  · obtain ⟨owner, -, hmem, rfl⟩ := howner name hname
    rw [linesOf_snapshot distinct hmem, linesOf_snapshot distinct' (hsubset hmem)]
  · obtain ⟨owner, hreaches, hmem, rfl⟩ := howner name hname
    rw [linesOf_snapshot distinct hmem] at hline
    exact h owner hreaches line hline

end PropertyIndex.Spec
