import PropertyIndex.Spec.Property
import PropertyIndex.Text.Occurrence

/-!
# Cross references between properties

A property that mentions another one is read together with it.  Expansion writes the lines of the
mentioned property behind the line that mentions it, and goes on in the same way from there.  Each
property is entered once, so the walk ends however the mentions run in circles, and a line that
comes up again is left out.  All mentions are looked up in the lines as they were before expansion.

* `Snapshot`: the names and lines before expansion.
* `Task`, `Step`: what is still to be done in a walk and what it did.
* `Snapshot.walk`: the walk, depth first.
* `Snapshot.expanded`: the lines of a property after expansion.
* `expand`: the expansion of a list of properties.
-/

namespace PropertyIndex.Spec

open Text

/-- The names and lines of properties before expansion. -/
abbrev Snapshot := List (String × List String)

/-- Something that a walk still has to do. -/
inductive Task where
  /-- Write a line, and then look for mentions in it. -/
  | line (text : String)
  /-- Enter a property if a line mentions it. -/
  | mention (text name : String)
  deriving DecidableEq, Repr

/-- Something that a walk did. -/
inductive Step where
  /-- It wrote a line. -/
  | wrote (text : String)
  /-- It entered a property. -/
  | entered (name : String)
  deriving DecidableEq, Repr

/-- The line that a step wrote. -/
def Step.line? : Step → Option String
  | wrote text => some text
  | entered _ => none

/-- The property that a step entered. -/
def Step.name? : Step → Option String
  | wrote _ => none
  | entered name => some name

/-- Whether a line mentions a property: its name occurs anywhere in the line. -/
def mentions (line name : String) : Bool :=
  contains name.toList line.toList

namespace Snapshot

/-- The names of the properties, in order. -/
def names (snapshot : Snapshot) : List String :=
  snapshot.map Prod.fst

/-- The lines of a property; the last of several properties with one name counts. -/
def linesOf (snapshot : Snapshot) (name : String) : List String :=
  (snapshot.reverse.lookup name).getD []

/-- The tasks that come with entering a property. -/
def tasksOf (snapshot : Snapshot) (name : String) : List Task :=
  (snapshot.linesOf name).map Task.line

/-- How many tasks a list of tasks stands for, when each line is counted together with the
mentions that are looked for in it. -/
def weight (snapshot : Snapshot) : List Task → Nat
  | [] => 0
  | .line _ :: tasks => snapshot.names.length + 1 + snapshot.weight tasks
  | .mention _ _ :: tasks => 1 + snapshot.weight tasks

theorem weight_mentions_append (snapshot : Snapshot) (text : String) (names : List String)
    (tasks : List Task) :
    snapshot.weight (names.map (Task.mention text) ++ tasks) =
      names.length + snapshot.weight tasks := by
  induction names with
  | nil => simp
  | cons name names ih =>
    rw [List.map_cons, List.cons_append, weight, ih, List.length_cons]
    omega

/-- A list of names without one of them. -/
def without (names : List String) (name : String) : List String :=
  names.filter fun other => other != name

theorem length_without_lt {names : List String} {name : String} (h : name ∈ names) :
    (without names name).length < names.length := by
  refine Nat.lt_of_le_of_ne (List.length_filter_le _ _) fun heq => ?_
  have hne := List.length_filter_eq_length_iff.1 heq name h
  simp at hne

/-- The steps of a walk that has the given tasks ahead and may still enter the properties named in
`fresh`. -/
def walk (snapshot : Snapshot) (fresh : List String) : List Task → List Step
  | [] => []
  | .line text :: tasks =>
    .wrote text :: snapshot.walk fresh (snapshot.names.map (Task.mention text) ++ tasks)
  | .mention text name :: tasks =>
    if fresh.contains name && mentions text name then
      .entered name ::
        snapshot.walk (without fresh name) (snapshot.tasksOf name ++ tasks)
    else snapshot.walk fresh tasks
termination_by tasks => (fresh.length, snapshot.weight tasks)
decreasing_by
  · rw [weight_mentions_append, weight]
    exact Prod.Lex.right _ (by omega)
  · next h =>
    rw [Bool.and_eq_true] at h
    exact Prod.Lex.left _ _ (length_without_lt (List.contains_iff_mem.1 h.1))
  · rw [weight]
    exact Prod.Lex.right _ (by omega)

/-- The steps of the walk that begins with a property. -/
def stepsFrom (snapshot : Snapshot) (name : String) : List Step :=
  snapshot.walk (without snapshot.names name) (snapshot.tasksOf name)

/-- The lines of a property after expansion. -/
def expanded (snapshot : Snapshot) (name : String) : List String :=
  ((snapshot.stepsFrom name).filterMap Step.line?).eraseDups

/-- The properties whose lines are written into a property, in the order in which they are
entered. -/
def inlined (snapshot : Snapshot) (name : String) : List String :=
  (snapshot.stepsFrom name).filterMap Step.name?

end Snapshot

/-- The names and lines of a list of properties. -/
def snapshot (properties : List Property) : Snapshot :=
  properties.map fun property => (property.name, property.lines)

/-- Properties with the lines that they refer to written into them. -/
def expand (properties : List Property) : List Property :=
  properties.map fun property =>
    { property with lines := (snapshot properties).expanded property.name }

end PropertyIndex.Spec
