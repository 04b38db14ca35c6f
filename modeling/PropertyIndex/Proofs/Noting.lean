import Mathlib.Data.List.Basic
import PropertyIndex.Batch.Report

/-!
# Runs and their notes

Runs write notes and never read them.  What a run gives and what it does to the storage is
therefore the same whatever was noted before it, and its notes come behind the earlier ones.

* `Noting.IsAppending`, `Run.IsAppending`: a run that only adds notes, with a lemma for each step
  that runs are made of.
* `isAppending_outcomeOf`, `isAppending_runPairs`, `isAppending_discover`: the processing of pairs
  only adds notes, and so does finding them.
* `Run.Gives`, `gives_process`: a summary is that of its pair.
-/

namespace PropertyIndex

/-! ## Runs that never fail -/

namespace Noting

variable {m : Type → Type} [Monad m] [LawfulMonad m] {α β : Type}

/-- A run that only adds notes: it does the same whatever was noted before. -/
def IsAppending (x : Noting m α) : Prop :=
  ∀ notes, x.run notes = (fun result => (result.1, notes ++ result.2)) <$> x.run []

theorem isAppending_pure (a : α) : IsAppending (pure a : Noting m α) := by
  intro notes
  rw [StateT.run_pure, StateT.run_pure, map_pure, List.append_nil]

theorem isAppending_bind {x : Noting m α} {f : α → Noting m β} (hx : IsAppending x)
    (hf : ∀ a, IsAppending (f a)) : IsAppending (x >>= f) := by
  intro notes
  rw [StateT.run_bind, StateT.run_bind, hx notes, bind_map_left, map_bind]
  refine bind_congr fun result => ?_
  rw [hf, hf _ result.2, Functor.map_map]
  simp only [List.append_assoc]

theorem isAppending_tell (added : List Note) : IsAppending (tell added : Noting m Unit) := by
  intro notes
  rw [tell, StateT.run_modify, StateT.run_modify, map_pure, List.nil_append]

theorem isAppending_lift (x : m α) : IsAppending (StateT.lift x : Noting m α) := by
  intro notes
  rw [StateT.run_lift, StateT.run_lift, map_bind]
  refine bind_congr fun a => ?_
  rw [map_pure, List.append_nil]

end Noting

/-! ## Runs that may fail -/

namespace Run

variable {m : Type → Type} [Monad m] [LawfulMonad m] {α β : Type}

/-- A run that may fail and only adds notes. -/
def IsAppending (x : Run m α) : Prop :=
  Noting.IsAppending x.run

theorem isAppending_pure (a : α) : IsAppending (pure a : Run m α) :=
  Noting.isAppending_pure _

theorem isAppending_bind {x : Run m α} {f : α → Run m β} (hx : IsAppending x)
    (hf : ∀ a, IsAppending (f a)) : IsAppending (x >>= f) := by
  rw [IsAppending, ExceptT.run_bind]
  refine Noting.isAppending_bind hx fun result => ?_
  cases result with
  | ok a => exact hf a
  | error failure => exact Noting.isAppending_pure _

theorem isAppending_lift {x : Noting m α} (h : Noting.IsAppending x) :
    IsAppending (ExceptT.lift x : Run m α) := by
  rw [IsAppending, ExceptT.run_lift, map_eq_pure_bind]
  exact Noting.isAppending_bind h fun _ => Noting.isAppending_pure _

theorem isAppending_tell (added : List Note) : IsAppending (tell added : Run m Unit) :=
  isAppending_lift (Noting.isAppending_tell added)

/-- Notes in front of a result. -/
theorem isAppending_told (added : List Note) (a : α) : IsAppending (do
    tell added
    return a : Run m α) :=
  isAppending_bind (isAppending_tell added) fun _ => isAppending_pure a

theorem isAppending_attempt (failure : Fault → Failure) (operation : m (Except Fault α)) :
    IsAppending (attempt failure operation) :=
  Noting.isAppending_bind (Noting.isAppending_lift operation) fun _ => Noting.isAppending_pure _

end Run

/-! ## Pairs -/

section Pairs

variable {m : Type → Type} [Monad m] [LawfulMonad m] [Storage m]

theorem isAppending_writeArtifact (records : List Record) (path : String) :
    Run.IsAppending (writeArtifact records path : Run m Unit) := by
  have hwrite : Run.IsAppending
      (Run.attempt (.outputWrite path) (Storage.writeText path (artifact records)) : Run m Unit) :=
    Run.isAppending_attempt _ _
  rw [writeArtifact]
  split
  · exact hwrite
  · split_ifs
    · exact Run.isAppending_bind (Run.isAppending_attempt _ _) fun _ => hwrite
    · exact hwrite

theorem isAppending_process (pair : FilePair) (directory : String) :
    Run.IsAppending (pair.process directory : Run m Summary) := by
  have hindex : Run.IsAppending (pair.index : Run m (List Record)) :=
    Run.isAppending_bind (Run.isAppending_attempt _ _) fun _ =>
      Run.isAppending_bind (Run.isAppending_attempt _ _) fun _ => Run.isAppending_told _ _
  exact Run.isAppending_bind hindex fun _ =>
    Run.isAppending_bind (isAppending_writeArtifact _ _) fun _ => Run.isAppending_told _ _

theorem isAppending_outcomeOf (directory : String) (pair : FilePair) :
    Noting.IsAppending (outcomeOf directory pair : Noting m Outcome) :=
  Noting.isAppending_bind (isAppending_process pair directory) fun _ => Noting.isAppending_pure _

theorem isAppending_processAll (directory : String) (pairs : List FilePair) :
    Noting.IsAppending (processAll directory pairs : Noting m (List Outcome)) := by
  induction pairs with
  | nil => exact Noting.isAppending_pure _
  | cons pair pairs ih =>
    exact Noting.isAppending_bind (isAppending_outcomeOf directory pair) fun _ =>
      Noting.isAppending_bind ih fun _ => Noting.isAppending_pure _

theorem isAppending_runPairs (pairs : List FilePair) (directory : String) :
    Noting.IsAppending (runPairs pairs directory : Noting m Report) :=
  Noting.isAppending_bind (isAppending_processAll directory pairs) fun _ =>
    Noting.isAppending_bind (Noting.isAppending_tell _) fun _ => Noting.isAppending_pure _

theorem isAppending_discover (directory : String) :
    Noting.IsAppending (discover directory : Noting m Findings) :=
  Noting.isAppending_bind (Noting.isAppending_lift _) fun _ =>
    Noting.isAppending_bind (Noting.isAppending_tell _) fun _ => Noting.isAppending_pure _

end Pairs

/-! ## Results -/

section Results

variable {σ α β : Type}

/-- Whatever a run gives on storage of type `σ`, if it does not fail, is of a kind. -/
def Run.Gives (P : α → Prop) (x : Run (StateM σ) α) : Prop :=
  ∀ notes storage a, ((x.run.run notes).run storage).1.1 = .ok a → P a

theorem Run.gives_pure {P : α → Prop} {a : α} (h : P a) : Gives P (pure a : Run (StateM σ) α) := by
  intro notes storage b hb
  exact Except.ok.inj hb ▸ h

theorem Run.gives_bind {P : β → Prop} {x : Run (StateM σ) α} {f : α → Run (StateM σ) β}
    (hf : ∀ a, Gives P (f a)) : Gives P (x >>= f) := by
  intro notes storage b hb
  rw [ExceptT.run_bind, StateT.run_bind, StateT.run_bind] at hb
  rcases hx : (x.run.run notes).run storage with ⟨⟨result, later⟩, after⟩
  rw [hx] at hb
  cases result with
  | ok a => exact hf a later after b hb
  | error failure => exact absurd hb (by rintro ⟨⟩)

/-- A summary has the name of its pair. -/
theorem gives_process [Storage (StateM σ)] (pair : FilePair) (directory : String) :
    Run.Gives (fun summary => summary.name = pair.name)
      (pair.process directory : Run (StateM σ) Summary) :=
  Run.gives_bind fun _ => Run.gives_bind fun _ => Run.gives_bind fun _ => Run.gives_pure rfl

end Results

end PropertyIndex
