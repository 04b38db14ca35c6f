import Mathlib.Data.List.Chain
import Mathlib.Data.List.TakeWhile

/-!
# Runs and neighbours in a list

A run is a stretch whose members all pass a test and behind which the test fails.

* `takeWhile_run`, `dropWhile_run`: a run is cut off exactly.
* `run_append`: a run that ends inside a list.
* `isChain_iff_not_adjacent`: two members that never stand side by side.
* `forall_mem_of_all`: a condition that is checked member by member.
-/

namespace PropertyIndex

variable {α : Type} {p : α → Bool} {run rest : List α}

theorem takeWhile_eq_nil (h : rest.head?.any p = false) : rest.takeWhile p = [] := by
  cases rest with
  | nil => rfl
  | cons x rest => exact List.takeWhile_cons_of_neg (Bool.eq_false_iff.1 h)

theorem dropWhile_eq_self (h : rest.head?.any p = false) : rest.dropWhile p = rest := by
  cases rest with
  | nil => rfl
  | cons x rest => exact List.dropWhile_cons_of_neg (Bool.eq_false_iff.1 h)

/-- What is taken is the run. -/
theorem takeWhile_run (hrun : ∀ x ∈ run, p x = true) (hrest : rest.head?.any p = false) :
    (run ++ rest).takeWhile p = run := by
  rw [List.takeWhile_append_of_pos hrun, takeWhile_eq_nil hrest, List.append_nil]

/-- What is left is what follows the run. -/
theorem dropWhile_run (hrun : ∀ x ∈ run, p x = true) (hrest : rest.head?.any p = false) :
    (run ++ rest).dropWhile p = rest := by
  rw [List.dropWhile_append_of_pos hrun, dropWhile_eq_self hrest]

/-- A run that ends inside a list is the same in a longer one. -/
theorem run_append (h : run.dropWhile p ≠ []) (rest : List α) :
    (run ++ rest).takeWhile p = run.takeWhile p ∧
      (run ++ rest).dropWhile p = run.dropWhile p ++ rest := by
  induction run with
  | nil => exact absurd rfl h
  | cons x run ih =>
    rw [List.cons_append]
    by_cases hx : p x = true
    · rw [List.dropWhile_cons_of_pos hx] at h
      rw [List.takeWhile_cons_of_pos hx, List.takeWhile_cons_of_pos hx,
        List.dropWhile_cons_of_pos hx, List.dropWhile_cons_of_pos hx, (ih h).1, (ih h).2]
      exact ⟨rfl, rfl⟩
    · rw [List.takeWhile_cons_of_neg hx, List.takeWhile_cons_of_neg hx,
        List.dropWhile_cons_of_neg hx, List.dropWhile_cons_of_neg hx]
      exact ⟨rfl, rfl⟩

/-- A condition holds of all members of a list if a check of each of them says so. -/
theorem forall_mem_of_all {condition : α → Prop} [DecidablePred condition] {list : List α}
    (h : (list.all fun x => decide (condition x)) = true) : ∀ x ∈ list, condition x :=
  fun x hx => of_decide_eq_true (List.all_eq_true.1 h x hx)

/-- Two members do not stand side by side in a list exactly when no neighbours are these two. -/
theorem isChain_iff_not_adjacent {a b : α} {list : List α} :
    list.IsChain (fun x y => ¬(x = a ∧ y = b)) ↔ ¬ [a, b] <:+: list := by
  rw [List.isChain_iff_forall_rel_of_append_cons_cons]
  constructor
  · rintro h ⟨front, back, rfl⟩
    exact @h a b front back (by simp) ⟨rfl, rfl⟩
  · rintro h x y front back rfl ⟨rfl, rfl⟩
    exact h ⟨front, back, by simp⟩

end PropertyIndex
