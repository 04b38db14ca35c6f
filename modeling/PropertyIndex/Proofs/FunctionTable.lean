import Mathlib.Data.List.Forall2
import PropertyIndex.Contract.FunctionTable
import PropertyIndex.Proofs.KeywordSearch

/-!
# Looking up functions

A table is built by overwriting, so what it holds for a name is the last definition of that name.

* `FunctionTable.get?_insert`, `FunctionTable.get?_ofList`: a lookup after each way of building.
* `IsLastNamed`: the last definition of a name in a sequence.
* `FunctionTable.get?_ofList_eq_some`: a table holds exactly the last definitions.
* `FunctionTable.mem_names_ofList`: a table lists the names of its functions.
* `FunctionTable.mapM_get?_eq_some`: a table answers for all names that it lists.
* `isKeyword_function`: the keyword of the blocks that a table is built from.
-/

namespace PropertyIndex.Contract

/-- The last function of a sequence with a given name. -/
def IsLastNamed (functions : List SourceFunction) (name : String) (function : SourceFunction) :
    Prop :=
  function.name = name ∧ ∃ before after, functions = before ++ function :: after ∧
    ∀ other ∈ after, other.name ≠ name

namespace FunctionTable

/-- A function that is put into a table is what its name stands for from then on. -/
theorem get?_insert (table : FunctionTable) (function : SourceFunction) (name : String) :
    (table.insert function).get? name =
      if function.name = name then some function else table.get? name := by
  rw [get?, insert, find?_putByKey, get?]
  simp only [beq_iff_eq]

theorem get?_foldl_insert (functions : List SourceFunction) (table : FunctionTable)
    (name : String) :
    (functions.foldl insert table).get? name =
      (functions.reverse.find? fun function => function.name == name).or (table.get? name) := by
  induction functions generalizing table with
  | nil => rfl
  | cons function functions ih =>
    rw [List.foldl_cons, ih, get?_insert, List.reverse_cons, List.find?_append, Option.or_assoc]
    congr 1
    by_cases h : function.name = name <;> simp [h]

/-- A table holds for a name the last function of that name. -/
theorem get?_ofList (functions : List SourceFunction) (name : String) :
    (ofList functions).get? name =
      functions.reverse.find? fun function => function.name == name := by
  rw [ofList, get?_foldl_insert]
  exact Option.or_none

theorem get?_ofList_eq_some {functions : List SourceFunction} {name : String}
    {function : SourceFunction} :
    (ofList functions).get? name = some function ↔ IsLastNamed functions name function := by
  rw [get?_ofList, List.find?_eq_some_iff_append, IsLastNamed, beq_iff_eq]
  refine and_congr_right fun _ => ⟨?_, ?_⟩
  · rintro ⟨after, before, heq, hafter⟩
    refine ⟨before.reverse, after.reverse, ?_, fun other hother => ?_⟩
    · rw [← List.reverse_reverse functions, heq]
      simp
    · simpa using hafter other (List.mem_reverse.1 hother)
  · rintro ⟨before, after, rfl, hafter⟩
    refine ⟨after.reverse, before.reverse, by simp, fun other hother => ?_⟩
    simpa using hafter other (List.mem_reverse.1 hother)

/-- A name is in a table exactly when the table lists it. -/
theorem contains_iff {table : FunctionTable} {name : String} :
    table.contains name = true ↔ name ∈ table.names := by
  rw [contains, get?, List.find?_isSome, names, List.mem_map]
  simp only [beq_iff_eq]

/-- The table of a sequence of functions lists their names. -/
theorem mem_names_ofList {functions : List SourceFunction} {name : String} :
    name ∈ (ofList functions).names ↔ name ∈ functions.map SourceFunction.name := by
  rw [← contains_iff, contains, get?_ofList, List.find?_isSome, List.mem_map]
  simp only [List.mem_reverse, beq_iff_eq]

/-- All names of a table are looked up at once. -/
theorem mapM_get?_eq_some {table : FunctionTable} {names : List String}
    (h : ∀ name ∈ names, name ∈ table.names) :
    ∃ functions, names.mapM table.get? = some functions ∧
      names.filterMap table.get? = functions ∧
      List.Forall₂ (fun name function => table.get? name = some function) names functions := by
  induction names with
  | nil => exact ⟨[], rfl, rfl, List.Forall₂.nil⟩
  | cons name names ih =>
    obtain ⟨functions, hmapM, hfilterMap, hall⟩ :=
      ih fun other hother => h other (List.mem_cons_of_mem _ hother)
    obtain ⟨function, hfunction⟩ := Option.isSome_iff_exists.1
      (contains_iff.2 (h name List.mem_cons_self))
    refine ⟨function :: functions, ?_, ?_, hall.cons hfunction⟩
    · rw [List.mapM_cons, hfunction, hmapM]
      rfl
    · rw [List.filterMap_cons, hfunction, hfilterMap]

end FunctionTable

theorem isKeyword_function : Source.IsKeyword "function".toList :=
  ⟨by decide, List.all_eq_true.1 (by decide)⟩

end PropertyIndex.Contract
