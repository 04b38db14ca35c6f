import PropertyIndex.Linkage
import PropertyIndex.Proofs.Pieces

/-!
# Linkages as stored texts

A linkage is stored as its names with slashes between them, or as the word of a sentinel.  Reading
it back cuts at the slashes and takes the names as a set, so nothing changes as long as the names
come in ascending order, have no slash in them and do not spell a sentinel together.

* `pieces_joinWith`: cutting at the slashes undoes joining.
* `joinWith_eq_iff`: what spells a single word.
* `NameSet.toList_ofList`: an ascending list is the list of its set.
* `Linkage.IsStorable`, `Linkage.ofText_text`: which linkages are read back.
-/

namespace PropertyIndex

open Text

namespace Text

/-- Names without slashes are the pieces of their joined form. -/
theorem pieces_joinWith {names : List String} (hne : names ≠ [])
    (hslash : ∀ name ∈ names, '/' ∉ name.toList) :
    (pieces '/' (joinWith "/" names).toList).map String.ofList = names := by
  have hjoin : (joinWith "/" names).toList = ['/'].intercalate (names.map String.toList) :=
    String.toList_intercalate
  rw [hjoin, pieces_intercalate (by simpa using hne) (by simpa using hslash), List.map_map]
  simp

/-- Names without slashes spell a word without slashes only as that word alone. -/
theorem joinWith_eq_iff {names : List String} {word : String} (hne : names ≠ [])
    (hslash : ∀ name ∈ names, '/' ∉ name.toList) (hword : '/' ∉ word.toList) :
    joinWith "/" names = word ↔ names = [word] := by
  constructor
  · intro h
    have hpieces := pieces_joinWith hne hslash
    rw [h, pieces_of_notMem hword] at hpieces
    simpa using hpieces.symm
  · rintro rfl
    simp [joinWith]

/-- A name behind all others is put at the end. -/
theorem insertName_of_lt {name : String} {names : List String}
    (h : ∀ other ∈ names, other < name) : insertName name names = names ++ [name] := by
  induction names with
  | nil => rfl
  | cons other names ih =>
    have hlt : other < name := h other List.mem_cons_self
    have hne : ¬ name = other := by
      rintro rfl
      exact String.lt_irrefl _ hlt
    rw [insertName, if_neg (String.lt_asymm hlt), if_neg hne,
      ih fun x hx => h x (List.mem_cons_of_mem _ hx), List.cons_append]

namespace NameSet

theorem toList_foldl_insert {names : List String} {set : NameSet}
    (h : (set.toList ++ names).Pairwise (· < ·)) :
    (names.foldl insert set).toList = set.toList ++ names := by
  induction names generalizing set with
  | nil => rw [List.foldl_nil, List.append_nil]
  | cons name names ih =>
    have hlast : ∀ other ∈ set.toList, other < name := fun other hother =>
      (List.pairwise_append.1 h).2.2 other hother name List.mem_cons_self
    have hinsert : (set.insert name).toList = set.toList ++ [name] := insertName_of_lt hlast
    rw [List.foldl_cons, ih, hinsert, List.append_assoc, List.singleton_append]
    rwa [hinsert, List.append_assoc, List.singleton_append]

/-- An ascending list is the list of its set. -/
theorem toList_ofList {names : List String} (h : names.Pairwise (· < ·)) :
    (ofList names).toList = names :=
  toList_foldl_insert h

end NameSet

end Text

namespace Linkage

/-- Whether the stored text of a linkage can only be its own. -/
def IsStorable : Linkage → Prop
  | functions names => names.Pairwise (· < ·) ∧ (∀ name ∈ names, '/' ∉ name.toList) ∧
      joinWith "/" names ∉ ["", "ALL", "UNKNOWN"]
  | _ => True

/-- A storable linkage is read back from its text. -/
theorem ofText_text {target : Linkage} (h : target.IsStorable) : ofText target.text = target := by
  cases target with
  | all => rfl
  | unknown => rfl
  | functions names =>
    obtain ⟨hascending, hslash, htext⟩ := h
    simp only [List.mem_cons, List.not_mem_nil, or_false, not_or] at htext
    obtain ⟨hempty, hall, hunknown⟩ := htext
    have hne : names ≠ [] := by
      rintro rfl
      exact hempty rfl
    rw [text, ofText, if_neg hall, if_neg (by simp [hempty, hunknown]),
      pieces_joinWith hne hslash, NameSet.toList_ofList hascending]

end Linkage

end PropertyIndex
