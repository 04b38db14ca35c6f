/-!
# Lists with keys

Each entry of such a list has a key, and no two entries have the same one.  A new entry takes the
place of the one with its key.

* `putByKey`: a list with one more entry.
* `map_putByKey`, `nodup_map_putByKey`: its keys.
* `find?_putByKey`, `lookup_putByKey`: what a key stands for in it.
* `putByKey_of_mem`: nothing changes where the entry was there before.
* `lookup_eq_some_iff_mem`: what a key stands for is what is listed with it.
-/

namespace PropertyIndex

variable {α β κ : Type} [BEq κ]

/-- An entry put in the place of the one with its key, or at the end if there is none. -/
def putByKey (key : α → κ) (entry : α) : List α → List α
  | [] => [entry]
  | other :: entries =>
    if key other == key entry then entry :: entries else other :: putByKey key entry entries

variable [LawfulBEq κ] {key : α → κ}

/-- The keys stay as they are.  Only a new one comes behind them. -/
theorem map_putByKey (key : α → κ) (entry : α) (entries : List α) :
    (putByKey key entry entries).map key =
      if key entry ∈ entries.map key then entries.map key
      else entries.map key ++ [key entry] := by
  induction entries with
  | nil => simp [putByKey]
  | cons other entries ih =>
    by_cases h : key other = key entry
    · simp [putByKey, h]
    · have h' : ¬ key entry = key other := fun e => h e.symm
      simp only [putByKey, beq_iff_eq, h, if_false, List.map_cons, ih, List.mem_cons, h', false_or]
      split <;> simp

theorem nodup_map_putByKey (entry : α) {entries : List α} (h : (entries.map key).Nodup) :
    ((putByKey key entry entries).map key).Nodup := by
  rw [map_putByKey]
  split
  · exact h
  · next hmem =>
    rw [List.nodup_append]
    refine ⟨h, by simp, fun a ha b hb => ?_⟩
    rw [List.mem_singleton.1 hb]
    exact fun e => hmem (e ▸ ha)

theorem putByKey_of_mem {entry : α} {entries : List α} (h : (entries.map key).Nodup)
    (hmem : entry ∈ entries) : putByKey key entry entries = entries := by
  induction entries with
  | nil => exact absurd hmem List.not_mem_nil
  | cons other entries ih =>
    obtain ⟨hhead, htail⟩ := List.nodup_cons.1 h
    rcases List.mem_cons.1 hmem with rfl | hbehind
    · rw [putByKey, if_pos BEq.rfl]
    · have hne : key other ≠ key entry := fun e => hhead (e ▸ List.mem_map_of_mem hbehind)
      rw [putByKey, if_neg (by simpa using hne), ih htail hbehind]

/-! ## What a key stands for -/

theorem find?_putByKey (key : α → κ) (entry : α) (entries : List α) (wanted : κ) :
    (putByKey key entry entries).find? (fun other => key other == wanted) =
      if key entry == wanted then some entry
      else entries.find? (fun other => key other == wanted) := by
  induction entries with
  | nil => by_cases h : key entry = wanted <;> simp [putByKey, h]
  | cons other entries ih =>
    by_cases hsame : key other = key entry
    · -- The other entry makes room, and both sides agree behind it.
      by_cases h : key entry = wanted <;> simp [putByKey, hsame, h]
    · rw [putByKey, if_neg (by simpa using hsame)]
      by_cases hother : key other = wanted
      · have h : ¬ key entry = wanted := fun h => hsame (hother.trans h.symm)
        simp [hother, h]
      · simp only [List.find?_cons, beq_false_of_ne hother, ih]

/-- Looking up a key is finding the first entry that has it. -/
theorem lookup_eq_find? (wanted : κ) (entries : List (κ × β)) :
    entries.lookup wanted = (entries.find? fun entry => entry.1 == wanted).map Prod.snd := by
  induction entries with
  | nil => rfl
  | cons entry entries ih =>
    rw [List.lookup_cons, List.find?_cons, BEq.comm, ih]
    cases entry.1 == wanted <;> rfl

theorem lookup_putByKey (name : κ) (value : β) (entries : List (κ × β)) (wanted : κ) :
    (putByKey Prod.fst (name, value) entries).lookup wanted =
      if name == wanted then some value else entries.lookup wanted := by
  rw [lookup_eq_find?, find?_putByKey, lookup_eq_find?]
  split <;> rfl

theorem lookup_eq_some_iff_mem {entries : List (κ × β)} {name : κ} {value : β}
    (h : (entries.map Prod.fst).Nodup) :
    entries.lookup name = some value ↔ (name, value) ∈ entries := by
  induction entries with
  | nil => exact iff_of_false nofun List.not_mem_nil
  | cons entry entries ih =>
    obtain ⟨hhead, htail⟩ := List.nodup_cons.1 h
    rw [List.mem_cons, List.lookup_cons]
    by_cases hkey : name = entry.1
    · subst hkey
      have hout : (entry.1, value) ∉ entries := fun hmem => hhead (List.mem_map.2 ⟨_, hmem, rfl⟩)
      rw [BEq.rfl, or_iff_left hout]
      exact ⟨fun e => Prod.ext rfl (Option.some_inj.1 e).symm, fun e => by rw [← e]⟩
    · have hne : (name, value) ≠ entry := fun e => hkey (congrArg Prod.fst e)
      rw [beq_false_of_ne hkey, or_iff_right hne]
      exact ih htail

end PropertyIndex
