import EditorLint.InsertionMap

/-!
What a lookup finds after a key has been set or erased, which values are left, and in which order
the keys stand.
-/

namespace EditorLint.InsertionMap

variable {κ ν : Type} [DecidableEq κ]

theorem find?_insert (map : InsertionMap κ ν) (key other : κ) (value : ν) :
    (map.insert key value).find? other = if key = other then some value else map.find? other := by
  obtain ⟨entries⟩ := map
  simp only [insert, find?]
  induction entries with
  | nil => by_cases same : key = other <;> simp [insertEntry, same]
  | cons entry rest ih =>
      obtain ⟨first, old⟩ := entry
      by_cases here : first = key
      · subst here
        by_cases same : first = other <;> simp [insertEntry, same]
      · by_cases same : first = other
        · subst same
          simp [insertEntry, here, Ne.symm here]
        · simp only [insertEntry, here, if_false, List.find?_cons, same, decide_false]
          exact ih

@[simp] theorem find?_insert_self (map : InsertionMap κ ν) (key : κ) (value : ν) :
    (map.insert key value).find? key = some value := by
  simp [find?_insert]

theorem find?_insert_of_ne (map : InsertionMap κ ν) {key other : κ} (value : ν)
    (different : key ≠ other) : (map.insert key value).find? other = map.find? other := by
  simp [find?_insert, different]

theorem find?_erase (map : InsertionMap κ ν) (key other : κ) :
    (map.erase key).find? other = if key = other then none else map.find? other := by
  obtain ⟨entries⟩ := map
  simp only [erase, find?]
  induction entries with
  | nil => simp
  | cons entry rest ih =>
      obtain ⟨first, old⟩ := entry
      by_cases here : first = key
      · subst here
        simp only [ne_eq, decide_not, decide_true, Bool.not_true, Bool.false_eq_true,
          not_false_eq_true, List.filter_cons_of_neg]
        by_cases same : first = other
        · simp [same]
        · simpa [same] using ih
      · by_cases same : first = other
        · subst same
          simp [here, Ne.symm here]
        · simpa [here, same] using ih

@[simp] theorem find?_erase_self (map : InsertionMap κ ν) (key : κ) :
    (map.erase key).find? key = none := by
  simp [find?_erase]

theorem erase_insert_self (map : InsertionMap κ ν) (key : κ) (value : ν) :
    (map.insert key value).erase key = map.erase key := by
  obtain ⟨entries⟩ := map
  simp only [insert, erase, mk.injEq]
  induction entries with
  | nil => simp [insertEntry]
  | cons entry rest ih =>
      obtain ⟨first, old⟩ := entry
      by_cases here : first = key
      · subst here
        simp [insertEntry]
      · rw [insertEntry, if_neg here, List.filter_cons_of_pos (by simpa using here), ih,
          List.filter_cons_of_pos (by simpa using here)]

theorem mem_entries_insert {map : InsertionMap κ ν} {key : κ} {value : ν} {pair : κ × ν}
    (member : pair ∈ (map.insert key value).entries) : pair = (key, value) ∨ pair ∈ map.entries := by
  obtain ⟨entries⟩ := map
  simp only [insert] at member ⊢
  induction entries with
  | nil => simpa [insertEntry] using member
  | cons entry rest ih =>
      by_cases here : entry.1 = key
      · simp only [insertEntry, here, if_true, List.mem_cons] at member ⊢
        exact member.imp id Or.inr
      · simp only [insertEntry, here, if_false, List.mem_cons] at member ⊢
        rcases member with same | later
        · exact Or.inr (Or.inl same)
        · exact (ih later).imp id Or.inr

theorem mem_values_insert {map : InsertionMap κ ν} {key : κ} {value old : ν}
    (member : old ∈ (map.insert key value).values) : old = value ∨ old ∈ map.values := by
  obtain ⟨pair, listed, rfl⟩ := List.mem_map.mp member
  rcases mem_entries_insert listed with rfl | kept
  · exact Or.inl rfl
  · exact Or.inr (List.mem_map_of_mem kept)

/-- A key that is set anew goes to the end, and one that is there keeps its place. -/
theorem keys_insert (map : InsertionMap κ ν) (key : κ) (value : ν) :
    (map.insert key value).keys = if key ∈ map.keys then map.keys else map.keys ++ [key] := by
  obtain ⟨entries⟩ := map
  simp only [insert, keys]
  induction entries with
  | nil => rfl
  | cons entry rest ih =>
      by_cases here : entry.1 = key
      · simp [insertEntry, here]
      · by_cases later : key ∈ rest.map (·.1)
        · simp [insertEntry, here, ih, later]
        · simp [insertEntry, here, Ne.symm here, ih, later]

theorem nodup_keys_insert {map : InsertionMap κ ν} (distinct : map.keys.Nodup) (key : κ) (value : ν) :
    (map.insert key value).keys.Nodup := by
  rw [keys_insert]
  split
  · exact distinct
  · next missing =>
      refine List.nodup_append.mpr ⟨distinct, List.nodup_cons.mpr ⟨nofun, .nil⟩, ?_⟩
      rintro other listed _ added rfl
      exact missing (List.mem_singleton.mp added ▸ listed)

theorem find?_of_mem {map : InsertionMap κ ν} (distinct : map.keys.Nodup) {key : κ} {value : ν}
    (member : (key, value) ∈ map.entries) : map.find? key = some value := by
  obtain ⟨entries⟩ := map
  simp only [keys, find?] at distinct ⊢
  induction entries with
  | nil => cases member
  | cons entry rest ih =>
      obtain ⟨missing, later⟩ := List.nodup_cons.mp distinct
      rcases List.mem_cons.mp member with same | behind
      · subst same
        simp
      · have other : entry.1 ≠ key := by
          rintro rfl
          exact missing (List.mem_map.mpr ⟨_, behind, rfl⟩)
        simpa [other] using ih later behind

theorem mem_keys_iff {map : InsertionMap κ ν} {key : κ} :
    key ∈ map.keys ↔ (map.find? key).isSome := by
  simp [keys, find?, List.find?_isSome]

theorem mem_values_of_find? {map : InsertionMap κ ν} {key : κ} {value : ν}
    (found : map.find? key = some value) : value ∈ map.values := by
  obtain ⟨entry, located, rfl⟩ := Option.map_eq_some_iff.mp found
  exact List.mem_map_of_mem (List.mem_of_find?_eq_some located)

theorem mem_values_erase {map : InsertionMap κ ν} {key : κ} {value : ν}
    (member : value ∈ (map.erase key).values) : value ∈ map.values := by
  obtain ⟨entry, kept, rfl⟩ := List.mem_map.mp member
  exact List.mem_map_of_mem (List.mem_filter.mp kept).1

end EditorLint.InsertionMap
