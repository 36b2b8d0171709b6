/-!
Association lists that keep their keys in the order of first insertion.

Main statement: what was put under a key is found there, and nothing else changes (`find?_put_self`,
`find?_put_of_ne`).
-/
namespace Chartwright.Assoc

variable {κ α : Type} [DecidableEq κ]

/-- One more value: a key that is there already keeps its place and takes the new value. -/
def put (key : κ) (value : α) : List (κ × α) → List (κ × α)
  | [] => [(key, value)]
  | (k, v) :: rest => if k = key then (k, value) :: rest else (k, v) :: put key value rest

/-- All but the value of a key. -/
def remove (key : κ) (entries : List (κ × α)) : List (κ × α) := entries.filter fun (k, _) => k ≠ key

/-- The value of a key. -/
def find? (key : κ) (entries : List (κ × α)) : Option α :=
  (entries.find? fun (k, _) => k = key).map (·.2)

/-- The value of a key changed. A key that is not there is not added. -/
def adjust (key : κ) (f : α → α) (entries : List (κ × α)) : List (κ × α) :=
  match find? key entries with
  | some value => put key (f value) entries
  | none => entries

theorem find?_put_self (key : κ) (value : α) (entries : List (κ × α)) :
    find? key (put key value entries) = some value := by
  induction entries with
  | nil => simp [put, find?]
  | cons entry rest ih =>
    obtain ⟨k, v⟩ := entry
    by_cases h : k = key
    · simp [put, find?, h]
    · simpa [put, find?, h] using ih

theorem find?_put_of_ne {key other : κ} (h : other ≠ key) (value : α) (entries : List (κ × α)) :
    find? other (put key value entries) = find? other entries := by
  induction entries with
  | nil => simp [put, find?, h.symm]
  | cons entry rest ih =>
    obtain ⟨k, v⟩ := entry
    by_cases hk : k = key
    · subst hk
      simp [put, find?, h.symm]
    · by_cases ho : k = other
      · subst ho
        simp [put, find?, hk]
      · simpa [put, find?, hk, ho] using ih

theorem find?_append {key : κ} (entries more : List (κ × α)) :
    find? key (entries ++ more) = (find? key entries).or (find? key more) := by
  simp only [find?, List.find?_append]
  cases entries.find? fun (k, _) => k = key <;> rfl

theorem put_of_find? {key : κ} {value : α} {entries : List (κ × α)}
    (h : find? key entries = some value) : put key value entries = entries := by
  induction entries with
  | nil => simp [find?] at h
  | cons entry rest ih =>
    obtain ⟨k, v⟩ := entry
    by_cases hk : k = key
    · simp [find?, hk] at h
      simp [put, hk, h]
    · rw [put, if_neg hk, ih (by simpa [find?, hk] using h)]

theorem put_ne_of_find? {key : κ} {value : α} {entries : List (κ × α)}
    (h : find? key entries = none) : put key value entries ≠ entries := by
  intro same
  have hput := find?_put_self key value entries
  rw [same, h] at hput
  cases hput

/-! ## Keys -/

theorem put_of_not_mem {key : κ} (value : α) {entries : List (κ × α)}
    (h : key ∉ entries.map (·.1)) : put key value entries = entries ++ [(key, value)] := by
  induction entries with
  | nil => rfl
  | cons entry rest ih =>
    obtain ⟨k, v⟩ := entry
    simp only [List.map_cons, List.mem_cons, not_or] at h
    rw [put, if_neg (Ne.symm h.1), ih h.2, List.cons_append]

theorem keys_put_of_mem {key : κ} (value : α) {entries : List (κ × α)}
    (h : key ∈ entries.map (·.1)) : (put key value entries).map (·.1) = entries.map (·.1) := by
  induction entries with
  | nil => simp at h
  | cons entry rest ih =>
    obtain ⟨k, v⟩ := entry
    by_cases hk : k = key
    · simp [put, hk]
    · have hrest : key ∈ rest.map (·.1) := by simpa [Ne.symm hk] using h
      simp only [put, if_neg hk, List.map_cons, ih hrest]

theorem nodup_put {key : κ} (value : α) {entries : List (κ × α)} (h : (entries.map (·.1)).Nodup) :
    ((put key value entries).map (·.1)).Nodup := by
  by_cases hk : key ∈ entries.map (·.1)
  · rwa [keys_put_of_mem value hk]
  · rw [put_of_not_mem value hk, List.map_append, List.nodup_append]
    refine ⟨h, by simp, fun a ha b hb => ?_⟩
    obtain rfl : b = key := by simpa using hb
    rintro rfl
    exact hk ha

theorem mem_of_mem_put {key : κ} {value : α} {entry : κ × α} {entries : List (κ × α)}
    (h : entry ∈ put key value entries) : entry = (key, value) ∨ entry ∈ entries := by
  induction entries with
  | nil => exact .inl (List.mem_singleton.1 h)
  | cons first rest ih =>
    obtain ⟨k, v⟩ := first
    rw [put] at h
    split at h
    · next hk =>
      subst hk
      exact (List.mem_cons.1 h).imp_right (List.mem_cons_of_mem _)
    · rcases List.mem_cons.1 h with rfl | h
      · exact .inr List.mem_cons_self
      · exact (ih h).imp_right (List.mem_cons_of_mem _)

theorem nodup_remove {key : κ} {entries : List (κ × α)} (h : (entries.map (·.1)).Nodup) :
    ((remove key entries).map (·.1)).Nodup := h.sublist (List.filter_sublist.map _)

theorem mem_of_find? {key : κ} {value : α} {entries : List (κ × α)}
    (h : find? key entries = some value) : (key, value) ∈ entries := by
  obtain ⟨⟨k, v⟩, hentry, rfl⟩ := Option.map_eq_some_iff.1 h
  have hk : k = key := by simpa using List.find?_some hentry
  exact hk ▸ List.mem_of_find?_eq_some hentry

end Chartwright.Assoc
