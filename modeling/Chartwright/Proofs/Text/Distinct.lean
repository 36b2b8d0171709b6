import Chartwright.Text.Basic
/-!
The first of each key.

Leaving out repeats keeps the first element of every key: no key comes twice
(`nodup_map_distinctBy`), and what is looked up by its key is found as before (`find?_distinctBy`).
-/
namespace Chartwright

variable {α β γ : Type} [DecidableEq β] {key : α → β}

/-- Leaving out repeats does not change what is found first. -/
theorem find?_distinctBy (key : α → β) (k : β) (xs : List α) :
    (distinctBy key xs).find? (fun x => decide (key x = k)) = xs.find? fun x =>
      decide (key x = k) := by
  induction xs with
  | nil => rfl
  | cons x xs ih =>
    rw [distinctBy, List.find?_cons, List.find?_cons]
    by_cases hx : key x = k
    · simp [hx]
    · simp only [hx, decide_false]
      rw [List.find?_filter, ← ih]
      congr 1
      funext y
      by_cases hy : key y = k
      · simp [hy, Ne.symm hx]
      · simp [hy]

theorem distinctBy_filter (key : α → β) (k : β) (xs : List α) :
    distinctBy key (xs.filter fun x => decide (key x ≠ k)) = (distinctBy key xs).filter fun x =>
      decide (key x ≠ k) := by
  induction xs with
  | nil => rfl
  | cons x xs ih =>
    by_cases hx : key x = k
    · rw [List.filter_cons_of_neg (by simpa using hx), ih, distinctBy,
        List.filter_cons_of_neg (by simpa using hx), List.filter_filter]
      exact List.filter_congr fun y _ => by simp [hx]
    · rw [List.filter_cons_of_pos (by simpa using hx), distinctBy, ih, distinctBy,
        List.filter_cons_of_pos (by simpa using hx), List.filter_filter, List.filter_filter]
      exact congrArg _ (List.filter_congr fun y _ => Bool.and_comm ..)

theorem exists_mem_distinctBy {x : α} {xs : List α} (h : x ∈ xs) :
    ∃ y ∈ distinctBy key xs, key y = key x := by
  have hsome : (xs.find? fun y => decide (key y = key x)).isSome = true :=
    List.find?_isSome.2 ⟨x, h, decide_eq_true rfl⟩
  rw [← find?_distinctBy] at hsome
  obtain ⟨y, hy, hkey⟩ := List.find?_isSome.1 hsome
  exact ⟨y, hy, of_decide_eq_true hkey⟩

/-- No key comes twice. -/
theorem nodup_map_distinctBy (key : α → β) (xs : List α) : ((distinctBy key xs).map key).Nodup := by
  induction xs with
  | nil => exact List.nodup_nil
  | cons x xs ih =>
    rw [distinctBy, List.map_cons, List.nodup_cons]
    refine ⟨fun hmem => ?_, ih.sublist (List.filter_sublist.map key)⟩
    obtain ⟨y, hy, hkey⟩ := List.mem_map.1 hmem
    simpa [hkey] using (List.mem_filter.1 hy).2

theorem map_distinctBy (f : γ → α) (key : α → β) (xs : List γ) :
    (distinctBy (fun x => key (f x)) xs).map f = distinctBy key (xs.map f) := by
  induction xs with
  | nil => rfl
  | cons x xs ih =>
    rw [distinctBy, List.map_cons, List.map_cons, distinctBy, ← ih, List.filter_map]
    rfl

theorem distinctBy_append_cons {y : α} {xs : List α} (h : ∃ x ∈ xs, key x = key y) (zs : List α) :
    distinctBy key (xs ++ y :: zs) = distinctBy key (xs ++ zs) := by
  induction xs with
  | nil => simp at h
  | cons x xs ih =>
    rw [List.cons_append, List.cons_append, distinctBy, distinctBy, ← distinctBy_filter,
      ← distinctBy_filter]
    by_cases hkey : key x = key y
    · rw [List.filter_append, List.filter_append, List.filter_cons_of_neg (by simp [hkey])]
    · obtain ⟨x', hx', hsame⟩ := h
      rcases List.mem_cons.1 hx' with rfl | hx'
      · exact absurd hsame hkey
      · rw [distinctBy_filter, distinctBy_filter, ih ⟨x', hx', hsame⟩]

theorem distinctBy_skip {xs ys : List α} (h : ∀ y ∈ ys, ∃ x ∈ xs, key x = key y) (zs : List α) :
    distinctBy key (xs ++ (ys ++ zs)) = distinctBy key (xs ++ zs) := by
  induction ys with
  | nil => rfl
  | cons y ys ih =>
    obtain ⟨hfirst, hrest⟩ := List.forall_mem_cons.1 h
    rw [List.cons_append, distinctBy_append_cons hfirst, ih hrest]

theorem mem_distinct {x : β} {xs : List β} (h : x ∈ xs) : x ∈ distinct xs := by
  obtain ⟨y, hy, hkey⟩ : ∃ y ∈ distinctBy id xs, id y = id x := exists_mem_distinctBy h
  rwa [← show y = x from hkey]

theorem mem_distinct_iff {x : β} {xs : List β} : x ∈ distinct xs ↔ x ∈ xs :=
  ⟨fun h => mem_distinctBy h, mem_distinct⟩

theorem distinct_concat {x : β} {xs : List β} (h : x ∉ xs) :
    distinct (xs ++ [x]) = distinct xs ++ [x] := by
  induction xs with
  | nil => rfl
  | cons y ys ih =>
    rw [List.mem_cons, not_or] at h
    have hdistinct : ∀ zs, distinct (y :: zs) = y :: (distinct zs).filter fun z => z ≠ y :=
      fun _ => rfl
    rw [List.cons_append, hdistinct, hdistinct, ih h.2, List.filter_append,
      List.filter_cons_of_pos (by simpa using h.1)]
    rfl

theorem find?_eq_some_of_unique (key : α → β) {x : α} {xs : List α} (hmem : x ∈ xs)
    (h : ∀ y ∈ xs, key y = key x → y = x) :
    (xs.find? fun y => decide (key y = key x)) = some x := by
  cases hfind : xs.find? fun y => decide (key y = key x) with
  | none =>
    have hnone := List.find?_eq_none.1 hfind x hmem
    simp at hnone
  | some y =>
    have hkey : key y = key x := by simpa using List.find?_some hfind
    rw [h y (List.mem_of_find?_eq_some hfind) hkey]

end Chartwright
