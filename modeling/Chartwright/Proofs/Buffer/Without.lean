import Chartwright.Proofs.Buffer.Nesting
import Chartwright.Proofs.Buffer.View
/-!
The subgraphs of a buffer without some of its lines.

The lines that are kept get lower numbers (`numberWithout`). If of two matching lines either both
are kept or both are gone, then the stack of the scan before a kept line is the old one without the
openings that are gone (`stack_without`). So a kept line belongs to the innermost opening around it
that is kept (`innermost?_without`), and the subgraphs are those whose lines are kept, with what
then belongs to them (`subgraphs_without`).
-/
namespace Chartwright

namespace Buffer

variable {b : Buffer} {doomed : List Nat} {line : Line} {i j k n : Nat}

/-! ## The lines that are kept -/

/-- The number that a line has once the listed lines are gone. -/
def numberWithout (doomed : List Nat) (k : Nat) : Nat :=
  ((List.range k).filter fun i => i ∉ doomed).length

theorem numberWithout_succ (doomed : List Nat) (k : Nat) :
    numberWithout doomed (k + 1) = numberWithout doomed k + if k ∈ doomed then 0 else 1 := by
  rw [numberWithout, List.range_succ, List.filter_append, List.length_append, numberWithout]
  split <;> simp_all

theorem numberWithout_le (doomed : List Nat) (h : i ≤ j) :
    numberWithout doomed i ≤ numberWithout doomed j := by
  induction h with
  | refl => exact Nat.le_refl _
  | step _ ih => exact Nat.le_trans ih (by rw [numberWithout_succ]; exact Nat.le_add_right ..)

theorem numberWithout_le_self (doomed : List Nat) (k : Nat) : numberWithout doomed k ≤ k :=
  Nat.le_trans (List.length_filter_le ..) (Nat.le_of_eq List.length_range)

theorem numberWithout_lt (hi : i ∉ doomed) (h : i < j) :
    numberWithout doomed i < numberWithout doomed j := by
  refine Nat.lt_of_lt_of_le ?_ (numberWithout_le doomed h)
  rw [numberWithout_succ, if_neg hi]
  exact Nat.lt_succ_self _

theorem numberWithout_le_iff (hj : j ∉ doomed) :
    numberWithout doomed i ≤ numberWithout doomed j ↔ i ≤ j := by
  refine ⟨fun h => Nat.le_of_not_lt fun hlt => ?_, numberWithout_le doomed⟩
  exact absurd (numberWithout_lt hj hlt) (Nat.not_lt.2 h)

theorem numberWithout_inj (hi : i ∉ doomed) (hj : j ∉ doomed) :
    numberWithout doomed i = numberWithout doomed j ↔ i = j := by
  rw [Nat.eq_iff_le_and_ge, numberWithout_le_iff hj, numberWithout_le_iff hi, Nat.eq_iff_le_and_ge]

theorem range_numberWithout (doomed : List Nat) (n : Nat) :
    List.range (numberWithout doomed n) =
      ((List.range n).filter fun k => k ∉ doomed).map (numberWithout doomed) := by
  induction n with
  | zero => rfl
  | succ n ih =>
    rw [numberWithout_succ, List.range_succ, List.filter_append, List.map_append, ← ih]
    split
    · next h => simp [h]
    · next h => rw [List.range_succ]; simp [h]

theorem without_concat (doomed : List Nat) (b : Buffer) (line : Line) :
    without doomed (b ++ [line]) =
      b.without doomed ++ if b.length ∈ doomed then [] else [line] := by
  rw [without, List.zipIdx_append, List.filter_append, List.map_append, without, Nat.zero_add,
    List.zipIdx_singleton]
  split <;> simp_all

theorem length_without (doomed : List Nat) (b : Buffer) :
    (b.without doomed).length = numberWithout doomed b.length := by
  induction b using List.reverseRecOn with
  | nil => rfl
  | append_singleton b line ih =>
    rw [without_concat, List.length_append, ih, List.length_append, List.length_singleton,
      numberWithout_succ]
    split <;> rfl

theorem take_without_isPrefix (doomed : List Nat) (b : Buffer) (n : Nat) :
    without doomed (b.take n) <+: b.without doomed := by
  have hsplit := List.take_append_drop n b
  conv => rhs; rw [← hsplit]
  rw [without, without, List.zipIdx_append, List.filter_append, List.map_append]
  exact List.prefix_append _ _

theorem take_without (h : n ≤ b.length) :
    (b.without doomed).take (numberWithout doomed n) = without doomed (b.take n) := by
  have hlength := length_without doomed (b.take n)
  rw [List.length_take, Nat.min_eq_left h] at hlength
  rw [← hlength]
  exact (List.prefix_iff_eq_take.1 (take_without_isPrefix doomed b n)).symm

theorem line_without (hk : k < b.length) (hkept : k ∉ doomed) :
    (b.without doomed).line (numberWithout doomed k) = b.line k := by
  have hlength := length_without doomed (b.take k)
  have htake : (b.take k).length = k := by rw [List.length_take, Nat.min_eq_left (Nat.le_of_lt hk)]
  obtain ⟨rest, hrest⟩ := take_without_isPrefix doomed b (k + 1)
  rw [take_succ_eq hk, without_concat, htake, if_neg hkept, List.append_assoc,
    List.singleton_append] at hrest
  rw [htake] at hlength
  rw [← hrest, ← hlength]
  exact line_append_cons ..

theorem exists_of_line_without (hn : n < (b.without doomed).length) :
    ∃ k < b.length, k ∉ doomed ∧ numberWithout doomed k = n ∧
      (b.without doomed).line n = b.line k := by
  have hmem := List.mem_range.2 hn
  rw [length_without, range_numberWithout] at hmem
  obtain ⟨k, hk, rfl⟩ := List.mem_map.1 hmem
  obtain ⟨hk, hkept⟩ := List.mem_filter.1 hk
  have hkept := of_decide_eq_true hkept
  exact ⟨k, List.mem_range.1 hk, hkept, rfl, line_without (List.mem_range.1 hk) hkept⟩

/-- The lines that are left, by their old numbers. -/
theorem without_eq_map (doomed : List Nat) (b : Buffer) :
    b.without doomed = ((List.range b.length).filter fun k => k ∉ doomed).map b.line := by
  have hself : ∀ c : Buffer, (List.range c.length).map c.line = c := by
    intro c
    exact List.ext_getElem (by simp) fun k hk _ => by simp_all [Buffer.line]
  calc b.without doomed
      = (List.range (b.without doomed).length).map (b.without doomed).line := (hself _).symm
    _ = ((List.range b.length).filter fun k => k ∉ doomed).map fun k =>
      (b.without doomed).line (numberWithout doomed k) := by
      rw [length_without, range_numberWithout, List.map_map]
      rfl
    _ = ((List.range b.length).filter fun k => k ∉ doomed).map b.line := by
      refine List.map_congr_left fun k hk => ?_
      obtain ⟨hk, hkept⟩ := List.mem_filter.1 hk
      exact line_without (List.mem_range.1 hk) (of_decide_eq_true hkept)

theorem mem_of_mem_without (h : line ∈ b.without doomed) : line ∈ b := by
  obtain ⟨entry, hentry, rfl⟩ := List.mem_map.1 h
  exact List.fst_mem_of_mem_zipIdx (List.mem_filter.1 hentry).1

/-! ## The stack -/

/-- Of two matching lines both are gone or both are kept. -/
def Paired (b : Buffer) (doomed : List Nat) : Prop :=
  ∀ i j, Matches b i j → (i ∈ doomed ↔ j ∈ doomed)

/-- The stack without the openings that are gone. -/
theorem stack_without (h : Paired b doomed) (hn : n ≤ b.length) :
    stack (without doomed (b.take n)) =
      ((stack (b.take n)).filter fun i => i ∉ doomed).map (numberWithout doomed) := by
  induction n with
  | zero => rfl
  | succ n ih =>
    have ih := ih (Nat.le_of_succ_le hn)
    have htake : (b.take n).length = n := by
      rw [List.length_take, Nat.min_eq_left (Nat.le_of_succ_le hn)]
    have hlength := length_without doomed (b.take n)
    rw [htake] at hlength
    rw [take_succ_eq hn, without_concat, htake]
    cases hopens : Line.opensSubgraph (b.line n) with
    | true =>
      rw [stack_of_opens hopens, htake]
      split
      · next hgone => rw [List.append_nil, ih, List.filter_cons_of_neg (by simpa using hgone)]
      · next hkept =>
        rw [stack_of_opens hopens, ih, hlength, List.filter_cons_of_pos (by simpa using hkept),
          List.map_cons]
    | false =>
      cases hcloses : Line.closesSubgraph (b.line n) with
      | false =>
        rw [stack_of_plain hopens hcloses]
        split
        · rw [List.append_nil, ih]
        · rw [stack_of_plain hopens hcloses, ih]
      | true =>
        rw [stack_of_closes hcloses]
        cases hstack : stack (b.take n) with
        | nil =>
          rw [hstack] at ih
          split
          · rw [List.append_nil, ih]
            rfl
          · rw [stack_of_closes hcloses, ih]
            rfl
        | cons top st =>
          -- the line matches the opening on top
          have hpair := h top n (matches_iff.2 ⟨hcloses, by rw [hstack]; rfl⟩)
          rw [hstack] at ih
          rw [List.tail_cons]
          split
          · next hgone =>
              rw [List.append_nil, ih, List.filter_cons_of_neg (by simpa using hpair.2 hgone)]
          · next hkept =>
            have htop : top ∉ doomed := mt hpair.1 hkept
            rw [stack_of_closes hcloses, ih, List.filter_cons_of_pos (by simpa using htop),
              List.map_cons, List.tail_cons]

/-- The opening that a line belongs to once others are gone: the line itself, or the innermost one
around it that is kept. -/
def keptInnermost? (b : Buffer) (doomed : List Nat) (k : Nat) : Option Nat :=
  if Line.opensSubgraph (b.line k) then some k else (stack (b.take k)).find? fun i => i ∉ doomed

theorem innermost?_without (h : Paired b doomed) (hk : k < b.length) (hkept : k ∉ doomed) :
    innermost? (b.without doomed) (numberWithout doomed k) =
      (keptInnermost? b doomed k).map (numberWithout doomed) := by
  rw [innermost?, line_without hk hkept, take_without (Nat.le_of_lt hk),
    stack_without h (Nat.le_of_lt hk), keptInnermost?, List.head?_map, List.head?_filter]
  split <;> rfl

/-! ## The subgraphs -/

/-- What is on the lines that then belong to an opening, repeats included. -/
def keptMembersOf (b : Buffer) (doomed : List Nat) (i : Nat) : List Text :=
  ((List.range b.length).filter fun k => k ∉ doomed ∧
    keptInnermost? b doomed k = some i).flatMap fun k => Line.identifiers (b.line k)

theorem not_mem_of_keptInnermost? (hkept : k ∉ doomed) (h : keptInnermost? b doomed k = some i) :
    i ∉ doomed := by
  rw [keptInnermost?] at h
  split at h
  · exact Option.some.inj h ▸ hkept
  · simpa using List.find?_some h

theorem flatMap_filter_eq {α β : Type} (p : α → Bool) (f : α → List β) (xs : List α) :
    (xs.filter p).flatMap f = xs.flatMap fun x => if p x then f x else [] := by
  induction xs with
  | nil => rfl
  | cons x xs ih =>
    rw [List.filter_cons, List.flatMap_cons, ← ih]
    split <;> rfl

/-- The lines that are gone may be counted in if nothing is on them. -/
theorem keptMembersOf_eq {p : Nat → Bool}
    (hkept : ∀ k < b.length, k ∉ doomed → (p k = true ↔ keptInnermost? b doomed k = some i))
    (hgone : ∀ k ∈ doomed, p k = true → Line.identifiers (b.line k) = []) :
    keptMembersOf b doomed i = ((List.range b.length).filter p).flatMap fun k =>
      Line.identifiers (b.line k) := by
  rw [keptMembersOf, flatMap_filter_eq, flatMap_filter_eq]
  refine List.flatMap_congr fun k hk => ?_
  by_cases hmem : k ∈ doomed
  · rw [if_neg (by simp [hmem])]
    split
    · next hp => exact (hgone k hmem hp).symm
    · rfl
  · have hiff := hkept k (List.mem_range.1 hk) hmem
    by_cases hp : p k = true
    · rw [if_pos hp, if_pos (by simp [hmem, hiff.1 hp])]
    · rw [if_neg hp, if_neg (by simp [hmem, mt hiff.2 hp])]

theorem membersOf_without (h : Paired b doomed) (hi : i ∉ doomed) :
    membersOf (b.without doomed) (numberWithout doomed i) = keptMembersOf b doomed i := by
  rw [membersOf, linesOf, length_without, range_numberWithout, List.filter_map, List.flatMap_map,
    List.filter_filter, keptMembersOf]
  have hmem : ∀ k ∈ List.range b.length, k ∉ doomed →
      (innermost? (b.without doomed) (numberWithout doomed k) = some (numberWithout doomed i) ↔
        keptInnermost? b doomed k = some i) := by
    intro k hk hkept
    rw [innermost?_without h (List.mem_range.1 hk) hkept, Option.map_eq_some_iff]
    constructor
    · rintro ⟨i', hi', heq⟩
      rw [hi', (numberWithout_inj (not_mem_of_keptInnermost? hkept hi') hi).1 heq]
    · exact fun hsome => ⟨i, hsome, rfl⟩
  have hlines : ((List.range b.length).filter fun k =>
      ((fun k => decide (innermost? (b.without doomed) k = some (numberWithout doomed i))) ∘
        numberWithout doomed) k && decide (k ∉ doomed)) =
      (List.range b.length).filter fun k =>
        decide (k ∉ doomed ∧ keptInnermost? b doomed k = some i) := by
    refine List.filter_congr fun k hk => ?_
    by_cases hkept : k ∉ doomed
    · simp [hkept, hmem k hk hkept]
    · simp [hkept]
  rw [hlines]
  refine List.flatMap_congr fun k hk => ?_
  obtain ⟨hk, hline⟩ := List.mem_filter.1 hk
  rw [line_without (List.mem_range.1 hk) (of_decide_eq_true hline).1]

/-- A subgraph on the lines that are kept, with what then belongs to it. -/
def keptGroup (b : Buffer) (doomed : List Nat) (g : Subgraph) : Subgraph where
  id := g.id
  title := g.title
  members := distinct (keptMembersOf b doomed g.opening)
  opening := numberWithout doomed g.opening
  closing := numberWithout doomed g.closing

theorem group?_without (h : Paired b doomed) (hi : i ∉ doomed) (hlt : i < b.length) (j : Nat) :
    group? (b.without doomed) (numberWithout doomed i) (numberWithout doomed j) =
      (group? b i j).map (keptGroup b doomed) := by
  rw [group?, group?, line_without hlt hi, membersOf_without h hi, Option.map_map]
  rfl

theorem closedOn?_without (h : Paired b doomed) (hj : j < b.length) (hkept : j ∉ doomed) :
    closedOn? (b.without doomed) (numberWithout doomed j) =
      (closedOn? b j).map (keptGroup b doomed) := by
  rw [closedOn?, line_without hj hkept, take_without (Nat.le_of_lt hj),
    stack_without h (Nat.le_of_lt hj), closedOn?]
  split
  · next hcloses =>
    cases hstack : stack (b.take j) with
    | nil => rfl
    | cons top st =>
      have hmatch : Matches b top j := matches_iff.2 ⟨hcloses, by rw [hstack]; rfl⟩
      have htop : top ∉ doomed := mt (h top j hmatch).1 hkept
      rw [List.filter_cons_of_pos (by simpa using htop), List.map_cons, List.head?_cons,
        List.head?_cons, Option.bind_some, Option.bind_some,
        group?_without h htop (lt_length_of_opens hmatch.opens)]
  · rfl

/-- The subgraphs on the lines that are kept. -/
theorem subgraphs_without (h : Paired b doomed) :
    (b.without doomed).subgraphs =
      (b.subgraphs.filter fun g => g.opening ∉ doomed).map (keptGroup b doomed) := by
  rw [subgraphs_eq_filterMap, subgraphs_eq_filterMap, length_without, range_numberWithout,
    List.filterMap_map, List.filter_filterMap, List.map_filterMap, List.filterMap_filter]
  refine List.filterMap_congr fun j hj => ?_
  have hj := List.mem_range.1 hj
  have hgone : ∀ g, closedOn? b j = some g → (g.opening ∈ doomed ↔ j ∈ doomed) := by
    intro g hg
    obtain ⟨i, hmatch, hgroup⟩ := closedOn?_eq_some_iff.1 hg
    obtain ⟨rfl, -⟩ := exists_of_group? hgroup
    exact h g.opening j hmatch
  by_cases hkept : j ∉ doomed
  · rw [if_pos (by simpa using hkept), Function.comp_apply, closedOn?_without h hj hkept]
    cases hg : closedOn? b j with
    | none => rfl
    | some g =>
      have hopening : g.opening ∉ doomed := mt (hgone g hg).1 hkept
      simp [Option.filter, hopening]
  · rw [if_neg (by simpa using hkept)]
    cases hg : closedOn? b j with
    | none => rfl
    | some g =>
      have hopening : g.opening ∈ doomed := (hgone g hg).2 (Decidable.not_not.1 hkept)
      simp [Option.filter, hopening]

/-! ## Lines put in and taken out -/

/-- Lines that are put in and taken out again. -/
theorem without_insertAt {p : Nat} (hp : p ≤ b.length) (new : List Line) :
    (b.insertAt p new).without (List.range' p new.length) = b := by
  have hlength : (b.take p).length = p := by rw [List.length_take, Nat.min_eq_left hp]
  have hkept : ∀ (c : Buffer) (i : Nat), i + c.length ≤ p ∨ p + new.length ≤ i →
      ((c.zipIdx i).filter fun entry => !(List.range' p new.length).contains entry.2).map (·.1) =
        c := by
    intro c i houtside
    rw [List.filter_eq_self.2, List.zipIdx_map_fst]
    intro entry hentry
    have hle := List.le_snd_of_mem_zipIdx hentry
    have hlt := List.snd_lt_add_of_mem_zipIdx hentry
    simp only [List.contains_eq_mem, List.mem_range'_1, Bool.not_eq_true', decide_eq_false_iff_not]
    omega
  have hgone : (new.zipIdx p).filter (fun entry => !(List.range' p new.length).contains entry.2) =
      [] := by
    refine List.filter_eq_nil_iff.2 fun entry hentry => ?_
    have hle := List.le_snd_of_mem_zipIdx hentry
    have hlt := List.snd_lt_add_of_mem_zipIdx hentry
    simpa [List.mem_range'_1] using ⟨hle, by omega⟩
  rw [without, insertAt, List.zipIdx_append, List.zipIdx_append, List.filter_append,
    List.filter_append, List.map_append, List.map_append, Nat.zero_add, List.length_append,
    Nat.zero_add, hlength, hgone, hkept _ _ (.inl (by omega)), hkept _ _ (.inr (Nat.le_refl _)),
    List.map_nil, List.append_nil, List.take_append_drop]

theorem without_append_of_lt {x : Buffer} (h : ∀ k ∈ doomed, k < x.length) (y : Buffer) :
    without doomed (x ++ y) = x.without doomed ++ y := by
  have hkept : (y.zipIdx x.length).filter (fun entry => !doomed.contains entry.2) =
      y.zipIdx x.length := by
    refine List.filter_eq_self.2 fun entry hentry => ?_
    have hle := List.le_snd_of_mem_zipIdx hentry
    have hnot : entry.2 ∉ doomed := fun hmem => absurd (h entry.2 hmem) (Nat.not_lt.2 hle)
    simpa using hnot
  rw [without, List.zipIdx_append, List.filter_append, List.map_append, Nat.zero_add, hkept,
    List.zipIdx_map_fst, without]

theorem without_insertAt_of_lt {p : Nat} (hp : p ≤ b.length) (h : ∀ k ∈ doomed, k < p)
    (new : List Line) :
    (b.insertAt p new).without doomed =
      (b.without doomed).insertAt (numberWithout doomed p) new := by
  have hlength : (b.take p).length = p := by rw [List.length_take, Nat.min_eq_left hp]
  have hbefore : ∀ k ∈ doomed, k < (b.take p).length := by rwa [hlength]
  have hplace : numberWithout doomed p = (without doomed (b.take p)).length := by
    rw [length_without, hlength]
  have hsplit : b.without doomed = without doomed (b.take p) ++ b.drop p := by
    rw [← without_append_of_lt hbefore, List.take_append_drop]
  rw [insertAt, List.append_assoc, without_append_of_lt hbefore, hsplit, hplace, insertAt,
    List.take_left, List.drop_left, List.append_assoc]

theorem line_insertAt_mem {p : Nat} (hp : p ≤ b.length) {new : List Line}
    (hk : k ∈ List.range' p new.length) : Buffer.line (b.insertAt p new) k ∈ new := by
  obtain ⟨hle, hlt⟩ := List.mem_range'_1.1 hk
  have hlength : (b.take p).length = p := by rw [List.length_take, Nat.min_eq_left hp]
  rw [Buffer.line, insertAt, List.append_assoc, List.getElem?_append_right (by omega), hlength,
    List.getElem?_append_left (by omega), List.getElem?_eq_getElem (by omega), Option.getD_some]
  exact List.getElem_mem _

/-! ## One line -/

theorem without_insertAt_singleton {p : Nat} (hp : p ≤ b.length) (line : Line) :
    (b.insertAt p [line]).without [p] = b :=
  without_insertAt hp [line]

theorem line_insertAt_self {p : Nat} (hp : p ≤ b.length) (line : Line) :
    Buffer.line (b.insertAt p [line]) p = line := by
  have hmem : Buffer.line (b.insertAt p [line]) p ∈ [line] :=
    line_insertAt_mem hp (List.mem_singleton_self p)
  exact List.mem_singleton.1 hmem

theorem numberWithout_singleton (p k : Nat) : numberWithout [p] k = if k ≤ p then k else k - 1 := by
  induction k with
  | zero => rfl
  | succ k ih =>
    rw [numberWithout_succ, ih]
    simp only [List.mem_singleton]
    split_ifs <;> omega

theorem eraseIdx_eq_without (b : Buffer) (p : Nat) : b.eraseIdx p = b.without [p] := by
  induction b using List.reverseRecOn with
  | nil => rfl
  | append_singleton b line ih =>
    rw [without_concat]
    rcases Nat.lt_trichotomy p b.length with hlt | rfl | hgt
    · rw [List.eraseIdx_append_of_lt_length hlt, ih, if_neg (by simp; omega)]
    · rw [List.eraseIdx_append_of_length_le (Nat.le_refl _), Nat.sub_self, if_pos (by simp), ← ih,
        List.eraseIdx_of_length_le (Nat.le_refl _)]
      rfl
    · rw [List.eraseIdx_of_length_le (by simp; omega), if_neg (by simp; omega), ← ih,
        List.eraseIdx_of_length_le (Nat.le_of_lt hgt)]

/-! ## The other entities -/

theorem forall_doomed_concat (p : Line → Prop)
    (h : ∀ k ∈ doomed, k < (b ++ [line]).length → p (Buffer.line (b ++ [line]) k)) :
    (∀ k ∈ doomed, k < b.length → p (b.line k)) ∧ (b.length ∈ doomed → p line) := by
  refine ⟨fun k hk hlt => ?_, fun hlast => ?_⟩
  · have hline := h k hk (by rw [List.length_append]; omega)
    rwa [line_append_of_lt hlt] at hline
  · have hline := h b.length hlast (by simp)
    rwa [line_append_cons] at hline

theorem flatMap_without_congr {α : Type} {read : Line → List α} {fewer : List Nat}
    (hfewer : ∀ k ∈ fewer, k ∈ doomed)
    (h : ∀ k ∈ doomed, k ∉ fewer → k < b.length → read (b.line k) = []) :
    (b.without doomed).flatMap read = (b.without fewer).flatMap read := by
  rw [without_eq_map, without_eq_map, List.flatMap_map, List.flatMap_map, flatMap_filter_eq,
    flatMap_filter_eq]
  refine List.flatMap_congr fun k hk => ?_
  by_cases hmem : k ∈ fewer
  · simp [hmem, hfewer k hmem]
  · by_cases hgone : k ∈ doomed
    · simp [hmem, hgone, h k hgone hmem (List.mem_range.1 hk)]
    · simp [hmem, hgone]

theorem without_nil (b : Buffer) : b.without [] = b := by
  rw [without, List.filter_eq_self.2 (fun entry _ => by simp), List.zipIdx_map_fst]

theorem flatMap_without {α : Type} {read : Line → List α}
    (h : ∀ k ∈ doomed, k < b.length → read (b.line k) = []) :
    (b.without doomed).flatMap read = b.flatMap read := by
  rw [flatMap_without_congr (List.forall_mem_nil _) fun k hk _ => h k hk, without_nil]

theorem map_entry_nodes_without (hdeclares : ∀ k ∈ doomed, k < b.length → (b.line k).declares = [])
    (hrefers : ∀ k ∈ doomed, k < b.length → (b.line k).refers = []) :
    (b.without doomed).nodes.map entry = b.nodes.map entry := by
  rw [map_entry_nodes, map_entry_nodes, flatMap_without hdeclares, flatMap_without hrefers]

theorem links_without (h : ∀ k ∈ doomed, k < b.length → edgeOn? (b.line k) 0 = none) :
    (b.without doomed).links = b.links := by
  rw [links, links, List.filterMap_eq_flatMap_toList, List.filterMap_eq_flatMap_toList]
  refine flatMap_without fun k hk hlt => ?_
  rw [h k hk hlt]
  rfl

theorem styles_without (h : ∀ k ∈ doomed, k < b.length → StyleLine.read (b.line k) = .ok none) :
    (b.without doomed).styles = b.styles := by
  rw [styles_eq_settings, styles_eq_settings]
  congr 1
  induction b using List.reverseRecOn with
  | nil => rfl
  | append_singleton b line ih =>
    obtain ⟨hbefore, hlast⟩ := forall_doomed_concat (fun line => StyleLine.read line = .ok none) h
    rw [without_concat]
    split
    · next hgone =>
      rw [List.append_nil, ih hbefore, settings_concat, hlast hgone]
      cases settings b <;> simp [bind, Except.bind, pure, Except.pure]
    · rw [settings_concat, settings_concat, ih hbefore]

end Buffer
end Chartwright
