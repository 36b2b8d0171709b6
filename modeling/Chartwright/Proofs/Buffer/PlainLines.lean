import Chartwright.Proofs.Buffer.Joined
import Chartwright.Proofs.Buffer.Without
/-!
Lines that neither open nor close a subgraph, taken out and put in.

Without such lines all subgraphs are left, with the identifiers on their other lines
(`subgraphs_without_plain`), and the one that is meant by an identifier stays the one that is meant
(`subgraph?_without_plain`). One that spans none of the lines is moved at most
(`keptGroup_of_not_spans`). A line that is put in can be taken out again, so one that is put in
behind a subgraph leaves it as it is (`mem_subgraphs_insertAt`, `subgraph?_insertAt_behind`).
-/
namespace Chartwright

namespace Buffer

variable {b c : Buffer} {doomed : List Nat} {line : Line} {g h : Subgraph} {id : Text} {i k p : Nat}

/-- The listed lines neither open nor close a subgraph. -/
def Plain (b : Buffer) (doomed : List Nat) : Prop :=
  ∀ k ∈ doomed, Line.opensSubgraph (b.line k) = false ∧ Line.closesSubgraph (b.line k) = false

theorem plain_singleton (hopens : Line.opensSubgraph (b.line p) = false)
    (hcloses : Line.closesSubgraph (b.line p) = false) :
    Plain b [p] := List.forall_mem_singleton.2 ⟨hopens, hcloses⟩

theorem Plain.not_mem_of_opens (h : Plain b doomed)
    (hopens : Line.opensSubgraph (b.line k) = true) : k ∉ doomed := by
  intro hmem
  rw [(h k hmem).1] at hopens
  cases hopens

theorem Plain.not_mem_of_closes (h : Plain b doomed)
    (hcloses : Line.closesSubgraph (b.line k) = true) : k ∉ doomed := by
  intro hmem
  rw [(h k hmem).2] at hcloses
  cases hcloses

theorem Plain.paired (h : Plain b doomed) : Paired b doomed := fun _ _ hmatch =>
  iff_of_false (h.not_mem_of_opens hmatch.opens) (h.not_mem_of_closes hmatch.closes)

/-! ## Taken out -/

theorem keptInnermost?_plain (h : Plain b doomed) (hk : k < b.length) :
    keptInnermost? b doomed k = innermost? b k := by
  rw [keptInnermost?, innermost?]
  split
  · rfl
  · cases hstack : stack (b.take k) with
    | nil => rfl
    | cons top st =>
      have hmem : top ∈ stack (b.take k) := by rw [hstack]; exact List.mem_cons_self
      have hkept := h.not_mem_of_opens ((mem_stack_iff (Nat.le_of_lt hk)).1 hmem).2.1
      rw [List.find?_cons_of_pos (by simpa using hkept), List.head?_cons]

theorem keptMembersOf_plain (h : Plain b doomed) (i : Nat) :
    keptMembersOf b doomed i = ((linesOf b i).filter fun k => k ∉ doomed).flatMap fun k =>
      Line.identifiers (b.line k) := by
  rw [keptMembersOf, linesOf, List.filter_filter]
  congr 1
  refine List.filter_congr fun k hk => ?_
  rw [keptInnermost?_plain h (List.mem_range.1 hk), Bool.decide_and]

/-- All subgraphs are left. -/
theorem subgraphs_without_plain (h : Plain b doomed) :
    (b.without doomed).subgraphs = b.subgraphs.map (keptGroup b doomed) := by
  rw [subgraphs_without h.paired, List.filter_eq_self.2]
  exact fun g hg => decide_eq_true (h.not_mem_of_opens (matches_of_mem_subgraphs hg).opens)

/-- Of those with an identifier the same one opens first. -/
theorem subgraph?_without_plain (h : Plain b doomed) (hg : b.subgraph? id = some g) :
    (b.without doomed).subgraph? id = some (keptGroup b doomed g) := by
  obtain ⟨hmem, hid, hfirst⟩ := subgraph?_eq_some_iff.1 hg
  rw [subgraph?_eq_some_iff, subgraphs_without_plain h]
  refine ⟨List.mem_map_of_mem hmem, hid, fun k hk hkid => ?_⟩
  obtain ⟨other, hother, rfl⟩ := List.mem_map.1 hk
  exact numberWithout_le doomed (hfirst other hother hkid)

theorem spans_of_innermost? (hg : g ∈ b.subgraphs) (hk : k < b.length)
    (hinner : innermost? b k = some g.opening) : g.spans k = true := by
  obtain ⟨⟨-, hle, hclosed⟩, -⟩ := (innermost_iff hk).2 hinner
  rw [Subgraph.spans, Bool.and_eq_true, decide_eq_true_eq, decide_eq_true_eq]
  exact ⟨hle, hclosed _ (matches_of_mem_subgraphs hg)⟩

/-- A subgraph that spans none of the lines keeps its members. -/
theorem keptGroup_of_not_spans (h : Plain b doomed) (hg : g ∈ b.subgraphs)
    (hout : ∀ k ∈ doomed, g.spans k = false) :
    keptGroup b doomed g =
      { g with
        opening := numberWithout doomed g.opening
        closing := numberWithout doomed g.closing } := by
  have hlines : (linesOf b g.opening).filter (fun k => k ∉ doomed) = linesOf b g.opening := by
    refine List.filter_eq_self.2 fun k hk => ?_
    obtain ⟨hk, hinner⟩ := List.mem_filter.1 hk
    have hspans := spans_of_innermost? hg (List.mem_range.1 hk) (of_decide_eq_true hinner)
    rw [decide_eq_true_eq]
    intro hmem
    rw [hout k hmem] at hspans
    cases hspans
  rw [keptGroup, keptMembersOf_plain h, hlines, members_eq hg]
  rfl

/-! ## Put in behind -/

section PutIn

variable (hp : p ≤ c.length) (hopens : Line.opensSubgraph line = false)
  (hcloses : Line.closesSubgraph line = false)

include hp hopens hcloses

theorem plain_insertAt : Plain (c.insertAt p [line]) [p] := by
  have hself := line_insertAt_self hp line
  exact plain_singleton (by rw [hself, hopens]) (by rw [hself, hcloses])

theorem subgraphs_eq_of_insertAt :
    c.subgraphs = (subgraphs (c.insertAt p [line])).map (keptGroup (c.insertAt p [line]) [p]) := by
  rw [← subgraphs_without_plain (plain_insertAt hp hopens hcloses), without_insertAt_singleton hp]

/-- A line behind a subgraph leaves it as it is. -/
theorem mem_subgraphs_insertAt (hg : g ∈ c.subgraphs) (hbehind : g.closing < p) :
    g ∈ subgraphs (c.insertAt p [line]) := by
  have hplain := plain_insertAt hp hopens hcloses
  rw [subgraphs_eq_of_insertAt hp hopens hcloses] at hg
  obtain ⟨g', hg', rfl⟩ := List.mem_map.1 hg
  have hmatch := matches_of_mem_subgraphs hg'
  have hordered := hmatch.ordered
  have hne : g'.closing ≠ p := by simpa using hplain.not_mem_of_closes hmatch.closes
  have hclosing : (keptGroup (c.insertAt p [line]) [p] g').closing = _ :=
    numberWithout_singleton p g'.closing
  have hlt : g'.closing < p := by
    rw [hclosing] at hbehind
    split_ifs at hbehind <;> omega
  have hsame : keptGroup (c.insertAt p [line]) [p] g' = g' := by
    have hout : ∀ k ∈ [p], g'.spans k = false := by
      intro k hk
      rw [List.mem_singleton.1 hk, Subgraph.spans, Bool.and_eq_false_iff, decide_eq_false_iff_not,
        decide_eq_false_iff_not]
      omega
    rw [keptGroup_of_not_spans hplain hg' hout, numberWithout_singleton, numberWithout_singleton,
      if_pos (by omega), if_pos (by omega)]
  rwa [hsame]

theorem subgraph?_insertAt_behind (hg : c.subgraph? id = some g) (hbehind : g.closing < p) :
    subgraph? (c.insertAt p [line]) id = some g := by
  obtain ⟨hmem, hid, hfirst⟩ := subgraph?_eq_some_iff.1 hg
  rw [subgraph?_eq_some_iff]
  refine ⟨mem_subgraphs_insertAt hp hopens hcloses hmem hbehind, hid, fun h hh hhid => ?_⟩
  have hkept := List.mem_map_of_mem (f := keptGroup (c.insertAt p [line]) [p]) hh
  rw [← subgraphs_eq_of_insertAt hp hopens hcloses] at hkept
  exact Nat.le_trans (hfirst _ hkept hhid) (numberWithout_le_self [p] h.opening)

end PutIn

end Buffer
end Chartwright
