import Chartwright.Proofs.Number.IntegerText
import Chartwright.Session.Operation
/-!
What is selected, and whether a text has it.

A selection has four places, of which at most one entity is to be set, the one that the kind names.
Such selections are those that a target leaves when it is chosen (`Selection.coherent_iff`),
whatever was selected before (`Selection.choose_eq`), and what is asked of them is answered as for
the target (`Selection.isNode_of`, `Selection.isEdge_of`, `Selection.isGroup_of`).
-/
namespace Chartwright.Selection

variable {t : Text} {s left : Selection} {target : Target}

/-! ## Targets -/

/-- The selection that a target leaves. -/
def of (target : Target) : Selection := none.choose target

/-- Nothing of the selection before is left. -/
theorem choose_eq (s : Selection) (target : Target) : s.choose target = of target := by
  cases target <;> rfl

theorem isNode_of {id : Text} : (of target).isNode id = true ↔ target = .node id := by
  cases target <;> simp [of, choose, clear, isNode]

theorem isEdge_of {e : Edge} : (of target).isEdge e = true ↔ target = .edge e := by
  cases target <;> simp [of, choose, clear, isEdge]

theorem isEdge_of_ne {e f : Edge} (h : f ≠ e) : (of (.edge e)).isEdge f = false := by
  rw [Bool.eq_false_iff, ne_eq, isEdge_of]
  rintro ⟨⟩
  exact h rfl

theorem isGroup_of {id : Text} : (of target).isGroup id = true ↔ target = .group id := by
  cases target <;> simp [of, choose, clear, isGroup]

/-- At most one entity is set, the one that the kind names. -/
structure Coherent (s : Selection) : Prop where
  node : s.node?.isSome ↔ s.kind = .node
  edge : s.edge?.isSome ↔ s.kind = .edge
  group : s.group?.isSome ↔ s.kind = .group
  one : s.node? = Option.none ∨ s.edge? = Option.none
  other : (s.node? = Option.none ∧ s.edge? = Option.none) ∨ s.group? = Option.none

theorem coherent_of (target : Target) : (of target).Coherent := by
  cases target <;> constructor <;> simp [of, choose, clear]

/-- The four places tell as much as a target, if they are coherent. -/
theorem coherent_iff : s.Coherent ↔ ∃ target, s = of target := by
  constructor
  · intro h
    obtain ⟨kind, node, edge, group⟩ := s
    cases kind with
    | none =>
      have hnode : node = .none := by simpa using h.node
      have hedge : edge = .none := by simpa using h.edge
      have hgroup : group = .none := by simpa using h.group
      exact ⟨.none, by rw [hnode, hedge, hgroup]; rfl⟩
    | node =>
      obtain ⟨id, rfl⟩ := Option.isSome_iff_exists.1 (h.node.2 rfl)
      have hedge : edge = .none := by simpa using h.edge
      have hgroup : group = .none := by simpa using h.group
      exact ⟨.node id, by rw [hedge, hgroup]; rfl⟩
    | edge =>
      obtain ⟨e, rfl⟩ := Option.isSome_iff_exists.1 (h.edge.2 rfl)
      have hnode : node = .none := by simpa using h.node
      have hgroup : group = .none := by simpa using h.group
      exact ⟨.edge e, by rw [hnode, hgroup]; rfl⟩
    | group =>
      obtain ⟨id, rfl⟩ := Option.isSome_iff_exists.1 (h.group.2 rfl)
      have hnode : node = .none := by simpa using h.node
      have hedge : edge = .none := by simpa using h.edge
      exact ⟨.group id, by rw [hnode, hedge]; rfl⟩
  · rintro ⟨target, rfl⟩
    exact coherent_of target

theorem coherent_choose (s : Selection) (target : Target) : (s.choose target).Coherent :=
  choose_eq s target ▸ coherent_of target

/-! ## Selections that a text has -/

/-- A text has what is selected. -/
def FoundIn (t : Text) (s : Selection) : Prop :=
  match s.kind with
  | .none => True
  | .node => ∃ id ids, s.node? = some id ∧ (Buffer.ofText t).ids = .ok ids ∧ id ∈ ids
  | .edge => ∃ e, s.edge? = some e ∧ e ∈ (Buffer.ofText t).edges
  | .group => ∃ id, s.group? = some id ∧ (Buffer.ofText t).subgraph? id ≠ Option.none

/-- The identifiers of a text are needed to tell whether it has what is selected, and cannot be
listed. -/
def LostIn (t : Text) (s : Selection) : Prop :=
  s.kind = .node ∧ ∃ long, (Buffer.ofText t).ids = .error long

theorem foundIn_iff : s.FoundIn t ↔ s.existsIn t = .ok true := by
  obtain ⟨kind, node, edge, group⟩ := s
  cases kind with
  | none => simp [FoundIn, existsIn]
  | edge => simp [FoundIn, existsIn, Option.any_eq_true]
  | group => simp [FoundIn, existsIn, Option.any_eq_true, Option.isSome_iff_ne_none]
  | node =>
    cases h : (Buffer.ofText t).ids with
    | error long => simp [FoundIn, existsIn, h, Except.map]
    | ok ids => simp [FoundIn, existsIn, h, Except.map, Option.any_eq_true]

theorem lostIn_iff : s.LostIn t ↔ ∃ long, s.existsIn t = .error long := by
  obtain ⟨kind, node, edge, group⟩ := s
  cases kind with
  | none => simp [LostIn, existsIn]
  | edge => simp [LostIn, existsIn]
  | group => simp [LostIn, existsIn]
  | node =>
    cases h : (Buffer.ofText t).ids with
    | error long => simp [LostIn, existsIn, h, Except.map]
    | ok ids => simp [LostIn, existsIn, h, Except.map]

theorem existsIn_of_revalidate_error {long : Integer.TooLong} (h : s.revalidate t = .error long) :
    s.existsIn t = .error long := by
  unfold revalidate at h
  cases he : s.existsIn t with
  | ok found => simp [he, Except.map] at h
  | error long' =>
    simp only [he, Except.map, Except.error.injEq] at h
    exact h ▸ rfl

theorem eq_or_eq_of_revalidate (h : s.revalidate t = .ok left) : left = s ∨ left = of .none := by
  obtain ⟨found, -, rfl⟩ := Except.exists_of_map_eq_ok h
  cases found with
  | true => exact .inl rfl
  | false => exact .inr rfl

theorem Coherent.of_revalidate (hs : s.Coherent) (h : s.revalidate t = .ok left) :
    left.Coherent := by
  rcases eq_or_eq_of_revalidate h with rfl | rfl
  · exact hs
  · exact coherent_of .none

theorem revalidate_of_edge (e : Edge) (t : Text) :
    (of (.edge e)).revalidate t =
      .ok (of (if e ∈ (Buffer.ofText t).edges then .edge e else .none)) := by
  by_cases h : e ∈ (Buffer.ofText t).edges <;>
    simp [h, revalidate, existsIn, of, choose, Except.map, clear]

theorem not_lostIn_of_foundIn (h : s.FoundIn t) : ¬ s.LostIn t := by
  intro lost
  obtain ⟨long, hlong⟩ := lostIn_iff.1 lost
  rw [foundIn_iff.1 h] at hlong
  cases hlong

theorem foundIn_none (t : Text) : FoundIn t (of .none) := trivial

theorem foundIn_choose_none (s : Selection) (t : Text) : (s.choose .none).FoundIn t :=
  foundIn_none t

theorem foundIn_choose_edge {e : Edge} (s : Selection) (h : e ∈ (Buffer.ofText t).edges) :
    (s.choose (.edge e)).FoundIn t := ⟨e, rfl, h⟩

end Chartwright.Selection
