import Chartwright.Proofs.Buffer.InUse
import Chartwright.Session.Operation
/-!
The identifier that a session gives to a new node.

It is the same whether it is asked for, given to a node inserted without one, or given to a copy,
and it is not in use (`nextId_not_inUse`). A line may mention it all the same: what stands on a line
without an arrow and in no closed subgraph is not in use. Deleting a subgraph can leave such lines
behind (`nextId_of_deleteSubgraph`).
-/
namespace Chartwright

namespace NextId

theorem exists_next? {used : List Text} (h : ∃ short ∈ numbered, short ∉ used) :
    ∃ id, next? used = some id := by
  unfold next?
  split
  · exact ⟨_, rfl⟩
  · obtain ⟨short, hshort, hfree⟩ := h
    exact Option.isSome_iff_exists.1 (List.find?_isSome.2 ⟨short, hshort, by simpa using hfree⟩)

end NextId

namespace Session

variable {s : Session} {used : List Text} {id : Text}

/-- An identifier is what a new node gets at any time: when it is asked for, when a node is inserted
without one, and when a node is copied. -/
structure Allocates (s : Session) (id : Text) : Prop where
  next : ∀ now, s.nextId now = .ok id
  insert : ∀ anchor label shape given now, given.getD [] = [] →
    s.insertNode anchor label shape given now = s.insertNodeAs anchor label shape id
  duplicate : ∀ node now copy, (s.duplicateNode node now).result = .ok (some copy) → copy = id

theorem nextId_of_ids (h : s.buffer.ids = .ok used) (hid : NextId.next? used = some id)
    (now : Nat) : s.nextId now = .ok id := by
  rw [nextId, h, Except.map, NextId.next, hid, Option.getD_some]

theorem insertNode_of_nextId {now : Nat} (h : s.nextId now = .ok id) (anchor label shape : Text)
    {given : Option Text} (hgiven : given.getD [] = []) :
    s.insertNode anchor label shape given now = s.insertNodeAs anchor label shape id := by
  cases given with
  | none => simp [insertNode, h]
  | some name =>
    obtain rfl : name = [] := hgiven
    simp [insertNode, h]

theorem eq_next_of_duplicateNode? {b b' : Buffer} {node copy : Text} {now : Nat}
    (h : b.ids = .ok used) (hcopy : b.duplicateNode? node now = .ok (some (b', copy))) :
    copy = NextId.next now used := by
  unfold Buffer.duplicateNode? at hcopy
  split at hcopy
  · cases hcopy
  · next i d _ =>
    obtain ⟨ids, hids, hcopy⟩ := Except.exists_of_bind_eq_ok hcopy
    obtain ⟨style, -, hcopy⟩ := Except.exists_of_bind_eq_ok hcopy
    obtain ⟨styled, -, hcopy⟩ := Except.exists_of_bind_eq_ok hcopy
    obtain rfl : used = ids := Except.ok.inj (h.symm.trans hids)
    cases hcopy
    rfl

theorem exists_of_duplicateNode {node copy : Text} {now : Nat}
    (h : (s.duplicateNode node now).result = .ok (some copy)) :
    ∃ b, s.buffer.duplicateNode? node now = .ok (some (b, copy)) := by
  unfold duplicateNode at h
  split at h
  · cases h
  · cases h
  · next b found hfound =>
    obtain ⟨changed, -, hcopy⟩ := Except.exists_of_map_eq_ok h
    exact ⟨b, by rw [hfound, Option.some.inj hcopy]⟩

theorem allocates_of_ids (h : s.buffer.ids = .ok used) (hid : NextId.next? used = some id) :
    s.Allocates id where
  next := nextId_of_ids h hid
  insert anchor label shape _ now hgiven :=
    insertNode_of_nextId (nextId_of_ids h hid now) anchor label shape hgiven
  duplicate node now copy hcopy := by
    obtain ⟨b, hcopied⟩ := exists_of_duplicateNode hcopy
    rw [eq_next_of_duplicateNode? h hcopied, NextId.next, hid, Option.getD_some]

/-- While a short identifier is free, the one that a new node gets is not in use, so it is mentioned
only on lines without an arrow that belong to no closed subgraph with an identifier. If the
identifiers in use cannot be listed, none is given. -/
theorem nextId_not_inUse (s : Session) :
    (∀ e, s.buffer.ids = .error e → ∀ now, s.nextId now = .error e) ∧
    ∀ used, s.buffer.ids = .ok used → (∃ short ∈ NextId.numbered, short ∉ used) →
      ∃ id, s.Allocates id ∧ ¬ s.buffer.InUse id ∧
        ∀ k, id ∈ Line.identifiers (s.buffer.line k) → ¬ s.buffer.Counts k := by
  constructor
  · intro e h now
    rw [nextId, h]
    rfl
  · intro used h hfree
    obtain ⟨id, hid⟩ := NextId.exists_next? hfree
    have hunused : ¬ s.buffer.InUse id :=
      fun hin => NextId.not_mem_of_next? hid ((Buffer.mem_ids_iff h).2 hin)
    refine ⟨id, allocates_of_ids h hid, hunused, fun k hmention hcounts => hunused ?_⟩
    refine .mentioned (Nat.lt_of_not_le fun hbehind => ?_) hcounts hmention
    -- behind the last line nothing is mentioned
    rw [Buffer.line, List.getElem?_eq_none hbehind] at hmention
    cases hmention

/-- Beside a link the next letter is free. -/
theorem nextId_not_inUse_of_link : ∃ id, (start 100 "A --> B".toList).Allocates id ∧ id = ['C'] ∧
    ¬ (start 100 "A --> B".toList).buffer.InUse ['C'] := by
  have hids : (start 100 "A --> B".toList).buffer.ids = .ok [['A'], ['B']] := by rfl
  obtain ⟨id, hid, hunused, -⟩ := (nextId_not_inUse _).2 _ hids ⟨"A1".toList, by decide, by decide⟩
  have hnext : (start 100 "A --> B".toList).nextId 0 = .ok ['C'] := nextId_of_ids hids (by decide) 0
  obtain rfl : ['C'] = id := Except.ok.inj (hnext.symm.trans (hid.next 0))
  exact ⟨_, hid, rfl, hunused⟩

end Session

namespace Operation

open Session

/-- A deleted subgraph leaves a member alone on a line, and its identifier is given to the next
node: what is inserted after it is itself. -/
theorem nextId_of_deleteSubgraph :
    start? 100 "subgraph S\n    A\nend".toList = .ok (start 100 "subgraph S\n    A\nend".toList) ∧
    ∃ s, s = (run (start 100 "subgraph S\n    A\nend".toList) .empty [.deleteSubgraph ['S']]).1 ∧
      s.nextId 0 = .ok ['A'] ∧ ['A'] ∈ Line.identifiers (s.buffer.line 0) ∧
      (s.insertNode ['A'] ['x'] "rectangle".toList none 0).result = .ok (some ['A']) ∧
      (s.insertNode ['A'] ['x'] "rectangle".toList none 0).session.code =
        "A\n    A --> A[x]".toList := by
  refine ⟨rfl, { start 100 ['A'] with
    history := ⟨100, ["subgraph S\n    A\nend".toList, ['A']], 1⟩
    dirty := true }, ?_⟩
  decide +kernel

end Operation
end Chartwright
