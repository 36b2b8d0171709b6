import Chartwright.Proofs.Session.Installing
import Chartwright.Proofs.Session.UndoStep
/-!
How nodes look after an edit that was taken back.

The looks of a node come from the text and from the style that is set for it beside the text. An
undo puts the earlier text in place and leaves the styles beside it alone, so the text sets what it
set before the edit, over what the edit has left of the styles (`UndoneStyles.shown`). Hence every
node looks as before, but for the one node whose style an edit writes: the node that is restyled or
deleted, and the copy that is made of a node (`Operation.WritesStyle`).
-/
namespace Chartwright

namespace Assoc

variable {κ α : Type} [DecidableEq κ] {key : κ}

theorem find?_remove_self (entries : List (κ × α)) : find? key (remove key entries) = none := by
  rw [find?, Option.map_eq_none_iff, List.find?_eq_none]
  intro entry hentry
  simpa [remove] using (List.mem_filter.1 hentry).2

theorem find?_remove_of_ne {other : κ} (h : other ≠ key) (entries : List (κ × α)) :
    find? other (remove key entries) = find? other entries := by
  rw [find?, remove, List.find?_filter, find?]
  congr 2
  funext entry
  by_cases hentry : entry.1 = other
  · simp [hentry, h]
  · simp [hentry]

end Assoc

namespace Session

variable {α β : Type} {s : Session} {id : Text}

/-! ## What keeps the styles set beside the text -/

theorem overrides_adopt (s : Session) (code : Text) (a : α) :
    (s.adopt code a).session.overrides = s.overrides := by
  unfold adopt
  split <;> rfl

theorem overrides_setCode (s : Session) (code : Text) (record : Bool) :
    (s.setCode code record).session.overrides = s.overrides := by
  unfold setCode
  split
  · rfl
  · rw [overrides_adopt]
    split <;> rfl

theorem overrides_edit (s : Session) (c : Command) :
    (s.edit c).session.overrides = s.overrides := by
  unfold edit
  split
  · exact s.overrides_setCode _ true
  · rfl

theorem overrides_undo (s : Session) : s.undo.session.overrides = s.overrides := by
  unfold undo
  split
  · rfl
  · exact overrides_adopt _ _ _

theorem overrides_deselectIf (s : Session) (condition : Selection → Bool) (a : α) :
    (s.deselectIf condition a).session.overrides = s.overrides := by
  unfold deselectIf
  split <;> rfl

theorem overrides_reselect (s : Session) (line : Int) (a : α) :
    (s.reselect line a).session.overrides = s.overrides := by
  unfold reselect
  split <;> rfl

theorem overrides_andThen {o : Outcome α} {next : α → Session → Outcome β}
    (h : ∀ a m, (next a m).session.overrides = m.overrides) :
    (o.andThen next).session.overrides = o.session.overrides := by
  unfold Outcome.andThen
  split
  · exact h _ _
  · rfl

theorem overrides_editEdge (s : Session) (e : Edge) (c : Command) :
    (s.editEdge e c).session.overrides = s.overrides := by
  refine (overrides_andThen fun changed m => ?_).trans (s.overrides_edit c)
  split
  · exact m.overrides_reselect _ true
  · rfl

theorem overrides_deleteEdge (s : Session) (e : Edge) :
    (s.deleteEdge e).session.overrides = s.overrides := by
  refine (overrides_andThen fun changed m => ?_).trans (s.overrides_setCode _ true)
  split
  · exact m.overrides_deselectIf _ true
  · rfl

theorem overrides_deleteSubgraph (s : Session) (group : Text) :
    (s.deleteSubgraph group).session.overrides = s.overrides := by
  refine (overrides_andThen fun changed m => ?_).trans (s.overrides_setCode _ true)
  split
  · exact m.overrides_deselectIf _ true
  · rfl

theorem overrides_insertNode (s : Session) (anchor label shape : Text) (node : Option Text)
    (now : Nat) : (s.insertNode anchor label shape node now).session.overrides = s.overrides := by
  unfold insertNode
  split
  · exact s.overrides_edit _
  · split
    · exact s.overrides_edit _
    · rfl

/-! ## What writes one of them -/

theorem overrides_restyleNode (s : Session) (node : Text) (style : Style) :
    (s.restyleNode node style).session.overrides =
    Assoc.put node ((s.override node).merge style) s.overrides := by
  rw [restyleNode_eq]
  refine (overrides_andThen fun changed m => ?_).trans ((s.withStyle node style).overrides_edit _)
  split <;> rfl

theorem deleteNode_eq (s : Session) (node : Text) :
    s.deleteNode node = (s.edit (.deleteNode node)).andThen fun changed s =>
      if changed then
        ({ s with overrides := Assoc.remove node s.overrides } : Session).deselectIf
          (·.isNode node) true
      else s.keep false := rfl

theorem overrides_deleteNode_cases (s : Session) (node : Text) :
    (s.deleteNode node).session.overrides = Assoc.remove node s.overrides ∨
      (s.deleteNode node).session.overrides = s.overrides := by
  have hkept := s.overrides_edit (.deleteNode node)
  rw [deleteNode_eq]
  cases hresult : (s.edit (.deleteNode node)).result with
  | error e => exact .inr (by simp only [Outcome.andThen, hresult, hkept])
  | ok changed =>
    cases changed with
    | true =>
      exact .inl (by simp only [Outcome.andThen, hresult, if_true, overrides_deselectIf, hkept])
    | false => exact .inr (by simp [Outcome.andThen, hresult, keep, hkept])

/-- Once another text is in place the style of a deleted node goes, unless the edit has failed by
then. -/
theorem overrides_deleteNode {node : Text} (other : (s.deleteNode node).session.code ≠ s.code) :
    (¬ s.selection.LostIn (s.deleteNode node).session.code →
      (s.deleteNode node).session.overrides = Assoc.remove node s.overrides) ∧
    (s.selection.LostIn (s.deleteNode node).session.code →
      (s.deleteNode node).session.overrides = s.overrides) := by
  have hfollows := s.follows_deleteNode node
  cases htarget : (Command.deleteNode node).target? s.code with
  | none =>
    rw [htarget] at hfollows
    exact absurd (congrArg Session.code hfollows.session) other
  | some code =>
    rw [htarget] at hfollows
    have hcode : (s.deleteNode node).session.code = code := hfollows.code
    have hset := s.follows_edit (.deleteNode node)
    rw [htarget] at hset
    have hkept := s.overrides_edit (.deleteNode node)
    rw [hcode, deleteNode_eq]
    refine ⟨fun found => ?_, fun lost => ?_⟩
    · obtain ⟨changed, hresult, rfl⟩ := hset.result found
      simp only [Outcome.andThen, hresult, if_true, overrides_deselectIf, hkept]
    · obtain ⟨long, hlong⟩ := hset.failure lost
      simp only [Outcome.andThen, hlong, hkept]

theorem overrides_duplicateNode {node copy : Text} {now : Nat} {b : Buffer}
    (h : s.buffer.duplicateNode? node now = .ok (some (b, copy))) :
    (s.duplicateNode node now).session.overrides =
      match Assoc.find? node s.overrides with
      | some style => Assoc.put copy style s.overrides
      | none => s.overrides := by
  rw [duplicateNode, h]
  exact overrides_setCode _ _ true

end Session

namespace Operation

open Session

variable {s t : Session} {id : Text}

/-- A node of which an operation writes the style that is set for it beside the text. -/
inductive WritesStyle (s : Session) (id : Text) : Operation → Prop where
  | restyled (style : Style) : WritesStyle s id (.restyleNode id style)
  | deleted : WritesStyle s id (.deleteNode id)
  | copied {node : Text} {now : Nat} {b : Buffer}
    (h : s.buffer.duplicateNode? node now = .ok (some (b, id))) :
      WritesStyle s id (.duplicateNode node now)

/-- An edit leaves the styles alone that are set for other nodes. -/
theorem override_perform (s : Session) (store : Store) {op : Operation} (hedit : op.isEdit = true)
    (h : ¬ op.WritesStyle s id) : (op.perform s store).2.session.override id = s.override id := by
  have of_eq {t : Session} (same : t.overrides = s.overrides) : t.override id = s.override id := by
    rw [override, override, same]
  cases op with
  | undo | redo | select | setRenderResult | reset | load | save => cases hedit
  | setCode code record => exact of_eq (s.overrides_setCode code record)
  | insertNode anchor label shape node now =>
    exact of_eq (s.overrides_insertNode anchor label shape node now)
  | deleteEdge e => exact of_eq (s.overrides_deleteEdge e)
  | deleteSubgraph group => exact of_eq (s.overrides_deleteSubgraph group)
  | relabelEdge e | rearrowEdge e => exact of_eq (s.overrides_editEdge e _)
  | setDirection | relabelNode | reshapeNode | connect | insertSubgraph | retitleSubgraph
    | addMember | removeMember
  | restyleSubgraph => exact of_eq (s.overrides_edit _)
  | restyleNode node style =>
    have hne : id ≠ node := by
      rintro rfl
      exact h (.restyled style)
    change (s.restyleNode node style).session.override id = _
    rw [override, overrides_restyleNode, Assoc.find?_put_of_ne hne, override]
  | deleteNode node =>
    have hne : id ≠ node := by
      rintro rfl
      exact h .deleted
    change (s.deleteNode node).session.override id = _
    rw [override]
    rcases s.overrides_deleteNode_cases node with same | same
    · rw [same, Assoc.find?_remove_of_ne hne, override]
    · rw [same, override]
  | duplicateNode node now =>
    change (s.duplicateNode node now).session.override id = _
    cases hfound : s.buffer.duplicateNode? node now with
    | error long =>
      rw [show s.duplicateNode node now = s.fail (.tooLong long) by
        rw [Session.duplicateNode, hfound]]
      rfl
    | ok found =>
      cases found with
      | none =>
        rw [show s.duplicateNode node now = s.keep none by rw [Session.duplicateNode, hfound]]
        rfl
      | some copied =>
        obtain ⟨b, copy⟩ := copied
        have hne : id ≠ copy := by
          rintro rfl
          exact h (.copied hfound)
        rw [override, overrides_duplicateNode hfound]
        split
        · rw [Assoc.find?_put_of_ne hne, override]
        · rfl

/-- What an edit and one undo leave of the looks of nodes, `s` before the edit and `t` between the
two. The text is the one before the edit, so it sets what it set then; beside it stand the styles
that the edit has left. -/
structure UndoneStyles (op : Operation) (s t : Session) : Prop where
  code : t.undo.session.code = s.code
  shown : ∀ id, t.undo.session.nodeStyle id =
    (s.buffer.style? id).map fun set =>
      (Style.default.merge (t.override id)).merge (set.getD Style.empty)
  same : ∀ id, ¬ op.WritesStyle s id → t.undo.session.nodeStyle id = s.nodeStyle id
  restyled : ∀ id style, op = .restyleNode id style → t.override id = (s.override id).merge style
  deleted : ∀ id, op = .deleteNode id →
    (¬ s.selection.LostIn t.code → t.override id = Style.empty) ∧
      (s.selection.LostIn t.code → t.override id = s.override id)
  copied : ∀ id copy now b, op = .duplicateNode id now →
      s.buffer.duplicateNode? id now = .ok (some (b, copy)) →
    t.override copy = (Assoc.find? id s.overrides).getD (s.override copy)

/-- After every edit of the text and one undo all nodes look as before the edit, but for one whose
style the edit has written beside the text. That one looks as the text before the edit has it, over
the style that the edit has left. -/
theorem undoneStyles_of_edit {limit : Int} {initial : Text} {s₀ : Session}
    (hstart : start? limit initial = .ok s₀) (room : 2 ≤ limit) (store : Store)
    {ops : List Operation} (hops : ∀ op ∈ ops, op.isUnrecorded = false) {op : Operation}
    (hedit : op.isEdit = true) (files : Store)
    (other : (op.perform (run s₀ store ops).1 files).2.session.code ≠ (run s₀ store ops).1.code) :
    op.UndoneStyles (run s₀ store ops).1 (op.perform (run s₀ store ops).1 files).2.session := by
  have h : (run s₀ store ops).1.InStep limit.toNat := inStep_run ops (inStep_start? hstart) hops
  generalize (run s₀ store ops).1 = s at h other
  have hstep := undoStep_of_edited h (by omega) (edited_perform s files hedit) other
  generalize ht : (op.perform s files).2.session = t at hstep other
  have hcode : t.undo.session.code = s.code := hstep.undo.code
  have hoverride (id : Text) : t.undo.session.override id = t.override id := by
    rw [override, override, t.overrides_undo]
  have hshown (id : Text) : t.undo.session.nodeStyle id =
      (s.buffer.style? id).map fun set =>
        (Style.default.merge (t.override id)).merge (set.getD Style.empty) := by
    rw [nodeStyle, buffer, hcode, hoverride, buffer]
  refine ⟨hcode, hshown, fun id hid => ?_, ?_, ?_, ?_⟩
  · rw [hshown, ← ht, override_perform s files hedit hid, nodeStyle]
  · rintro id style rfl
    rw [← ht]
    change (s.restyleNode id style).session.override id = _
    rw [override, overrides_restyleNode, Assoc.find?_put_self, Option.getD_some]
  · rintro id rfl
    rw [← ht] at other ⊢
    have hdeleted : (s.deleteNode id).session.code ≠ s.code := other
    obtain ⟨hgone, hkept⟩ := overrides_deleteNode hdeleted
    change (_ → (s.deleteNode id).session.override id = _) ∧
      (_ → (s.deleteNode id).session.override id = _)
    refine ⟨fun found => ?_, fun lost => ?_⟩
    · rw [override, hgone found, Assoc.find?_remove_self, Option.getD_none]
    · rw [override, hkept lost, override]
  · rintro id copy now b rfl hcopy
    rw [← ht]
    change (s.duplicateNode id now).session.override copy = _
    rw [override, overrides_duplicateNode hcopy]
    split
    · next style hstyle => rw [Assoc.find?_put_self, Option.getD_some, hstyle, Option.getD_some]
    · next hnone => rw [hnone, Option.getD_none, override]

/-- A node is filled, and the edit taken back: every other node looks as before. -/
theorem undoneStyles_of_fill :
    start? 2 "A[a]".toList = .ok (start 2 "A[a]".toList) ∧
    UndoneStyles (.restyleNode ['A'] { fill := some "red".toList })
      (run (start 2 "A[a]".toList) .empty []).1
      (perform (run (start 2 "A[a]".toList) .empty []).1 .empty
        (.restyleNode ['A'] { fill := some "red".toList })).2.session :=
  have hstart : start? 2 "A[a]".toList = .ok (start 2 "A[a]".toList) := rfl
  ⟨hstart, undoneStyles_of_edit hstart (by decide) .empty (by simp) rfl .empty (by decide)⟩

/-- The node itself stays filled, and a style that was set beside the text does not come back with a
deleted node. -/
theorem nodeStyle_undo_ne :
    let fill : Operation := .restyleNode ['A'] { fill := some "red".toList }
    let s := start 100 "A --> B".toList
    let filled := (run s .empty [fill, .undo]).1
    let deleted := (run s .empty [fill, .undo, .deleteNode ['A'], .undo]).1
    (fill.perform s .empty).2.session.code ≠ s.code ∧ filled.code = s.code ∧ deleted.code = s.code ∧
      s.nodeStyle ['A'] = .ok Style.default ∧
      filled.nodeStyle ['A'] = .ok { Style.default with fill := some "red".toList } ∧
      deleted.nodeStyle ['A'] = .ok Style.default :=
  ⟨by decide, by decide, by decide, rfl, rfl, rfl⟩

end Operation
end Chartwright
