import Chartwright.Api.Reply
import Chartwright.Proofs.Session.UndoStep
/-!
What one undo leaves of a request that updates a node or an edge.

Both requests may ask for two edits. Those of a node are put together and become one text, so the
request is one undo step whatever it asks for (`undoStep_updateNode`). Those of an edge are made one
after the other, and each that changes the text is a step of its own: the request is one undo step
unless both do (`undoStep_updateEdge`), and then one undo takes back the second edit only
(`undoSteps_updateEdge`).
-/
namespace Chartwright

namespace Session

variable {s m t : Session}

theorem Settled.trans_edited (h : s.Settled m) (hn : m.Edited t) : s.Edited t := by
  cases hn with
  | settled hsettled => exact .settled (h.trans hsettled)
  | recorded other history selection coherent =>
    exact .recorded (h.code ▸ other) (h.history ▸ history) selection fun hs =>
      coherent (h.coherent hs)

theorem Edited.settled_of_eq (h : s.Edited t) (same : t.code = s.code) : s.Settled t := by
  cases h with
  | settled hsettled => exact hsettled
  | recorded other => exact absurd same other

theorem edited_andThen {α β : Type} {o : Outcome α} {next : α → Session → Outcome β}
    (h : ∀ a, o.session.Edited (next a o.session).session) :
    o.session.Edited (o.andThen next).session := by
  unfold Outcome.andThen
  split
  · exact h _
  · exact .refl _

end Session

namespace Desk

open Session

variable {d : Desk} {limit : Nat}

/-- The first of the two edits that a request on an edge asks for: the edge is relabelled, if there
is a label. -/
def relabelled (d : Desk) (r : Request.UpdateEdge) : Session :=
  match r.label with
  | some label => (d.session.relabelEdge r.edge label).session
  | none => d.session

theorem edited_relabelled (d : Desk) (r : Request.UpdateEdge) :
    d.session.Edited (d.relabelled r) := by
  unfold relabelled
  split
  · exact d.session.edited_editEdge _ _
  · exact .refl _

theorem edited_updateEdge (d : Desk) (r : Request.UpdateEdge) :
    (d.relabelled r).Edited (d.updateEdge r).desk.session := by
  obtain ⟨edge, label, arrow⟩ := r
  cases label with
  | none =>
    cases arrow with
    | none => exact .refl _
    | some arrow => exact edited_editEdge _ _ _
  | some label =>
    change (d.session.relabelEdge edge label).session.Edited
      ((d.session.relabelEdge edge label).andThen _).session
    refine edited_andThen fun changed => ?_
    cases arrow with
    | none => exact .refl _
    | some arrow => exact edited_editEdge _ _ _

/-- A request on a node that changes the text is one undo step. -/
theorem undoStep_updateNode (h : d.session.InStep limit) (room : 2 ≤ limit) (id : Text)
    (r : Request.UpdateNode) (other : (d.updateNode id r).desk.session.code ≠ d.session.code) :
    UndoStep limit d.session (d.updateNode id r).desk.session :=
  undoStep_of_edited h room (d.session.edited_setCode _) other

/-- A request on an edge is one undo step if one of its edits keeps the text. -/
theorem undoStep_updateEdge (h : d.session.InStep limit) (room : 2 ≤ limit) {r : Request.UpdateEdge}
    (other : (d.updateEdge r).desk.session.code ≠ d.session.code)
    (same : (d.relabelled r).code = d.session.code ∨
    (d.updateEdge r).desk.session.code = (d.relabelled r).code) :
    UndoStep limit d.session (d.updateEdge r).desk.session := by
  have first := d.edited_relabelled r
  have second := d.edited_updateEdge r
  refine undoStep_of_edited h room ?_ other
  rcases same with same | same
  · exact (first.settled_of_eq same).trans_edited second
  · exact first.andThen_settled (second.settled_of_eq same)

/-- A request on an edge of which both edits change the text is two undo steps. -/
theorem undoSteps_updateEdge (h : d.session.InStep limit) (room : 2 ≤ limit)
    {r : Request.UpdateEdge} (first : (d.relabelled r).code ≠ d.session.code)
    (second : (d.updateEdge r).desk.session.code ≠ (d.relabelled r).code) :
    UndoStep limit d.session (d.relabelled r) ∧
      UndoStep limit (d.relabelled r) (d.updateEdge r).desk.session :=
  ⟨undoStep_of_edited h room (d.edited_relabelled r) first,
    undoStep_of_edited (inStep_of_edited h (d.edited_relabelled r)) room
      (d.edited_updateEdge r) second⟩

end Desk

/-- A request puts a text in place and answers with it, unless what was selected before is lost in
that text: then it is answered as an error of the server. -/
structure Served.Restores (served : Served) (selection : Selection) (t : Text) : Prop where
  code : served.desk.session.code = t
  reply : ¬ selection.LostIn t → served.reply = Reply.success [("code", .text t)]
  failure : selection.LostIn t → ∃ long, served.reply = .failed (.session (.tooLong long))

namespace Desk

open Session

variable {d : Desk} {limit : Nat} {t : Text}

theorem restores_serve_undo (h : d.session.undo.Restores d.session.selection t)
    (connections now : Nat) (body : Text) :
    (d.serve connections now body .undo).Restores d.session.selection t where
  code := h.code
  reply found := by simp [serve, perform, respond, historyReply, h.result found]
  failure lost := by
    obtain ⟨long, hlong⟩ := h.failure lost
    exact ⟨long, by simp [serve, perform, respond, hlong]⟩

theorem exists_read_of_withBody {α : Type} {body : Text} {check : Fault → Check α}
    {serve : α → Served}
    (other : (d.withBody body check serve).desk.session.code ≠ d.session.code) :
    ∃ a, Body.read check body = .ok a ∧ d.withBody body check serve = serve a := by
  unfold withBody at other ⊢
  split at other
  · next a hread => exact ⟨a, hread, rfl⟩
  · exact absurd rfl other

/-- One undo takes back every request on a node that changed the text. Of a request on an edge it
takes back the last of the two edits that changed the text, so it leads back to the text before the
request if and only if not both did. -/
theorem undo_of_update (h : d.session.InStep limit) (room : 2 ≤ limit) (n m now soon : Nat)
    (body later : Text) : (∀ id, let o := d.serve n now body (.updateNode id);
      o.desk.session.code ≠ d.session.code →
        (o.desk.serve m soon later .undo).Restores o.desk.session.selection d.session.code) ∧
    (let o := d.serve n now body .updateEdge;
      o.desk.session.code ≠ d.session.code →
        ∃ r, Body.read Request.UpdateEdge.check body = .ok r ∧
          (o.desk.serve m soon later .undo).Restores o.desk.session.selection
            (if o.desk.session.code = (d.relabelled r).code then d.session.code
              else (d.relabelled r).code) ∧
          ((o.desk.serve m soon later .undo).desk.session.code = d.session.code ↔
            (d.relabelled r).code = d.session.code ∨
              o.desk.session.code = (d.relabelled r).code)) := by
  refine ⟨fun id other => ?_, fun other => ?_⟩
  · obtain ⟨r, -, hserve⟩ := exists_read_of_withBody other
    rw [serve, hserve] at other ⊢
    exact restores_serve_undo (undoStep_updateNode h room id r other).undo m soon later
  · obtain ⟨r, hread, hserve⟩ := exists_read_of_withBody other
    rw [serve, hserve] at other ⊢
    have hrestores : ((d.updateEdge r).desk.serve m soon later .undo).Restores
        (d.updateEdge r).desk.session.selection
        (if (d.updateEdge r).desk.session.code = (d.relabelled r).code then d.session.code
          else (d.relabelled r).code) := by
      split
      · next same =>
        exact restores_serve_undo (undoStep_updateEdge h room other (.inr same)).undo m soon later
      · next second =>
        by_cases first : (d.relabelled r).code = d.session.code
        · rw [first]
          exact restores_serve_undo (undoStep_updateEdge h room other (.inl first)).undo m
            soon later
        · exact restores_serve_undo (undoSteps_updateEdge h room first second).2.undo m soon later
    refine ⟨r, hread, hrestores, ?_⟩
    rw [hrestores.code]
    split
    · next same => simp [same]
    · next second => simp [second]

/-- A request for another label and another shape of a node, taken back at once. -/
theorem undo_of_update_of_shape :
    let d : Desk := ⟨start 2 "A[a]".toList, .empty, none⟩
    let o :=
  d.serve 0 0 "\x7b\"label\": \"b\", \"shape\": \"rounded\"\x7d".toList (.updateNode ['A'])
    o.desk.session.code = "A(b)".toList ∧
      (o.desk.serve 0 0 [] .undo).Restores o.desk.session.selection d.session.code := by
  have hstart : (start 2 "A[a]".toList).InStep 2 := ⟨rfl, History.sound_start (by decide) _, rfl⟩
  refine ⟨by decide +kernel,
    (undo_of_update (d := ⟨start 2 "A[a]".toList, .empty, none⟩) hstart (by decide) 0 0 0 0 _ []).1
      ['A'] ?_⟩
  decide +kernel

/-- A request for a label and another arrow: one undo takes back the arrow and leaves the label. -/
theorem not_undone_of_label_and_arrow :
    let d : Desk := ⟨start 100 "A --> B".toList, .empty, none⟩
    let body :=
  "\x7b\"edge\": \x7b\"source\": \"A\", \"target\": \"B\", \"line_index\": 0\x7d, ".toList ++
      "\"label\": \"x\", \"arrow_type\": \"==>\"\x7d".toList
    let o := d.serve 0 0 body .updateEdge
    o.desk.session.code = "A ==>|x| B".toList ∧
      (o.desk.serve 0 0 [] .undo).desk.session.code = "A -->|x| B".toList := by
  decide +kernel

end Desk
end Chartwright
