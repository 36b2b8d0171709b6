import Chartwright.Proofs.Session.Selected
/-!
What an edit can do to a session, told once for all edits.

An edit puts at most one other text in place, as one step of the history. What follows in the same
operation (clearing the selection, selecting an edge again, dropping a style that was set) touches
neither the text nor the history, and selects nothing that the text does not have. `Session.Edited`
says this of the sessions before and after, and `edited_perform` proves it of every edit, also of
one that fails on the way. Loading and saving succeed as a whole, or the session is as before
(`Session.load_cases`, `Session.save_cases`).
-/
namespace Chartwright

namespace Session

variable {α : Type} {s m t : Session}

/-- The same text with the same history, and nothing selected anew that the text does not have. -/
structure Settled (s t : Session) : Prop where
  code : t.code = s.code
  history : t.history = s.history
  selection : t.selection = s.selection ∨ (t.selection.Coherent ∧ t.selection.FoundIn t.code)

/-- Either no other text, or one that is recorded once, with a selection that it has as far as can
be told. -/
inductive Edited (s t : Session) : Prop where
  | settled (h : s.Settled t)
  | recorded (other : t.code ≠ s.code) (history : t.history = (s.history.record t.code).2)
      (selection : t.selection.FoundIn t.code ∨ t.selection.LostIn t.code)
      (coherent : s.selection.Coherent → t.selection.Coherent)

theorem Settled.refl (s : Session) : s.Settled s := ⟨rfl, rfl, .inl rfl⟩

theorem Edited.refl (s : Session) : s.Edited s := .settled (.refl s)

theorem Settled.trans (h : s.Settled m) (hn : m.Settled t) : s.Settled t := by
  refine ⟨hn.code.trans h.code, hn.history.trans h.history, ?_⟩
  rcases hn.selection with same | found
  · rcases h.selection with same' | found'
    · exact .inl (same.trans same')
    · exact .inr (by rwa [same, hn.code])
  · exact .inr found

theorem Settled.coherent (h : s.Settled t) (hs : s.selection.Coherent) : t.selection.Coherent := by
  rcases h.selection with same | ⟨hcoherent, -⟩
  · rwa [same]
  · exact hcoherent

theorem Edited.of_eq (hcode : m.code = s.code) (hhistory : m.history = s.history)
    (hselection : m.selection = s.selection) (h : m.Edited t) : s.Edited t := by
  cases h with
  | settled h =>
    exact .settled ⟨h.code.trans hcode, h.history.trans hhistory, hselection ▸ h.selection⟩
  | recorded other history selection coherent =>
    exact .recorded (hcode ▸ other) (hhistory ▸ history) selection (hselection ▸ coherent)

theorem Edited.andThen_settled (h : s.Edited m) (hn : m.Settled t) : s.Edited t := by
  cases h with
  | settled h => exact .settled (h.trans hn)
  | recorded other history selection coherent =>
    refine .recorded (hn.code ▸ other) (by rw [hn.code, hn.history, history]) ?_ fun hs =>
      hn.coherent (coherent hs)
    rcases hn.selection with same | ⟨-, found⟩
    · rwa [same, hn.code]
    · exact .inl found

/-! ## Operations step by step -/

theorem selection_adopt (s : Session) (code : Text) (a : α) :
    (s.adopt code a).session.selection.FoundIn code ∨
      (s.adopt code a).session.selection.LostIn code := by
  unfold adopt
  split
  · next left h => exact .inl (Selection.foundIn_iff.2 (Selection.existsIn_of_revalidate h))
  · next long h =>
    exact .inr (Selection.lostIn_iff.2 ⟨long, Selection.existsIn_of_revalidate_error h⟩)

theorem coherent_adopt (h : s.selection.Coherent) (code : Text) (a : α) :
    (s.adopt code a).session.selection.Coherent := by
  unfold adopt
  split
  · next left hleft => exact h.of_revalidate hleft
  · exact h

theorem selection_adopt_of_foundIn {code : Text} {a : α} (h : s.selection.FoundIn code) :
    (s.adopt code a).session.selection = s.selection := by
  have hleft : s.selection.revalidate code = .ok s.selection := by
    rw [Selection.revalidate, Selection.foundIn_iff.1 h]
    rfl
  simp only [adopt, hleft]
  rfl

theorem selection_adopt_of_lostIn {code : Text} {a : α} (h : s.selection.LostIn code) :
    (s.adopt code a).session.selection = s.selection := by
  obtain ⟨long, hlong⟩ := Selection.lostIn_iff.1 h
  have hleft : s.selection.revalidate code = .error long := by
    rw [Selection.revalidate, hlong]
    rfl
  simp only [adopt, hleft]
  rfl

theorem code_adopt (s : Session) (code : Text) (a : α) : (s.adopt code a).session.code = code := by
  unfold adopt
  split <;> rfl

theorem history_adopt (s : Session) (code : Text) (a : α) :
    (s.adopt code a).session.history = s.history := by
  unfold adopt
  split <;> rfl

theorem session_andThen_settled {β : Type} {o : Outcome α} {next : α → Session → Outcome β}
    (hn : ∀ (a : α) (m : Session), m.Settled (next a m).session) :
    o.session.Settled (o.andThen next).session := by
  unfold Outcome.andThen
  split
  · exact hn _ _
  · exact .refl _

theorem edited_setCode (s : Session) (code : Text) : s.Edited (s.setCode code true).session := by
  unfold setCode
  split
  · exact .refl s
  · next other =>
    -- the history records before the text is adopted, which may fail
    refine .recorded ?_ ?_ ?_ fun h => coherent_adopt ?_ code true
    · rwa [code_adopt]
    · rw [history_adopt, code_adopt]
      rfl
    · rw [code_adopt]
      exact selection_adopt _ code true
    · exact h

theorem edited_edit (s : Session) (c : Command) : s.Edited (s.edit c).session := by
  unfold edit
  split
  · exact s.edited_setCode _
  · exact .refl s

theorem settled_deselectIf (s : Session) (condition : Selection → Bool) (a : α) :
    s.Settled (s.deselectIf condition a).session := by
  unfold deselectIf
  split
  · exact ⟨rfl, rfl, .inr ⟨s.selection.coherent_choose .none, s.selection.foundIn_choose_none _⟩⟩
  · exact .refl s

theorem settled_reselect (s : Session) (line : Int) (a : α) :
    s.Settled (s.reselect line a).session := by
  unfold reselect
  split
  · next e he =>
    refine ⟨rfl, rfl, .inr ⟨s.selection.coherent_choose (.edge e), ?_⟩⟩
    exact s.selection.foundIn_choose_edge (List.mem_of_find?_eq_some he)
  · exact .refl s

theorem edited_insertNode (s : Session) (anchor label shape : Text) (id : Option Text) (now : Nat) :
    s.Edited (s.insertNode anchor label shape id now).session := by
  unfold insertNode
  split
  · exact s.edited_edit _
  · split
    · exact s.edited_edit _
    · exact .refl s

theorem edited_deleteNode (s : Session) (id : Text) : s.Edited (s.deleteNode id).session := by
  refine (s.edited_setCode _).andThen_settled (session_andThen_settled fun changed m => ?_)
  split
  -- the style set for the node goes first, then the selection
  · exact .trans (m := { m with overrides := Assoc.remove id m.overrides }) ⟨rfl, rfl, .inl rfl⟩
      (settled_deselectIf _ _ true)
  · exact .refl m

theorem edited_duplicateNode (s : Session) (id : Text) (now : Nat) :
    s.Edited (s.duplicateNode id now).session := by
  unfold duplicateNode
  split
  · exact .refl s
  · exact .refl s
  · -- the style set for the copy is put in first, beside the text
    next b copy _ =>
    dsimp only
    split
    · next style _ =>
      exact .of_eq (m := { s with overrides := Assoc.put copy style s.overrides }) rfl rfl rfl
        (edited_setCode _ _)
    · exact s.edited_setCode _

theorem edited_deleteEdge (s : Session) (e : Edge) : s.Edited (s.deleteEdge e).session := by
  refine (s.edited_setCode _).andThen_settled (session_andThen_settled fun changed m => ?_)
  split
  · exact m.settled_deselectIf _ true
  · exact .refl m

theorem edited_deleteSubgraph (s : Session) (id : Text) :
    s.Edited (s.deleteSubgraph id).session := by
  refine (s.edited_setCode _).andThen_settled (session_andThen_settled fun changed m => ?_)
  split
  · exact m.settled_deselectIf _ true
  · exact .refl m

theorem edited_editEdge (s : Session) (e : Edge) (c : Command) :
    s.Edited (s.editEdge e c).session := by
  refine (s.edited_edit c).andThen_settled (session_andThen_settled fun changed m => ?_)
  split
  · exact m.settled_reselect _ true
  · exact .refl m

theorem edited_restyleNode (s : Session) (id : Text) (style : Style) :
    s.Edited (s.restyleNode id style).session := by
  refine .of_eq (m :=
    { s with overrides := Assoc.put id ((s.override id).merge style) s.overrides }) rfl rfl rfl
    ((edited_edit _ _).andThen_settled (session_andThen_settled fun changed m => ?_))
  split
  · exact ⟨rfl, rfl, .inl rfl⟩
  · exact .refl m

/-! ## Files -/

/-- A file is loaded whole, or nothing comes of it. -/
theorem load_cases (s : Session) (store : Store) (path : Path) :
    (∃ state, s.load store path = (s.withSaved path state).announce state.code) ∨
      ∃ e, s.load store path = s.fail e := by
  unfold load
  split
  · exact .inr ⟨_, rfl⟩
  · exact .inr ⟨_, rfl⟩
  · split
    · exact .inr ⟨_, rfl⟩
    · split
      · exact .inr ⟨_, rfl⟩
      · next state _ => exact .inl ⟨state, rfl⟩

/-- A session is saved whole, or nothing comes of it but what is left among the files. -/
theorem save_cases (s : Session) (store : Store) (given : Option Path) :
    (∃ path, (s.save store given).2 =
      ({ s with path := some path, dirty := false } : Session).keep path) ∨
        ∃ e, (s.save store given).2 = s.fail e := by
  unfold save
  split
  · exact .inr ⟨_, rfl⟩
  · next path _ =>
    split
    · exact .inr ⟨_, rfl⟩
    · split
      · exact .inr ⟨_, rfl⟩
      · split
        · exact .inr ⟨_, rfl⟩
        · exact .inl ⟨path, rfl⟩

end Session

namespace Operation

/-- The operation is an edit of the text that is recorded. -/
def isEdit : Operation → Bool
  | setCode _ record => record
  | undo | redo | select _ | setRenderResult _ | reset _ | load _ | save _ => false
  | _ => true

/-- The operation puts a text in place that is not recorded. -/
def isUnrecorded : Operation → Bool
  | setCode _ record => !record
  | _ => false

open Session

theorem edited_perform (s : Session) (store : Store) {op : Operation} (h : op.isEdit = true) :
    s.Edited (op.perform s store).2.session := by
  cases op with
  | setCode code record =>
    simp only [isEdit] at h
    subst h
    exact s.edited_setCode code
  | undo | redo | select | setRenderResult | reset | load | save => cases h
  | insertNode anchor label shape id now => exact s.edited_insertNode anchor label shape id now
  | deleteNode id => exact s.edited_deleteNode id
  | duplicateNode id now => exact s.edited_duplicateNode id now
  | deleteEdge e => exact s.edited_deleteEdge e
  | deleteSubgraph id => exact s.edited_deleteSubgraph id
  | restyleNode id style => exact s.edited_restyleNode id style
  | relabelEdge e | rearrowEdge e => exact s.edited_editEdge e _
  | setDirection | relabelNode | reshapeNode | connect | insertSubgraph | retitleSubgraph
    | addMember | removeMember
  | restyleSubgraph => exact s.edited_edit _

end Operation
end Chartwright
