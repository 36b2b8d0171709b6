import Chartwright.Session.Operation
import Chartwright.Proofs.Buffer.Lines
import Chartwright.Proofs.Buffer.Shown
import Chartwright.Proofs.Session.Edit
/-!
Which text an operation puts in place, and what it does when it puts none.

An operation that edits or steps through the history is about to put at most one other text in
place, and which one can be told from the session before it (`Operation.target?`). If there is one
it is in place afterwards and the session is marked as changed, also if the operation then fails; it
fails if what was selected is lost in that text, and only then. If there is none the operation does
nothing (`follows_perform`). Setting a style of a node is the one edit that also keeps something
beside the text (`restyled_restyleNode`).
-/
namespace Chartwright

namespace Buffer

variable {b : Buffer}

theorem copyLines_ne_nil (d : Declaration) (copy : Text) (styled : List Line) :
    b.copyLines d copy styled ≠ [] := by
  unfold copyLines copiesIn
  split <;> simp

theorem toText_ne_of_duplicateNode? {t id copy : Text} {now : Nat} {b : Buffer}
    (h : (ofText t).duplicateNode? id now = .ok (some (b, copy))) : b.toText ≠ t := by
  unfold duplicateNode? at h
  split at h
  · cases h
  · next i d _ =>
    obtain ⟨used, -, hnext⟩ := Except.exists_of_bind_eq_ok h
    obtain ⟨style?, -, hstyled⟩ := Except.exists_of_bind_eq_ok hnext
    obtain ⟨styled, -, hcopied⟩ := Except.exists_of_bind_eq_ok hstyled
    cases hcopied
    exact toText_ne_of_perm (copyLines_ne_nil d _ styled) (perm_insertAt ..)

end Buffer

/-- The result says that something happened, or nothing about it. -/
def Answer.isFruitful : Answer → Bool
  | changed isChanged => isChanged
  | text t => t.isSome
  | nothing | saved _ => true

/-! ## Outcomes -/

namespace Outcome

variable {α β : Type} {s : Session} {t : Text} {o : Outcome α}

/-- Nothing comes of an operation: the session is the one before, no listener is called, and no
result says that anything happened. -/
structure Idle (s : Session) (fruitful : α → Bool) (o : Outcome α) : Prop where
  session : o.session = s
  notices : o.notices = []
  result : ∀ a, o.result = .ok a → fruitful a = false

/-- A text is put in place. The operation fails, and calls no listener, if what was selected is lost
in it; else it tells that something happened. -/
structure Installs (s : Session) (t : Text) (fruitful : α → Bool) (o : Outcome α) : Prop where
  code : o.session.code = t
  dirty : o.session.dirty = true
  result : ¬ s.selection.LostIn t → ∃ a, o.result = .ok a ∧ fruitful a = true
  failure : s.selection.LostIn t → ∃ long, o.result = .error (.tooLong long)
  selection : s.selection.LostIn t → o.session.selection = s.selection
  notices : s.selection.LostIn t → o.notices = []

/-- The text that was meant is put in place; without one nothing comes of the operation. -/
def Follows (s : Session) (target? : Option Text) (fruitful : α → Bool) (o : Outcome α) : Prop :=
  match target? with
  | some t => o.Installs s t fruitful
  | none => o.Idle s fruitful

/-- What is done once a text is in place: it succeeds, and keeps the text and the mark. -/
structure Concludes (m : Session) (fruitful : α → Bool) (o : Outcome α) : Prop where
  code : o.session.code = m.code
  dirty : o.session.dirty = m.dirty
  result : ∃ a, o.result = .ok a ∧ fruitful a = true

variable {fruitful : α → Bool} {fruitful' : β → Bool}

theorem Idle.map {f : α → β} (h : o.Idle s fruitful) (hf : ∀ a, fruitful' (f a) = fruitful a) :
    (o.map f).Idle s fruitful' := by
  refine ⟨h.session, h.notices, fun b hb => ?_⟩
  cases hr : o.result with
  | error e => simp [Outcome.map, hr, Except.map] at hb
  | ok a =>
    simp only [Outcome.map, hr, Except.map, Except.ok.injEq] at hb
    rw [← hb, hf, h.result a hr]

theorem Installs.map {f : α → β} (h : o.Installs s t fruitful)
    (hf : ∀ a, fruitful a = true → fruitful' (f a) = true) : (o.map f).Installs s t fruitful' where
  code := h.code
  dirty := h.dirty
  result found := by
    obtain ⟨a, ha, hgood⟩ := h.result found
    exact ⟨f a, by rw [Outcome.map, ha]; rfl, hf a hgood⟩
  failure lost := by
    obtain ⟨long, hlong⟩ := h.failure lost
    exact ⟨long, by rw [Outcome.map, hlong]; rfl⟩
  selection := h.selection
  notices := h.notices

theorem Follows.map {target? : Option Text} {f : α → β} (h : o.Follows s target? fruitful)
    (hf : ∀ a, fruitful' (f a) = fruitful a) : (o.map f).Follows s target? fruitful' := by
  cases target? with
  | none => exact Idle.map h hf
  | some t => exact Installs.map h fun a ha => (hf a).trans ha

theorem Installs.of_selection {m : Session} (h : o.Installs m t fruitful)
    (hm : m.selection = s.selection) : o.Installs s t fruitful :=
  ⟨h.code, h.dirty, hm ▸ h.result, hm ▸ h.failure, hm ▸ h.selection, hm ▸ h.notices⟩

variable {p : Outcome Bool} {next : Bool → Session → Outcome β}

theorem Installs.andThen (h : p.Installs s t id) (hgo : ∀ m, (next true m).Concludes m fruitful') :
    (p.andThen next).Installs s t fruitful' := by
  by_cases lost : s.selection.LostIn t
  · obtain ⟨long, hlong⟩ := h.failure lost
    have hstop : p.andThen next = ⟨.error (.tooLong long), p.session, p.notices⟩ := by
      simp [Outcome.andThen, hlong]
    rw [hstop]
    exact ⟨h.code, h.dirty, fun found => absurd lost found, fun _ =>
      ⟨long, rfl⟩, h.selection, h.notices⟩
  · obtain ⟨changed, hresult, rfl⟩ := h.result lost
    have hrest : p.andThen next =
        { next true p.session with notices := p.notices ++ (next true p.session).notices } := by
      simp [Outcome.andThen, hresult]
    obtain ⟨hcode, hdirty, hgood⟩ := hgo p.session
    rw [hrest]
    exact ⟨hcode.trans h.code, hdirty.trans h.dirty, fun _ => hgood, fun h =>
      absurd h lost, fun h => absurd h lost,
      fun h => absurd h lost⟩

theorem Idle.andThen (h : p.Idle s id) (hkeep : (next false s).Idle s fruitful') :
    (p.andThen next).Idle s fruitful' := by
  cases hr : p.result with
  | error e =>
    have hstop : p.andThen next = ⟨.error e, p.session, p.notices⟩ := by simp [Outcome.andThen, hr]
    rw [hstop]
    exact ⟨h.session, h.notices, fun a ha => nomatch ha⟩
  | ok changed =>
    obtain rfl : changed = false := h.result changed hr
    have hrest : p.andThen next =
        { next false s with notices := p.notices ++ (next false s).notices } := by
      simp [Outcome.andThen, hr, h.session]
    rw [hrest]
    exact ⟨hkeep.session, by simp [h.notices, hkeep.notices], hkeep.result⟩

theorem Follows.andThen {target? : Option Text} (h : p.Follows s target? id)
    (hgo : ∀ m, (next true m).Concludes m fruitful') (hkeep : (next false s).Idle s fruitful') :
    (p.andThen next).Follows s target? fruitful' := by
  cases target? with
  | none => exact Idle.andThen h hkeep
  | some t => exact Installs.andThen h hgo

end Outcome

/-! ## What an operation puts in place -/

/-- The text that a command makes of another, if it makes another. -/
def Command.target? (t : Text) (c : Command) : Option Text :=
  match c.run t with
  | .ok other => if other = t then none else some other
  | .error _ => none

theorem Command.target?_eq_none {t : Text} {c : Command} :
    c.target? t = none ↔ c.run t = .ok t ∨ ∃ e, c.run t = .error e := by
  unfold target?
  cases c.run t with
  | error e => simp
  | ok other => simp

theorem Command.cases_of_run_restyle_error {t id : Text} {style : Style} {e : EditError}
    (h : (restyle id style).run t = .error e) :
    (∃ long, (Buffer.ofText t).style? id = .error long) ∨
      (∃ present, (Buffer.ofText t).style? id = .ok present) ∧ ¬ style.Brief := by
  simp only [run, onStyledLines, Buffer.restyle] at h
  cases hread : (Buffer.ofText t).style? id with
  | error long => exact .inl ⟨long, rfl⟩
  | ok present =>
    refine .inr ⟨⟨present, rfl⟩, fun hbrief => ?_⟩
    have hwrite := Style.write_of_brief ((Buffer.brief_merge_style? hread).2 hbrief)
    simp only [hread, bind, Except.bind, hwrite] at h
    cases h

theorem Command.target?_duplicateNode (t id : Text) (now : Nat) :
    (Command.duplicateNode id now).target? t = match (Buffer.ofText t).duplicateNode? id now with
    | .ok (some (b, _)) => some b.toText
    | _ => none := by
  simp only [target?, run, onStyledLines]
  cases h : (Buffer.ofText t).duplicateNode? id now with
  | error long => rfl
  | ok found =>
    cases found with
    | none => exact if_pos (Buffer.toText_ofText t)
    | some copied => exact if_neg (Buffer.toText_ne_of_duplicateNode? h)

/-- The identifier of a node that is inserted, if one is given or can be found. -/
def Session.idFor? (s : Session) (now : Nat) : Option Text → Option Text
  | some (c :: cs) => some (c :: cs)
  | _ => (s.nextId now).toOption

namespace Operation

/-- The command on the text that an operation stands for. -/
def command? (s : Session) : Operation → Option Command
  | setDirection direction => some (.setDirection direction)
  | insertNode anchor label shape id now =>
    (s.idFor? now id).map fun id => .insertNode anchor id label shape
  | relabelNode id label => some (.relabelNode id label)
  | reshapeNode id shape => some (.reshapeNode id shape)
  | deleteNode id => some (.deleteNode id)
  | duplicateNode id now => some (.duplicateNode id now)
  | connect source target label arrow => some (.connect source target label arrow)
  | deleteEdge edge => some (.deleteEdge edge)
  | relabelEdge edge label => some (.relabelEdge edge label)
  | rearrowEdge edge arrow => some (.rearrowEdge edge arrow)
  | insertSubgraph id title members => some (.insertSubgraph id title members)
  | retitleSubgraph id title => some (.retitleSubgraph id title)
  | deleteSubgraph id => some (.deleteSubgraph id)
  | addMember subgraph node => some (.addMember subgraph node)
  | removeMember subgraph node => some (.removeMember subgraph node)
  | restyleNode id style => some (.restyle id style)
  | restyleSubgraph id style => some (.restyle id style)
  | setCode .. | undo | redo | select _ | setRenderResult _ | reset _ | load _ | save _ => none

/-- The text that an edit or a step through the history is about to put in place: another than the
present one, or the one the history gives. -/
def target? (s : Session) : Operation → Option Text
  | setCode code _ => if code = s.code then none else some code
  | undo => s.history.undo?.map (·.1)
  | redo => s.history.redo?.map (·.1)
  | op => (op.command? s).bind (Command.target? s.code)

end Operation

namespace Session

open Outcome

variable {α : Type} {s : Session} {t : Text}

theorem installs_adopt (s : Session) (t : Text) {fruitful : α → Bool} {a : α}
    (h : fruitful a = true) : (s.adopt t a).Installs s t fruitful := by
  unfold adopt
  split
  · next left hleft =>
    have found : ¬ s.selection.LostIn t := by
      intro lost
      obtain ⟨long, hlong⟩ := Selection.lostIn_iff.1 lost
      rw [Selection.revalidate, hlong] at hleft
      cases hleft
    exact ⟨rfl, rfl, fun _ => ⟨a, rfl, h⟩, fun lost => absurd lost found, fun lost =>
      absurd lost found,
      fun lost => absurd lost found⟩
  · next long hlong =>
    have lost : s.selection.LostIn t :=
      Selection.lostIn_iff.2 ⟨long, Selection.existsIn_of_revalidate_error hlong⟩
    exact ⟨rfl, rfl, fun found => absurd lost found, fun _ => ⟨long, rfl⟩,
      fun _ => rfl, fun _ => rfl⟩

theorem idle_keep (s : Session) {fruitful : α → Bool} {a : α} (h : fruitful a = false) :
    (s.keep a).Idle s fruitful := by
  refine ⟨rfl, rfl, fun b hb => ?_⟩
  cases hb
  exact h

theorem idle_fail (s : Session) (e : SessionError) {fruitful : α → Bool} :
    (s.fail e).Idle s fruitful :=
  ⟨rfl, rfl, fun _ hb => nomatch hb⟩

theorem follows_setCode (s : Session) (code : Text) (record : Bool) :
    (s.setCode code record).Follows s (if code = s.code then none else some code) id := by
  unfold setCode
  split
  · exact s.idle_keep rfl
  · -- the history may have recorded the text by then; what is selected is still the same
    cases record with
    | true => exact Installs.of_selection (installs_adopt { s with history := _ } code rfl) rfl
    | false => exact Installs.of_selection (installs_adopt s code rfl) rfl

theorem follows_undo (s : Session) :
    s.undo.Follows s (s.history.undo?.map (·.1)) Option.isSome := by
  unfold undo
  split
  · next h =>
    rw [h]
    exact s.idle_keep rfl
  · next code earlier h =>
    rw [h]
    exact Installs.of_selection (installs_adopt { s with history := earlier } code rfl) rfl

theorem follows_redo (s : Session) :
    s.redo.Follows s (s.history.redo?.map (·.1)) Option.isSome := by
  unfold redo
  split
  · next h =>
    rw [h]
    exact s.idle_keep rfl
  · next code later h =>
    rw [h]
    exact Installs.of_selection (installs_adopt { s with history := later } code rfl) rfl

theorem follows_edit (s : Session) (c : Command) : (s.edit c).Follows s (c.target? s.code) id := by
  unfold edit Command.target?
  cases c.run s.code with
  | ok code => exact s.follows_setCode code true
  | error e => exact s.idle_fail _

theorem edit_of_run_eq {c : Command} (h : c.run s.code = .ok s.code) : s.edit c = s.keep false := by
  rw [edit, h]
  exact if_pos rfl

theorem edit_of_run_error {c : Command} {e : EditError} (h : c.run s.code = .error e) :
    s.edit c = s.fail (.ofEdit e) := by
  rw [edit, h]

theorem follows_insertNode (s : Session) (anchor label shape : Text) (id : Option Text)
    (now : Nat) :
    (s.insertNode anchor label shape id now).Follows s
      ((Operation.insertNode anchor label shape id now).target? s) Option.isSome := by
  have hwith (node : Text) : (s.insertNodeAs anchor label shape node).Follows s
      ((Command.insertNode anchor node label shape).target? s.code) Option.isSome :=
    (s.follows_edit _).map fun changed => by cases changed <;> rfl
  have hnext : (s.insertNode anchor label shape none now).Follows s
      ((Operation.insertNode anchor label shape none now).target? s) Option.isSome := by
    cases h : s.nextId now with
    | ok node =>
      simp only [insertNode, Operation.target?, Operation.command?, idFor?, h]
      exact hwith node
    | error long =>
      simp only [insertNode, Operation.target?, Operation.command?, idFor?, h]
      exact s.idle_fail _
  cases id with
  | none => exact hnext
  | some given =>
    cases given with
    | nil => exact hnext
    | cons c cs => exact hwith (c :: cs)

theorem concludes_deselectIf (s : Session) (condition : Selection → Bool) :
    (s.deselectIf condition true).Concludes s id := by
  unfold deselectIf
  split
  · exact ⟨rfl, rfl, true, rfl, rfl⟩
  · exact ⟨rfl, rfl, true, rfl, rfl⟩

theorem concludes_reselect (s : Session) (line : Int) : (s.reselect line true).Concludes s id := by
  unfold reselect
  split
  · exact ⟨rfl, rfl, true, rfl, rfl⟩
  · exact ⟨rfl, rfl, true, rfl, rfl⟩

theorem follows_deleteNode (s : Session) (node : Text) :
    (s.deleteNode node).Follows s ((Command.deleteNode node).target? s.code) id := by
  refine (s.follows_edit (.deleteNode node)).andThen (fun m => ?_) (s.idle_keep rfl)
  obtain ⟨hcode, hdirty, hresult⟩ :=
    concludes_deselectIf { m with overrides := Assoc.remove node m.overrides } (·.isNode node)
  exact ⟨hcode, hdirty, hresult⟩

theorem follows_deleteEdge (s : Session) (e : Edge) :
    (s.deleteEdge e).Follows s ((Command.deleteEdge e).target? s.code) id :=
  (s.follows_edit (.deleteEdge e)).andThen (fun m => m.concludes_deselectIf (·.isEdge e))
    (s.idle_keep rfl)

theorem follows_deleteSubgraph (s : Session) (group : Text) :
    (s.deleteSubgraph group).Follows s ((Command.deleteSubgraph group).target? s.code) id :=
  (s.follows_edit (.deleteSubgraph group)).andThen
    (fun m => m.concludes_deselectIf (·.isGroup group)) (s.idle_keep rfl)

theorem follows_editEdge (s : Session) (e : Edge) (c : Command) :
    (s.editEdge e c).Follows s (c.target? s.code) id := by
  refine (s.follows_edit c).andThen (fun m => ?_) (s.idle_keep rfl)
  split
  · exact m.concludes_reselect e.line
  · exact ⟨rfl, rfl, true, rfl, rfl⟩

theorem follows_duplicateNode (s : Session) (node : Text) (now : Nat) :
    (s.duplicateNode node now).Follows s ((Command.duplicateNode node now).target? s.code)
      Option.isSome := by
  rw [Command.target?_duplicateNode]
  unfold duplicateNode buffer
  cases h : (Buffer.ofText s.code).duplicateNode? node now with
  | error long => exact s.idle_fail _
  | ok found =>
    cases found with
    | none => exact s.idle_keep rfl
    | some copied =>
      obtain ⟨b, copy⟩ := copied
      have other : b.toText ≠ s.code := Buffer.toText_ne_of_duplicateNode? h
      dsimp only
      -- the style of the copy is set beforehand, and the text is another one in any case
      generalize hm : ({ s with overrides := _ } : Session) = m
      have hset : (m.setCode b.toText true).Follows m
          (if b.toText = m.code then none else some b.toText) id :=
        m.follows_setCode _ true
      have hcode : m.code = s.code := by rw [← hm]
      have hselection : m.selection = s.selection := by rw [← hm]
      rw [if_neg (hcode ▸ other)] at hset
      exact Installs.of_selection (Installs.map hset fun _ _ => rfl) hselection

/-- The session once a style of a node is kept beside the text, which it is whatever becomes of the
text. -/
def withStyle (s : Session) (node : Text) (style : Style) : Session :=
  { s with overrides := Assoc.put node ((s.override node).merge style) s.overrides }

theorem restyleNode_eq (s : Session) (node : Text) (style : Style) :
    s.restyleNode node style =
      ((s.withStyle node style).edit (.restyle node style)).andThen fun changed after =>
      if !changed && (s.override node).merge style != s.override node then
        ({ after with dirty := true } : Session).announce true
      else after.keep changed := rfl

theorem restyleNode_of_unread {node : Text} {style : Style} {long : Integer.TooLong}
    (h : s.buffer.style? node = .error long) :
    s.restyleNode node style = (s.withStyle node style).fail (.tooLong long) := by
  have hrun : (Command.restyle node style).run (s.withStyle node style).code =
      .error (.tooLong long) := by
    have hread : (Buffer.ofText (s.withStyle node style).code).style? node = .error long := h
    simp only [Command.run, Command.onStyledLines, Buffer.restyle, hread]
    rfl
  rw [restyleNode_eq, edit_of_run_error hrun]
  rfl

/-- The styles in the text can be read, but an integer that is to be set cannot be written. -/
theorem restyleNode_of_unwritten {node : Text} {style : Style} {present : Option Style}
    (h : s.buffer.style? node = .ok present) (hlong : ¬ style.Brief) :
    s.restyleNode node style = (s.withStyle node style).fail (.tooLong .writing) := by
  have hrun : (Command.restyle node style).run (s.withStyle node style).code =
      .error (.tooLong .writing) := by
    have hread : (Buffer.ofText (s.withStyle node style).code).style? node = .ok present := h
    have hwrite :=
      Style.write_of_not_brief fun hmerged => hlong ((Buffer.brief_merge_style? hread).1 hmerged)
    simp only [Command.run, Command.onStyledLines, Buffer.restyle, hread, bind, Except.bind, hwrite]
    rfl
  rw [restyleNode_eq, edit_of_run_error hrun]
  rfl

theorem restyleNode_of_same {node : Text} {style : Style}
    (h : (Command.restyle node style).run s.code = .ok s.code) :
    s.restyleNode node style =
      if (s.override node).merge style = s.override node then (s.withStyle node style).keep false
      else ({ s.withStyle node style with dirty := true } : Session).announce true := by
  have hrun : (Command.restyle node style).run (s.withStyle node style).code =
      .ok (s.withStyle node style).code := h
  rw [restyleNode_eq, edit_of_run_eq hrun]
  split
  · next known => simp [Outcome.andThen, keep, known]
  · next other => simp [Outcome.andThen, keep, announce, other]

/-- What comes of setting a style of a node: either the text with the style is put in place, or the
text is left as it is. Then either its styles cannot be read, or the style cannot be written, or it
counts as a change, or it is the one that was set before. -/
inductive Restyled (s : Session) (node : Text) (style : Style) :
    Option Text → Outcome Bool → Prop where
  | placed {t : Text} {o : Outcome Bool} (h : o.Installs s t id) : Restyled s node style (some t) o
  | unread {long : Integer.TooLong} (h : s.buffer.style? node = .error long) :
      Restyled s node style none ((s.withStyle node style).fail (.tooLong long))
  | unwritten {present : Option Style} (h : s.buffer.style? node = .ok present)
    (long : ¬ style.Brief) :
      Restyled s node style none ((s.withStyle node style).fail (.tooLong .writing))
  | counted : Restyled s node style none
    (({ s.withStyle node style with dirty := true } : Session).announce true)
  | known (h : (s.override node).merge style = s.override node)
      (same : (Command.restyle node style).run s.code = .ok s.code) :
      Restyled s node style none ((s.withStyle node style).keep false)

theorem restyled_restyleNode (s : Session) (node : Text) (style : Style) :
    Restyled s node style ((Command.restyle node style).target? s.code)
      (s.restyleNode node style) := by
  cases htarget : (Command.restyle node style).target? s.code with
  | some t =>
    have hedit := (s.withStyle node style).follows_edit (.restyle node style)
    rw [show (Command.restyle node style).target? (s.withStyle node style).code =
        some t from htarget] at hedit
    rw [restyleNode_eq]
    refine .placed (Installs.of_selection (Installs.andThen hedit fun m => ?_) rfl)
    exact ⟨rfl, rfl, true, rfl, rfl⟩
  | none =>
    rcases Command.target?_eq_none.1 htarget with same | ⟨e, he⟩
    · rw [restyleNode_of_same same]
      split
      · next h => exact .known h same
      · exact .counted
    · rcases Command.cases_of_run_restyle_error he with ⟨long, hread⟩ | ⟨⟨present, hread⟩, hlong⟩
      · rw [restyleNode_of_unread hread]
        exact .unread hread
      · rw [restyleNode_of_unwritten hread hlong]
        exact .unwritten hread hlong

end Session

namespace Operation

open Session

/-- The operation is an edit or a step through the history, and concerns nothing beside the text. -/
def isTextual : Operation → Bool
  | restyleNode .. | select _ | setRenderResult _ | reset _ | load _ | save _ => false
  | _ => true

theorem follows_perform (s : Session) (store : Store) {op : Operation} (h : op.isTextual = true) :
    (op.perform s store).2.Follows s (op.target? s) Answer.isFruitful := by
  cases op with
  | restyleNode | select | setRenderResult | reset | load | save => cases h
  | setCode code record => exact (s.follows_setCode code record).map fun _ => rfl
  | undo => exact s.follows_undo.map fun _ => rfl
  | redo => exact s.follows_redo.map fun _ => rfl
  | insertNode anchor label shape id now =>
    exact (s.follows_insertNode anchor label shape id now).map fun _ => rfl
  | deleteNode id => exact (s.follows_deleteNode id).map fun _ => rfl
  | duplicateNode id now => exact (s.follows_duplicateNode id now).map fun _ => rfl
  | deleteEdge e => exact (s.follows_deleteEdge e).map fun _ => rfl
  | deleteSubgraph id => exact (s.follows_deleteSubgraph id).map fun _ => rfl
  | relabelEdge e label => exact (s.follows_editEdge e (.relabelEdge e label)).map fun _ => rfl
  | rearrowEdge e arrow => exact (s.follows_editEdge e (.rearrowEdge e arrow)).map fun _ => rfl
  | setDirection direction => exact (s.follows_edit (.setDirection direction)).map fun _ => rfl
  | relabelNode id label => exact (s.follows_edit (.relabelNode id label)).map fun _ => rfl
  | reshapeNode id shape => exact (s.follows_edit (.reshapeNode id shape)).map fun _ => rfl
  | connect source target label arrow =>
    exact (s.follows_edit (.connect source target label arrow)).map fun _ => rfl
  | insertSubgraph id title members =>
    exact (s.follows_edit (.insertSubgraph id title members)).map fun _ => rfl
  | retitleSubgraph id title => exact (s.follows_edit (.retitleSubgraph id title)).map fun _ => rfl
  | addMember subgraph node => exact (s.follows_edit (.addMember subgraph node)).map fun _ => rfl
  | removeMember subgraph node =>
    exact (s.follows_edit (.removeMember subgraph node)).map fun _ => rfl
  | restyleSubgraph id style => exact (s.follows_edit (.restyle id style)).map fun _ => rfl

end Operation
end Chartwright
