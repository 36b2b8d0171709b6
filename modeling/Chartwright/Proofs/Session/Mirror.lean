import Chartwright.Proofs.Session.Untouched
/-!
A listener that copies what it finds whenever it is called.

An operation that succeeds calls the listeners last: whatever it changes of the text or the
selection, it does not change after its last notice (`tells_perform`). An operation that fails has
changed nothing, unless it has put a text in place in which what is selected is lost; of that no
listener hears. So a listener has the text and the selection after every operation of a run if and
only if no operation of the run strands another text (`mirror_eq_notice_iff`). After one that does,
the listener keeps the old text until it is called again (`mirror_ne_notice_of_long_integer`).
-/
namespace Chartwright

namespace Outcome

variable {α β : Type} {s : Session} {o : Outcome α}

/-- What a listener has after an operation that copies what it finds whenever it is called, given
what it had before. -/
def heard (copy : Notice) (o : Outcome α) : Notice := o.notices.foldl (fun _ found => found) copy

/-- A listener that had the session `s` before has the session after. -/
def Mirrored (s : Session) (o : Outcome α) : Prop := o.heard s.notice = o.session.notice

/-- If the operation succeeds, a listener that had the session `s` before has the session after. -/
def Tells (s : Session) (o : Outcome α) : Prop := ∀ a, o.result = .ok a → o.Mirrored s

theorem heard_of_notices_eq_nil (h : o.notices = []) (copy : Notice) : o.heard copy = copy := by
  rw [heard, h]
  rfl

theorem heard_of_notices_ne_nil (h : o.notices ≠ []) (copy other : Notice) :
    o.heard copy = o.heard other := by
  unfold heard
  cases hn : o.notices with
  | nil => exact absurd hn h
  | cons first rest => rfl

theorem Tells.map (f : α → β) (h : o.Tells s) : (o.map f).Tells s := by
  intro b hb
  cases hr : o.result with
  | ok a => exact h a hr
  | error e => simp [Outcome.map, hr, Except.map] at hb

/-- What comes after starts from the session that the listener has by then. -/
theorem Tells.andThen {next : α → Session → Outcome β} (h : o.Tells s)
    (hn : ∀ a m, (next a m).Tells m) : (o.andThen next).Tells s := by
  intro b hb
  cases hr : o.result with
  | error e => simp [Outcome.andThen, hr] at hb
  | ok a =>
    have hrest : o.andThen next =
        { next a o.session with notices := o.notices ++ (next a o.session).notices } := by
      simp [Outcome.andThen, hr]
    rw [hrest] at hb ⊢
    have hfirst : o.heard s.notice = o.session.notice := h a hr
    have hsecond : (next a o.session).heard o.session.notice = (next a o.session).session.notice :=
      hn a o.session b hb
    simp only [heard] at hfirst hsecond
    simp only [Mirrored, heard, List.foldl_append]
    rw [hfirst]
    exact hsecond

theorem Tells.of_notice {m : Session} (h : o.Tells m) (same : m.notice = s.notice) : o.Tells s := by
  intro a ha
  have hm := h a ha
  unfold Mirrored at hm ⊢
  rwa [← same]

end Outcome

namespace Session

open Outcome

variable {α : Type} {s m : Session}

theorem tells_keep (a : α) (same : m.notice = s.notice) : (m.keep a).Tells s := fun _ _ => same.symm

theorem tells_announce (a : α) : (m.announce a).Tells s := fun _ _ => rfl

theorem tells_fail (e : SessionError) : (m.fail e : Outcome α).Tells s := fun _ ha => nomatch ha

theorem tells_adopt (code : Text) (a : α) : (m.adopt code a).Tells s := by
  unfold adopt
  split
  · exact tells_announce a
  · exact tells_fail _

theorem tells_setCode (s : Session) (code : Text) (record : Bool) :
    (s.setCode code record).Tells s := by
  unfold setCode
  split
  · exact tells_keep false rfl
  · exact tells_adopt code true

theorem tells_undo (s : Session) : s.undo.Tells s := by
  unfold undo
  split
  · exact tells_keep none rfl
  · exact tells_adopt _ _

theorem tells_redo (s : Session) : s.redo.Tells s := by
  unfold redo
  split
  · exact tells_keep none rfl
  · exact tells_adopt _ _

theorem tells_deselectIf (s : Session) (condition : Selection → Bool) (a : α) :
    (s.deselectIf condition a).Tells s := by
  unfold deselectIf
  split
  · exact (tells_announce ()).map _
  · exact tells_keep a rfl

theorem tells_reselect (s : Session) (line : Int) (a : α) : (s.reselect line a).Tells s := by
  unfold reselect
  split
  · exact (tells_announce ()).map _
  · exact tells_keep a rfl

theorem tells_edit (s : Session) (c : Command) : (s.edit c).Tells s := by
  unfold edit
  split
  · exact s.tells_setCode _ true
  · exact tells_fail _

theorem tells_insertNode (s : Session) (anchor label shape : Text) (id : Option Text) (now : Nat) :
    (s.insertNode anchor label shape id now).Tells s := by
  unfold insertNode
  split
  · exact (s.tells_edit _).map _
  · split
    · exact (s.tells_edit _).map _
    · exact tells_fail _

theorem tells_deleteNode (s : Session) (id : Text) : (s.deleteNode id).Tells s := by
  refine (s.tells_setCode _ true).andThen fun changed m => ?_
  split
  · -- the style set for the node goes unnoticed, but is no part of a notice
    exact (tells_deselectIf { m with overrides := _ } _ true).of_notice rfl
  · exact tells_keep false rfl

theorem tells_duplicateNode (s : Session) (id : Text) (now : Nat) :
    (s.duplicateNode id now).Tells s := by
  unfold duplicateNode
  split
  · exact tells_fail _
  · exact tells_keep none rfl
  · exact (Tells.map _ (tells_setCode { s with overrides := _ } _ true)).of_notice rfl

theorem tells_deleteEdge (s : Session) (e : Edge) : (s.deleteEdge e).Tells s := by
  refine (s.tells_setCode _ true).andThen fun changed m => ?_
  split
  · exact m.tells_deselectIf _ true
  · exact tells_keep false rfl

theorem tells_deleteSubgraph (s : Session) (id : Text) : (s.deleteSubgraph id).Tells s := by
  refine (s.tells_setCode _ true).andThen fun changed m => ?_
  split
  · exact m.tells_deselectIf _ true
  · exact tells_keep false rfl

theorem tells_editEdge (s : Session) (e : Edge) (c : Command) : (s.editEdge e c).Tells s := by
  refine (s.tells_edit c).andThen fun changed m => ?_
  split
  · exact m.tells_reselect e.line true
  · exact tells_keep changed rfl

theorem tells_restyleNode (s : Session) (id : Text) (style : Style) :
    (s.restyleNode id style).Tells s := by
  rw [restyleNode_eq]
  refine Tells.of_notice
    (Tells.andThen (tells_edit (s.withStyle id style) _) fun changed m => ?_) rfl
  split
  · exact tells_announce true
  · exact tells_keep changed rfl

theorem tells_load (s : Session) (store : Store) (path : Path) : (s.load store path).Tells s := by
  rcases s.load_cases store path with ⟨state, h⟩ | ⟨e, h⟩
  · rw [h]
    exact tells_announce _
  · rw [h]
    exact tells_fail e

theorem tells_save (s : Session) (store : Store) (given : Option Path) :
    (s.save store given).2.Tells s := by
  rcases s.save_cases store given with ⟨path, h⟩ | ⟨e, h⟩
  · rw [h]
    exact tells_keep path rfl
  · rw [h]
    exact tells_fail e

end Session

namespace Operation

open Session Outcome

variable {s : Session}

theorem tells_perform (s : Session) (store : Store) (op : Operation) :
    (op.perform s store).2.Tells s := by
  cases op with
  | setCode code record => exact (s.tells_setCode code record).map _
  | undo => exact s.tells_undo.map _
  | redo => exact s.tells_redo.map _
  | select | reset => exact (tells_announce _).map _
  | setRenderResult => exact tells_keep _ rfl
  | insertNode anchor label shape id now =>
    exact (s.tells_insertNode anchor label shape id now).map _
  | deleteNode id => exact (s.tells_deleteNode id).map _
  | duplicateNode id now => exact (s.tells_duplicateNode id now).map _
  | deleteEdge e => exact (s.tells_deleteEdge e).map _
  | deleteSubgraph id => exact (s.tells_deleteSubgraph id).map _
  | restyleNode id style => exact (s.tells_restyleNode id style).map _
  | relabelEdge e | rearrowEdge e => exact (s.tells_editEdge e _).map _
  | load path => exact (s.tells_load store path).map _
  | save path => exact (s.tells_save store path).map _
  | setDirection | relabelNode | reshapeNode | connect | insertSubgraph | retitleSubgraph
    | addMember | removeMember
  | restyleSubgraph => exact (s.tells_edit _).map _

/-- The operation is about to put another text in place, in which what is selected cannot be looked
for. -/
def Strands (s : Session) (op : Operation) : Prop :=
  ∃ t, op.target? s = some t ∧ t ≠ s.code ∧ s.selection.LostIn t

theorem strands_setCode {code : Text} {record : Bool} (other : code ≠ s.code)
    (lost : s.selection.LostIn code) : (setCode code record).Strands s :=
  ⟨code, if_neg other, other, lost⟩

theorem strands_radiusLine {id : Text} {record : Bool} (hcode : s.code.head? ≠ some 's')
    (hselection : s.selection = .of (.node id)) :
    (setCode (StyleLine.radiusLine ['B'] 4301) record).Strands s :=
  strands_setCode (StyleLine.radiusLine_ne hcode)
    ⟨hselection ▸ rfl, _, Buffer.ids_of_long_radius (by decide) (by decide)⟩

/-- What becomes of a text that is stranded: it is in place, the operation has failed, and nobody
has heard of it. -/
theorem stranded_of_strands (store : Store) {op : Operation} (h : op.Strands s) :
    (op.perform s store).2.session.code ≠ s.code ∧ ∃ t, (op.perform s store).2.Stranded s t := by
  obtain ⟨t, htarget, other, lost⟩ := h
  have hstranded := (installs_perform store htarget).stranded lost
  exact ⟨hstranded.code ▸ other, t, hstranded⟩

theorem mirrored_iff_not_strands (s : Session) (store : Store) (op : Operation) :
    (op.perform s store).2.Mirrored s ↔ ¬ op.Strands s := by
  constructor
  · intro mirrored strands
    obtain ⟨other, t, hstranded⟩ := stranded_of_strands store strands
    rw [Mirrored, heard_of_notices_eq_nil hstranded.notices] at mirrored
    exact other (congrArg Notice.code mirrored).symm
  · intro kept
    cases hresult : (op.perform s store).2.result with
    | ok a => exact tells_perform s store op a hresult
    | error e =>
      have hfruitless : (op.perform s store).2.Fruitless := by
        intro a ha
        rw [hresult] at ha
        cases ha
      -- a failed operation has called no listener, and has left the text and the selection as they
      -- were
      suffices h : (op.perform s store).2.session.notice = s.notice ∧
          (op.perform s store).2.notices = [] by
        rw [Mirrored, heard_of_notices_eq_nil h.2, h.1]
      cases htarget : op.target? s with
      | none =>
        have huntouched := untouched_perform store htarget hfruitless
        exact ⟨by rw [notice, huntouched.code, huntouched.selection, notice], huntouched.notices⟩
      | some t =>
        have hplaced := installs_perform store htarget
        have lost := hplaced.lostIn_of_fruitless hfruitless
        have same : t = s.code :=
          Classical.byContradiction fun other => kept ⟨t, htarget, other, lost⟩
        exact ⟨by rw [notice, hplaced.code, hplaced.selection lost, same, notice],
          hplaced.notices lost⟩

theorem heard_of_called {store : Store} {op : Operation} (h : (op.perform s store).2.notices ≠ [])
    (copy : Notice) :
    (op.perform s store).2.heard copy = (op.perform s store).2.session.notice := by
  rw [heard_of_notices_ne_nil h copy s.notice]
  refine (mirrored_iff_not_strands s store op).2 fun strands => h ?_
  obtain ⟨-, t, hstranded⟩ := stranded_of_strands store strands
  exact hstranded.notices

theorem selection_of_not_called {store : Store} {op : Operation}
    (h : (op.perform s store).2.notices = []) :
    (op.perform s store).2.session.selection = s.selection := by
  by_cases strands : op.Strands s
  · obtain ⟨-, t, hstranded⟩ := stranded_of_strands store strands
    exact hstranded.selection
  · have mirrored := (mirrored_iff_not_strands s store op).2 strands
    rw [Mirrored, heard_of_notices_eq_nil h] at mirrored
    exact (congrArg Notice.selection mirrored).symm

/-! ## Runs -/

/-- What a listener has after a run, given what it had before. -/
def mirror (s : Session) (store : Store) (copy : Notice) : List Operation → Notice
  | [] => copy
  | op :: rest =>
    mirror (op.perform s store).2.session (op.perform s store).1
      ((op.perform s store).2.heard copy) rest

/-- No operation of a run strands another text. -/
def NeverStrands (s : Session) (store : Store) : List Operation → Prop
  | [] => True
  | op :: rest =>
    ¬ op.Strands s ∧ NeverStrands (op.perform s store).2.session (op.perform s store).1 rest

theorem selection_mirror (ops : List Operation) : ∀ {s : Session} {store : Store} {copy : Notice},
    copy.selection = s.selection →
      (mirror s store copy ops).selection = (run s store ops).1.selection := by
  induction ops with
  | nil => intro s store copy h; exact h
  | cons op rest ih =>
    intro s store copy h
    refine ih ?_
    by_cases called : (op.perform s store).2.notices = []
    · rw [heard_of_notices_eq_nil called, selection_of_not_called called, h]
    · rw [heard_of_called called copy]
      rfl

theorem mirror_of_neverStrands (ops : List Operation) :
    ∀ {s : Session} {store : Store}, NeverStrands s store ops →
      mirror s store s.notice ops = (run s store ops).1.notice := by
  induction ops with
  | nil => intro s store _; rfl
  | cons op rest ih =>
    intro s store h
    have hfirst : (op.perform s store).2.heard s.notice = (op.perform s store).2.session.notice :=
      (mirrored_iff_not_strands s store op).2 h.1
    rw [mirror, hfirst]
    exact ih h.2

theorem NeverStrands.of_prefix {before : List Operation} :
    ∀ {ops : List Operation} {s : Session} {store : Store},
    NeverStrands s store ops → before <+: ops → NeverStrands s store before := by
  induction before with
  | nil => intro ops s store _ _; trivial
  | cons op before ih =>
    intro ops s store h hprefix
    obtain ⟨after, rfl⟩ := hprefix
    exact ⟨h.1, ih h.2 ⟨after, rfl⟩⟩

theorem neverStrands_of_mirror (ops : List Operation) : ∀ {s : Session} {store : Store},
    (∀ before, before <+: ops → mirror s store s.notice before = (run s store before).1.notice) →
      NeverStrands s store ops := by
  induction ops with
  | nil => intro s store _; trivial
  | cons op rest ih =>
    intro s store h
    have hfirst : (op.perform s store).2.heard s.notice = (op.perform s store).2.session.notice :=
      h [op] ⟨rest, rfl⟩
    refine ⟨(mirrored_iff_not_strands s store op).1 hfirst, ih fun before hbefore => ?_⟩
    have hlater := h (op :: before) (List.cons_prefix_cons.2 ⟨rfl, hbefore⟩)
    rwa [mirror, hfirst] at hlater

/-- A listener that has the session before a run has its text and its selection after every
operation of the run if and only if no operation strands another text, and has the selection in any
case. An operation that calls the listener leaves it with the session whatever it had; one that does
not call it changes neither text nor selection unless it strands a text, and then it has failed with
that text in place. -/
theorem mirror_eq_notice_iff (s₀ : Session) (store : Store) (ops : List Operation) :
    ((∀ before, before <+: ops →
      mirror s₀ store s₀.notice before = (run s₀ store before).1.notice) ↔
      NeverStrands s₀ store ops) ∧
    (mirror s₀ store s₀.notice ops).selection = (run s₀ store ops).1.selection ∧
    ∀ (op : Operation) (files : Store) (o : Outcome Answer),
      o = (op.perform (run s₀ store ops).1 files).2 →
        (o.notices ≠ [] → ∀ copy, o.heard copy = o.session.notice) ∧
      (o.notices = [] → (o.session.notice = (run s₀ store ops).1.notice ↔
        ¬ op.Strands (run s₀ store ops).1)) ∧
      (op.Strands (run s₀ store ops).1 →
        o.session.code ≠ (run s₀ store ops).1.code ∧ ∃ t, o.Stranded (run s₀ store ops).1 t) := by
  refine ⟨⟨neverStrands_of_mirror ops, fun h before hbefore =>
    mirror_of_neverStrands before (h.of_prefix hbefore)⟩,
    selection_mirror ops rfl, fun op files o ho => ?_⟩
  subst ho
  refine ⟨fun called copy => heard_of_called called copy,
    fun quiet => ?_, stranded_of_strands files⟩
  rw [← mirrored_iff_not_strands _ files op, Mirrored, heard_of_notices_eq_nil quiet]
  exact eq_comm

theorem mirror_ne_notice_of_strands {s : Session} {store : Store} {op : Operation}
    (h : op.Strands s) (error : Option Text) :
    mirror s store s.notice [op, .setRenderResult error] ≠
      (run s store [op, .setRenderResult error]).1.notice := by
  intro mirrored
  refine (mirrored_iff_not_strands s store op).1 ?_ h
  exact mirrored

/-- A text whose identifiers cannot be listed is put in place while a node is selected, and no
listener hears of it. -/
theorem mirror_ne_notice_of_long_integer :
    start? 100 "A[a]".toList = .ok (start 100 "A[a]".toList) ∧
    ∃ s, s = (run (start 100 "A[a]".toList) .empty [.select (.node ['A'])]).1 ∧
      mirror (start 100 "A[a]".toList) .empty (start 100 "A[a]".toList).notice
        [.select (.node ['A'])] = s.notice ∧
      mirror s .empty s.notice [.setCode (StyleLine.radiusLine ['B'] 4301) true,
        .setRenderResult none] ≠
        (run s .empty [.setCode (StyleLine.radiusLine ['B'] 4301) true,
          .setRenderResult none]).1.notice := by
  exact ⟨rfl, _, rfl, rfl, mirror_ne_notice_of_strands (strands_radiusLine (by decide) rfl) none⟩

end Operation
end Chartwright
