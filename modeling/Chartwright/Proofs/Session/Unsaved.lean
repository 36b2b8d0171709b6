import Chartwright.Proofs.Session.Installing
/-!
Whether a session has unsaved changes.

The mark is set by every operation that changes what would be saved, but for three ways of setting a
style of a node that go unmarked: the styles in the text cannot be read, or the one to be set cannot
be written, or an empty style is the first that is set for the node (`Operation.SetsSilently`). So a
session without a mark has the text that was last made, loaded or saved, and its styles as well
unless one has been set silently since (`saved_eq_lastSaved`).
-/
namespace Chartwright.Operation

open Session

variable {s : Session} {store : Store} {op : Operation}

/-- The operation makes what is saved of the session the whole of it: a new document, or a file that
is read or written. -/
def settles (s : Session) (store : Store) : Operation → Bool
  | reset _ => true
  | load path => (s.load store path).result.isOk
  | save given => (s.save store given).2.result.isOk
  | _ => false

/-- What there was to save when the document was last new, loaded or saved in a run. -/
def lastSaved (s : Session) (store : Store) (document : SavedState) : List Operation → SavedState
  | [] => document
  | op :: rest =>
    let after := (op.perform s store).2.session
    lastSaved after (op.perform s store).1
      (if op.settles s store then after.saved else document) rest

/-- A style of a node is kept beside the text without a mark. -/
inductive SetsSilently (s : Session) : Operation → Prop where
  /-- the operation fails at the styles in the text, and the one beside it has changed -/
  | unread {id : Text} {style : Style} {long : Integer.TooLong}
    (h : s.buffer.style? id = .error long)
      (other : Assoc.put id ((s.override id).merge style) s.overrides ≠ s.overrides) :
      SetsSilently s (.restyleNode id style)
  /-- the styles in the text can be read, and the operation fails at an integer to be set -/
  | unwritten {id : Text} {style : Style} {present : Option Style}
    (h : s.buffer.style? id = .ok present)
      (long : ¬ style.Brief)
        (other : Assoc.put id ((s.override id).merge style) s.overrides ≠ s.overrides) :
      SetsSilently s (.restyleNode id style)
  /-- nothing is set of a node for which nothing was, but from now on the node has a style, an empty
  one -/
  | blank {id : Text} (new : Assoc.find? id s.overrides = none)
      (same : (Command.restyle id .empty).run s.code = .ok s.code) :
        SetsSilently s (.restyleNode id .empty)

/-- No style has been set silently since the document of a run was last new, loaded or saved;
`sofar` if that was before the run. -/
def NothingSilent (s : Session) (store : Store) (sofar : Prop) : List Operation → Prop
  | [] => sofar
  | op :: rest =>
    NothingSilent (op.perform s store).2.session (op.perform s store).1
      (op.settles s store = true ∨ sofar ∧ ¬ op.SetsSilently s) rest

/-- What an operation does that makes no document the saved one: it marks the session, leaves the
document and the mark as they are, or sets a style silently. -/
inductive Keeps (s : Session) (op : Operation) (after : Session) : Prop where
  | marked (h : after.dirty = true)
  | same (saved : after.saved = s.saved) (dirty : after.dirty = s.dirty)
  | silent (h : op.SetsSilently s) (code : after.code = s.code) (dirty : after.dirty = s.dirty)

theorem keeps_restyleNode (id : Text) (style : Style) :
    Keeps s (.restyleNode id style) (s.restyleNode id style).session := by
  have hrestyled := restyled_restyleNode s id style
  generalize (Command.restyle id style).target? s.code = target? at hrestyled
  generalize s.restyleNode id style = o at hrestyled
  cases hrestyled with
  | placed h => exact .marked h.dirty
  | counted => exact .marked rfl
  | unread h =>
    by_cases other : Assoc.put id ((s.override id).merge style) s.overrides = s.overrides
    · exact .same (congrArg (SavedState.mk s.code) other) rfl
    · exact .silent (.unread h other) rfl rfl
  | unwritten h long =>
    by_cases other : Assoc.put id ((s.override id).merge style) s.overrides = s.overrides
    · exact .same (congrArg (SavedState.mk s.code) other) rfl
    · exact .silent (.unwritten h long other) rfl rfl
  | known h same =>
    cases hfind : Assoc.find? id s.overrides with
    | some set =>
      have hset : s.override id = set := by rw [override, hfind, Option.getD_some]
      have hput : Assoc.put id ((s.override id).merge style) s.overrides = s.overrides := by
        rw [h, hset, Assoc.put_of_find? hfind]
      exact .same (congrArg (SavedState.mk s.code) hput) rfl
    | none =>
      -- only an empty style adds nothing to none
      have hempty : s.override id = .empty := by rw [override, hfind, Option.getD_none]
      obtain rfl : style = .empty := by rwa [hempty, Style.empty_merge] at h
      exact .silent (.blank hfind same) rfl rfl

theorem keeps_perform (h : op.settles s store = false) :
    Keeps s op (op.perform s store).2.session := by
  cases htextual : op.isTextual with
  | true =>
    have hfollows := follows_perform s store htextual
    cases htarget : op.target? s with
    | none =>
      rw [htarget] at hfollows
      have hsession := Outcome.Idle.session hfollows
      exact .same (by rw [hsession]) (by rw [hsession])
    | some t =>
      rw [htarget] at hfollows
      exact .marked (Outcome.Installs.dirty hfollows)
  | false =>
    cases op with
    | restyleNode id style => exact keeps_restyleNode id style
    | select | setRenderResult => exact .same rfl rfl
    | reset => cases h
    | load path =>
      rcases s.load_cases store path with ⟨state, hload⟩ | ⟨e, hload⟩
      · rw [settles, hload] at h
        cases h
      · simp only [perform, hload]
        exact .same rfl rfl
    | save given =>
      rcases s.save_cases store given with ⟨path, hsave⟩ | ⟨e, hsave⟩
      · rw [settles, hsave] at h
        cases h
      · simp only [perform, hsave]
        exact .same rfl rfl
    | _ => cases htextual

theorem perform_of_setsSilently (store : Store) (h : op.SetsSilently s) :
    (op.perform s store).2.session.dirty = s.dirty ∧
      (op.perform s store).2.session.saved ≠ s.saved := by
  cases h with
  | @unread id style long h other =>
    simp only [perform, restyleNode_of_unread h]
    exact ⟨rfl, fun same => other (congrArg SavedState.styles same)⟩
  | @unwritten id style present h long other =>
    simp only [perform, restyleNode_of_unwritten h long]
    exact ⟨rfl, fun same => other (congrArg SavedState.styles same)⟩
  | @blank id new same =>
    have hempty : s.override id = .empty := by rw [override, new, Option.getD_none]
    simp only [perform, restyleNode_of_same same, if_pos (Style.merge_empty (s.override id))]
    exact ⟨rfl, fun hsaved => Assoc.put_ne_of_find? new (congrArg SavedState.styles hsaved)⟩

/-- A session without a mark has the text of a document, and all that would be saved of it if
`clean`. -/
def Agrees (s : Session) (document : SavedState) (clean : Prop) : Prop :=
  s.dirty = false → s.code = document.code ∧ (clean → s.saved = document)

theorem agrees_perform {document : SavedState} {clean : Prop} (h : Agrees s document clean)
    (store : Store) (op : Operation) :
    Agrees (op.perform s store).2.session
      (if op.settles s store then (op.perform s store).2.session.saved else document)
      (op.settles s store = true ∨ clean ∧ ¬ op.SetsSilently s) := by
  intro unmarked
  cases hsettles : op.settles s store with
  | true => exact ⟨rfl, fun _ => rfl⟩
  | false =>
    rw [if_neg Bool.false_ne_true]
    cases keeps_perform hsettles with
    | marked hdirty =>
      rw [unmarked] at hdirty
      cases hdirty
    | same hsaved hdirty =>
      obtain ⟨hcode, hdocument⟩ := h (hdirty.symm.trans unmarked)
      refine ⟨(congrArg SavedState.code hsaved).trans hcode, fun hclean =>
        hsaved.trans (hdocument ?_)⟩
      exact (hclean.resolve_left Bool.false_ne_true).1
    | silent hsilent hcode hdirty =>
      refine ⟨hcode.trans (h (hdirty.symm.trans unmarked)).1, fun hclean => ?_⟩
      exact absurd hsilent (hclean.resolve_left Bool.false_ne_true).2

theorem agrees_run (ops : List Operation) :
    ∀ {s : Session} {store : Store} {document : SavedState} {clean : Prop},
    Agrees s document clean →
      Agrees (run s store ops).1 (lastSaved s store document ops)
        (NothingSilent s store clean ops) := by
  induction ops with
  | nil => intro s store document clean h; exact h
  | cons op rest ih => intro s store document clean h; exact ih (agrees_perform h store op)

/-- In every state that operations lead to, a session without a mark has the text that was last new,
loaded or saved, and the styles as well unless one has been set silently since. Of the operations
that make no document the saved one, those that set a style silently are the only ones that change
what would be saved and leave no mark. -/
theorem saved_eq_lastSaved (s₀ : Session) (store : Store) (ops : List Operation) :
    ((run s₀ store ops).1.dirty = false →
      (run s₀ store ops).1.code = (lastSaved s₀ store s₀.saved ops).code ∧
      (NothingSilent s₀ store True ops →
        (run s₀ store ops).1.saved = lastSaved s₀ store s₀.saved ops)) ∧
    ∀ (op : Operation) (files : Store), op.settles (run s₀ store ops).1 files = false →
      ((op.perform (run s₀ store ops).1 files).2.session.dirty = false ∧
        (op.perform (run s₀ store ops).1 files).2.session.saved ≠ (run s₀ store ops).1.saved ↔
      (run s₀ store ops).1.dirty = false ∧ op.SetsSilently (run s₀ store ops).1) := by
  refine ⟨agrees_run ops fun _ => ⟨rfl, fun _ => rfl⟩, fun op files hsettles => ?_⟩
  generalize (run s₀ store ops).1 = s at hsettles
  constructor
  · rintro ⟨unmarked, other⟩
    cases keeps_perform hsettles with
    | marked hdirty =>
      rw [unmarked] at hdirty
      cases hdirty
    | same hsaved => exact absurd hsaved other
    | silent hsilent _ hdirty => exact ⟨hdirty.symm.trans unmarked, hsilent⟩
  · rintro ⟨unmarked, hsilent⟩
    obtain ⟨hdirty, other⟩ := perform_of_setsSilently files hsilent
    exact ⟨hdirty.trans unmarked, other⟩

/-- Setting nothing of a node without a style goes unmarked and reports no change, yet the node has
a style from now on. -/
theorem saved_ne_lastSaved_of_empty_style :
    start? 100 "A[a]".toList = .ok (start 100 "A[a]".toList) ∧
    (perform (start 100 "A[a]".toList) .empty (.restyleNode ['A'] .empty)).2.result.toOption =
      some (.changed false) ∧
    (run (start 100 "A[a]".toList) .empty [.restyleNode ['A'] .empty]).1.dirty = false ∧
    (run (start 100 "A[a]".toList) .empty [.restyleNode ['A'] .empty]).1.saved ≠
      lastSaved (start 100 "A[a]".toList) .empty (start 100 "A[a]".toList).saved
        [.restyleNode ['A'] .empty] :=
  ⟨rfl, by decide, by decide, by decide⟩

end Chartwright.Operation
