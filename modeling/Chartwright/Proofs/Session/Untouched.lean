import Chartwright.Proofs.Session.Installing
import Chartwright.Proofs.Session.Presence
/-!
What an operation leaves behind that fails, or that reports no change.

It leaves the session untouched, whatever the operation and the session, unless it was about to put
a text in place in which what is selected cannot be looked for (`untouched_iff_not_lostIn`). That
text stays in place, with its history and marked as changed, while the operation fails
(`touched_of_long_integer`).
-/
namespace Chartwright

namespace Outcome

variable {α : Type} {s : Session} {t : Text} {o : Outcome α}

/-- All that a user sees of a session is as it was, and no listener has been called. Styles set
beside the text may differ. -/
structure Untouched (s : Session) (o : Outcome α) : Prop where
  code : o.session.code = s.code
  history : o.session.history = s.history
  selection : o.session.selection = s.selection
  dirty : o.session.dirty = s.dirty
  renderError : o.session.renderError = s.renderError
  path : o.session.path = s.path
  notices : o.notices = []

/-- An operation has failed with a text in place. -/
structure Stranded (s : Session) (t : Text) (o : Outcome α) : Prop where
  code : o.session.code = t
  dirty : o.session.dirty = true
  selection : o.session.selection = s.selection
  result : ∃ long, o.result = .error (.tooLong long)
  notices : o.notices = []

/-- An operation fails, or its result says that nothing happened. -/
def Fruitless (o : Outcome Answer) : Prop := ∀ a, o.result = .ok a → a.isFruitful = false

theorem untouched_of_eq (h : o.session = s) (hn : o.notices = []) : o.Untouched s := by
  constructor <;> simp [h, hn]

theorem Idle.untouched {fruitful : α → Bool} (h : o.Idle s fruitful) : o.Untouched s :=
  untouched_of_eq h.session h.notices

theorem Installs.stranded {fruitful : α → Bool} (h : o.Installs s t fruitful)
    (lost : s.selection.LostIn t) : o.Stranded s t :=
  ⟨h.code, h.dirty, h.selection lost, h.failure lost, h.notices lost⟩

theorem Installs.lostIn_of_fruitless {o : Outcome Answer} (h : o.Installs s t Answer.isFruitful)
    (hf : o.Fruitless) : s.selection.LostIn t := by
  refine Classical.byContradiction fun found => ?_
  obtain ⟨a, ha, hfruitful⟩ := h.result found
  rw [hf a ha] at hfruitful
  cases hfruitful

theorem Fruitless.of_map {f : α → Answer} (h : (o.map f).Fruitless) {a : α}
    (ha : o.result = .ok a) : (f a).isFruitful = false :=
  h (f a) (by rw [map, ha]; rfl)

end Outcome

namespace Session

open Outcome

variable {s : Session} {t : Text}

/-- Stepping back is never without a trace: the history has moved. -/
theorem history_undo_ne (h : s.history.undo?.map (·.1) = some t) :
    s.undo.session.history ≠ s.history := by
  obtain ⟨⟨code, earlier⟩, hu, -⟩ := Option.map_eq_some_iff.1 h
  simp only [undo, hu, history_adopt]
  unfold History.undo? at hu
  split at hu
  · next back =>
    cases hu
    intro same
    have hcursor := congrArg History.cursor same
    simp only [History.canUndo, decide_eq_true_eq] at back hcursor
    omega
  · cases hu

theorem history_redo_ne (h : s.history.redo?.map (·.1) = some t) :
    s.redo.session.history ≠ s.history := by
  obtain ⟨⟨code, later⟩, hr, -⟩ := Option.map_eq_some_iff.1 h
  simp only [redo, hr, history_adopt]
  unfold History.redo? at hr
  split at hr
  · cases hr
    intro same
    have hcursor := congrArg History.cursor same
    simp only at hcursor
    omega
  · cases hr

end Session

theorem Command.ne_of_target? {t other : Text} {c : Command} (h : c.target? t = some other) :
    other ≠ t := by
  unfold target? at h
  split at h
  · split at h
    · cases h
    · next hne =>
      cases h
      exact hne
  · cases h

namespace Operation

open Session Outcome

variable {s : Session} {t : Text} {op : Operation}

/-- A text that is put in place is another one, but for what the history gives. -/
theorem ne_of_target? (h : op.target? s = some t) (hundo : op ≠ .undo) (hredo : op ≠ .redo) :
    t ≠ s.code := by
  have hcommand (h : (op.command? s).bind (Command.target? s.code) = some t) : t ≠ s.code := by
    obtain ⟨c, -, hc⟩ := Option.bind_eq_some_iff.1 h
    exact Command.ne_of_target? hc
  cases op with
  | undo => exact absurd rfl hundo
  | redo => exact absurd rfl hredo
  | setCode code record =>
    simp only [target?] at h
    split at h
    · cases h
    · next other =>
      cases h
      exact other
  | _ => exact hcommand h

/-- What an operation does that puts a text in place: it has it in place, whatever becomes of the
operation. -/
theorem installs_perform (store : Store) (h : op.target? s = some t) :
    (op.perform s store).2.Installs s t Answer.isFruitful := by
  cases htextual : op.isTextual with
  | true =>
    have hfollows := follows_perform s store htextual
    rw [h] at hfollows
    exact hfollows
  | false =>
    cases op with
    | restyleNode id style =>
      have hrestyled := restyled_restyleNode s id style
      rw [show (Command.restyle id style).target? s.code = some t from h] at hrestyled
      cases hrestyled with
      | placed hplaced => exact hplaced.map fun _ ha => ha
    | select | setRenderResult | reset | load | save => cases h
    | _ => cases htextual

/-- What an operation does without a text to put in place, if it has nothing to show for it. -/
theorem untouched_perform (store : Store) (h : op.target? s = none)
    (hf : (op.perform s store).2.Fruitless) : (op.perform s store).2.Untouched s := by
  cases htextual : op.isTextual with
  | true =>
    have hfollows := follows_perform s store htextual
    rw [h] at hfollows
    exact Idle.untouched hfollows
  | false =>
    cases op with
    | restyleNode id style =>
      have hrestyled := restyled_restyleNode s id style
      rw [show (Command.restyle id style).target? s.code = none from h] at hrestyled
      change ((s.restyleNode id style).map Answer.changed).Untouched s
      change ((s.restyleNode id style).map Answer.changed).Fruitless at hf
      generalize s.restyleNode id style = o at hrestyled hf
      cases hrestyled with
      | unread | unwritten | known => exact ⟨rfl, rfl, rfl, rfl, rfl, rfl, rfl⟩
      | counted => exact absurd (hf.of_map rfl) (by decide)
    | select selection => exact absurd (hf _ rfl) (by decide)
    | setRenderResult error => exact absurd (hf _ rfl) (by decide)
    | reset code => exact absurd (hf _ rfl) (by decide)
    | load path =>
      rcases s.load_cases store path with ⟨state, hload⟩ | ⟨e, hload⟩
      · have hnone := hf (.text (some state.code)) (by rw [perform, hload]; rfl)
        cases hnone
      · simp only [perform, hload]
        exact untouched_of_eq rfl rfl
    | save given =>
      rcases s.save_cases store given with ⟨path, hsave⟩ | ⟨e, hsave⟩
      · have hnone := hf (.saved path) (by rw [perform, hsave]; rfl)
        cases hnone
      · simp only [perform, hsave]
        exact untouched_of_eq rfl rfl
    | _ => cases htextual

/-- An operation that fails, or reports no change, leaves the session untouched if and only if it
was not about to put a text in place in which what is selected is lost. Such a text is in place
afterwards, and the operation has failed. -/
theorem untouched_iff_not_lostIn (s : Session) (store : Store) (op : Operation)
    (h : (op.perform s store).2.Fruitless) :
    ((op.perform s store).2.Untouched s ↔ ¬ ∃ t, op.target? s = some t ∧ s.selection.LostIn t) ∧
    ∀ t, op.target? s = some t → s.selection.LostIn t → (op.perform s store).2.Stranded s t := by
  refine ⟨⟨fun untouched => ?_, fun spared => ?_⟩, fun t ht lost =>
    (installs_perform store ht).stranded lost⟩
  · rintro ⟨t, ht, lost⟩
    by_cases hundo : op = .undo
    · subst hundo
      exact history_undo_ne ht untouched.history
    · by_cases hredo : op = .redo
      · subst hredo
        exact history_redo_ne ht untouched.history
      · exact ne_of_target? ht hundo hredo
          ((installs_perform store ht).code.symm.trans untouched.code)
  · cases ht : op.target? s with
    | none => exact untouched_perform store ht h
    | some t => exact absurd ⟨t, ht, (installs_perform store ht).lostIn_of_fruitless h⟩ spared

/-- A shape that does not exist leaves the session with a node selected as it was. -/
theorem untouched_of_unknown_shape :
    ∃ s : Session, s = (run (start 100 "A[a]".toList) .empty [.select (.node ['A'])]).1 ∧
      (perform s .empty (.reshapeNode ['A'] "blob".toList)).2.Fruitless ∧
      (perform s .empty (.reshapeNode ['A'] "blob".toList)).2.Untouched s := by
  refine ⟨_, rfl, ?_⟩
  have h : (perform ((start 100 "A[a]".toList).select (.node ['A'])).session .empty
      (.reshapeNode ['A'] "blob".toList)).2.Fruitless := fun a ha => nomatch ha
  refine ⟨h, (untouched_iff_not_lostIn _ _ _ h).1.2 ?_⟩
  rintro ⟨t, ht, -⟩
  cases ht

/-- A text whose identifiers cannot be listed is refused while a node is selected, and in place all
the same. -/
theorem touched_of_long_integer :
    start? 100 "A[a]".toList = .ok (start 100 "A[a]".toList) ∧
    ∃ s, s = (run (start 100 "A[a]".toList) .empty [.select (.node ['A'])]).1 ∧
      ∃ t, t = StyleLine.radiusLine ['B'] 4301 ∧
        (∃ long, (perform s .empty (.setCode t true)).2.result = .error (.tooLong long)) ∧
        (perform s .empty (.setCode t true)).2.session.code = t ∧ t ≠ s.code ∧
        ¬ (perform s .empty (.setCode t true)).2.Untouched s := by
  refine ⟨rfl, _, rfl, _, rfl, ?_⟩
  have other : StyleLine.radiusLine ['B'] 4301 ≠ "A[a]".toList := by
    intro same
    have hhead := congrArg List.head? same
    rw [StyleLine.head?_radiusLine] at hhead
    cases hhead
  have lost : (Selection.of (.node ['A'])).LostIn (StyleLine.radiusLine ['B'] 4301) :=
    ⟨rfl, _, Buffer.ids_of_long_radius (by decide) (by decide)⟩
  -- from here on it only counts that the text is another one and that its identifiers cannot be
  -- listed
  generalize StyleLine.radiusLine ['B'] 4301 = t at other lost
  have ht : (setCode t true).target? ((start 100 "A[a]".toList).select (.node ['A'])).session =
      some t := if_neg other
  have hplaced := installs_perform .empty ht
  exact ⟨hplaced.failure lost, hplaced.code, other, fun untouched =>
    other (hplaced.code.symm.trans untouched.code)⟩

end Operation
end Chartwright
