import Chartwright.Proofs.Buffer.LongInteger
import Chartwright.Proofs.Session.Edit
import Chartwright.Proofs.Session.Zipper
/-!
The text of a session and its history.

The text is kept twice, by the session and by its history. Both are the same in every state that
operations lead to as long as every change is recorded (`inStep_run`), and an edit that changes the
text is one undo step: the text before it goes in front of the past, so undoing it and redoing it
lead back and forth between the two texts (`code_eq_current_and_undo_step`).

Undoing puts the text in place in any case. It fails to give the text back when a node is selected
and an integer in a style of that text has too many digits, for then the node cannot be looked for
(`undo_error_of_long_integer`).
-/
namespace Chartwright

/-- A step through the history puts a text in place. It gives the text back, unless what was
selected before is lost in it: then it fails. -/
structure Outcome.Restores (o : Outcome (Option Text)) (selection : Selection) (t : Text) :
    Prop where
  code : o.session.code = t
  result : ¬ selection.LostIn t → o.result = .ok (some t)
  failure : selection.LostIn t → ∃ long, o.result = .error (.tooLong long)

namespace History

variable {h : History} {t : Text}

theorem sound_of_undo? (hs : h.Sound) {earlier : History} (hu : h.undo? = some (t, earlier)) :
    earlier.Sound ∧ earlier.limit = h.limit := by
  have hsound := sound_perform hs .undo
  have hlimit := limit_perform h .undo
  simp only [perform, hu, Option.map_some, Option.getD_some] at hsound hlimit
  exact ⟨hsound, hlimit⟩

theorem sound_of_redo? (hs : h.Sound) {later : History} (hr : h.redo? = some (t, later)) :
    later.Sound ∧ later.limit = h.limit := by
  have hsound := sound_perform hs .redo
  have hlimit := limit_perform h .redo
  simp only [perform, hr, Option.map_some, Option.getD_some] at hsound hlimit
  exact ⟨hsound, hlimit⟩

end History

namespace Session

variable {s t : Session} {limit : Nat}

/-- The text of a session is the current one of its history, which is sound. -/
structure InStep (limit : Nat) (s : Session) : Prop where
  code : s.code = s.history.current
  sound : s.history.Sound
  limit : s.history.limit = limit

theorem InStep.of_eq (h : s.InStep limit) (hcode : t.code = s.code)
    (hhistory : t.history = s.history) : t.InStep limit :=
  ⟨by rw [hcode, hhistory, h.code], hhistory ▸ h.sound, hhistory ▸ h.limit⟩

theorem InStep.room (h : s.InStep limit) : 0 < s.history.limit := by
  have := h.sound.inside
  have := h.sound.bounded
  omega

theorem inStep_adopt {α : Type} {h : History} {code : Text} (hcurrent : code = h.current)
    (hs : h.Sound) (hl : h.limit = limit) (s : Session) (a : α) :
    (({ s with history := h } : Session).adopt code a).session.InStep limit := by
  refine ⟨?_, ?_, ?_⟩
  · rw [code_adopt, history_adopt, hcurrent]
  · rw [history_adopt]
    exact hs
  · rw [history_adopt]
    exact hl

theorem inStep_reset (h : s.InStep limit) (code : Text) : (s.history.reset code).Sound ∧
    (s.history.reset code).current = code ∧ (s.history.reset code).limit = limit :=
  ⟨History.sound_start h.room code, rfl, h.limit⟩

theorem inStep_of_edited (h : s.InStep limit) (he : s.Edited t) : t.InStep limit := by
  cases he with
  | settled hsettled => exact h.of_eq hsettled.code hsettled.history
  | recorded other history =>
    refine ⟨?_, ?_, ?_⟩
    · rw [history, History.current_record _ _ h.room]
    · rw [history]
      exact History.sound_record h.sound _
    · rw [history]
      exact (History.limit_perform s.history (.record t.code)).trans h.limit

theorem inStep_undo (h : s.InStep limit) : s.undo.session.InStep limit := by
  unfold undo
  split
  · exact h
  · next code earlier hu =>
    obtain ⟨hsound, hlimit⟩ := History.sound_of_undo? h.sound hu
    exact inStep_adopt (h.sound.of_undo? hu).1 hsound (hlimit.trans h.limit) s _

theorem inStep_redo (h : s.InStep limit) : s.redo.session.InStep limit := by
  unfold redo
  split
  · exact h
  · next code later hr =>
    obtain ⟨hsound, hlimit⟩ := History.sound_of_redo? h.sound hr
    exact inStep_adopt (h.sound.of_redo? hr).1 hsound (hlimit.trans h.limit) s _

theorem inStep_load (h : s.InStep limit) (store : Store) (path : Path) :
    (s.load store path).session.InStep limit := by
  rcases s.load_cases store path with ⟨state, hload⟩ | ⟨e, hload⟩
  · obtain ⟨hsound, hcurrent, hlimit⟩ := inStep_reset h state.code
    rw [hload]
    exact ⟨hcurrent.symm, hsound, hlimit⟩
  · rw [hload]
    exact h

theorem inStep_save (h : s.InStep limit) (store : Store) (given : Option Path) :
    (s.save store given).2.session.InStep limit := by
  rcases s.save_cases store given with ⟨path, hsave⟩ | ⟨e, hsave⟩
  · rw [hsave]
    exact h.of_eq rfl rfl
  · rw [hsave]
    exact h

end Session

namespace Operation

open Session

variable {s : Session} {limit : Nat}

theorem inStep_perform (h : s.InStep limit) (store : Store) {op : Operation}
    (hop : op.isUnrecorded = false) : (op.perform s store).2.session.InStep limit := by
  cases hedit : op.isEdit with
  | true => exact inStep_of_edited h (edited_perform s store hedit)
  | false =>
    cases op with
    | setCode code record =>
      -- either it is recorded and an edit, or it is not and excluded
      simp_all [isEdit, isUnrecorded]
    | undo => exact inStep_undo h
    | redo => exact inStep_redo h
    | select | setRenderResult => exact h.of_eq rfl rfl
    | reset code =>
      obtain ⟨hsound, hcurrent, hlimit⟩ := inStep_reset h code
      exact ⟨hcurrent.symm, hsound, hlimit⟩
    | load path => exact inStep_load h store path
    | save path => exact inStep_save h store path
    | _ => cases hedit

/-- Whatever is performed, failed operations included, the two copies of the text stay the same. -/
theorem inStep_run (ops : List Operation) : ∀ {s : Session} {store : Store}, s.InStep limit →
    (∀ op ∈ ops, op.isUnrecorded = false) → (run s store ops).1.InStep limit := by
  induction ops with
  | nil => intro s store h _; exact h
  | cons op rest ih =>
    intro s store h hops
    have hnext := inStep_perform h store (hops op List.mem_cons_self)
    exact ih hnext fun op hop => hops op (List.mem_cons_of_mem _ hop)

end Operation

namespace Session

variable {s t : Session} {limit : Nat}

theorem inStep_start? {limit : Int} {initial : Text} (h : start? limit initial = .ok s) :
    s.InStep limit.toNat := by
  unfold start? History.start? at h
  split at h
  · simp [Except.map] at h
  · next room =>
    simp only [Except.map, Except.ok.injEq] at h
    subst h
    exact ⟨rfl, History.sound_start (by omega) initial, rfl⟩

/-! ## Back and forth -/

theorem restores_adopt (s : Session) (code : Text) :
    (s.adopt code (some code)).Restores s.selection code := by
  refine ⟨s.code_adopt code _, ?_, ?_⟩
  · intro found
    unfold adopt
    split
    · rfl
    · next long hlong =>
      refine absurd (Selection.lostIn_iff.2 ⟨long, ?_⟩) found
      exact Selection.existsIn_of_revalidate_error hlong
  · intro lost
    obtain ⟨long, hlong⟩ := Selection.lostIn_iff.1 lost
    refine ⟨long, ?_⟩
    simp [adopt, Selection.revalidate, hlong, Except.map, fail]

theorem undo_of_shows {t present : Text} {past future : List Text}
    (hz : s.history.Shows ⟨t :: past, present, future⟩) :
    ∃ h : History, h.Shows ⟨past, t, present :: future⟩ ∧
      s.undo = ({ s with history := h } : Session).adopt t (some t) := by
  obtain ⟨hreply, hnext⟩ := History.shows_undo hz
  cases hu : s.history.undo? with
  | none => simp [hu, Zipper.undo?] at hreply
  | some found =>
    obtain ⟨code, earlier⟩ := found
    simp only [hu, Zipper.undo?, Option.map_some, Option.some.injEq,
      Option.getD_some] at hreply hnext
    subst hreply
    exact ⟨earlier, hnext, by simp [undo, hu]⟩

theorem redo_of_shows {t present : Text} {past future : List Text}
    (hz : s.history.Shows ⟨past, present, t :: future⟩) :
    ∃ h : History, h.Shows ⟨present :: past, t, future⟩ ∧
      s.redo = ({ s with history := h } : Session).adopt t (some t) := by
  obtain ⟨hreply, hnext⟩ := History.shows_redo hz
  cases hr : s.history.redo? with
  | none => simp [hr, Zipper.redo?] at hreply
  | some found =>
    obtain ⟨code, later⟩ := found
    simp only [hr, Zipper.redo?, Option.map_some, Option.some.injEq,
      Option.getD_some] at hreply hnext
    subst hreply
    exact ⟨later, hnext, by simp [redo, hr]⟩

/-- Between two sessions lies one undo step: the earlier text has come in front of the past, as far
as the limit lets the past grow, there is no future, and undoing and then redoing put the two texts
in place. -/
structure UndoStep (limit : Nat) (s t : Session) : Prop where
  past : t.history.past = (s.code :: s.history.past).take (limit - 1)
  future : t.history.future = []
  undo : t.undo.Restores t.selection s.code
  redo : t.undo.session.redo.Restores t.undo.session.selection t.code

theorem undoStep_of_edited (h : s.InStep limit) (room : 2 ≤ limit) (he : s.Edited t)
    (other : t.code ≠ s.code) : UndoStep limit s t := by
  cases he with
  | settled hsettled => exact absurd hsettled.code other
  | recorded other history =>
    have hz := h.sound.shows
    have hroom : s.history.past.length + 1 ≤ s.history.limit := by
      have hlen : s.history.snapshots.length =
          s.history.past.length + 1 + s.history.future.length := hz.length_eq
      have := h.sound.bounded
      omega
    have hshows := (History.shows_record hz hroom t.code).2
    rw [← history] at hshows
    simp only [Zipper.record, ← h.code, if_neg other, h.limit] at hshows
    -- with room for two the text before the edit is not evicted
    obtain ⟨n, rfl⟩ : ∃ n, limit = n + 2 := ⟨limit - 2, by omega⟩
    have htake : (s.code :: s.history.past).take (n + 2 - 1) = s.code :: s.history.past.take n :=
      rfl
    rw [htake] at hshows
    obtain ⟨earlier, hback, hundo⟩ := undo_of_shows hshows
    have hsession : t.undo.session.history = earlier := by rw [hundo, history_adopt]
    rw [← hsession] at hback
    obtain ⟨later, -, hredo⟩ := redo_of_shows hback
    refine ⟨hshows.past_eq, hshows.future_eq, ?_, ?_⟩
    · rw [hundo]
      exact restores_adopt _ _
    · rw [hredo]
      exact restores_adopt _ _

theorem undo_setCode_of_foundIn {code : Text} (h : s.InStep limit) (room : 2 ≤ limit)
    (other : code ≠ s.code) (found : s.selection.FoundIn code) :
    (s.setCode code true).session.code = code ∧
      (s.setCode code true).session.undo.Restores s.selection s.code := by
  have hcode : (s.setCode code true).session.code = code := by
    rw [setCode, if_neg other, code_adopt]
  have hselection : (s.setCode code true).session.selection = s.selection := by
    rw [setCode, if_neg other]
    exact selection_adopt_of_foundIn found
  have hstep := undoStep_of_edited h room (s.edited_setCode code) (by rwa [hcode])
  exact ⟨hcode, hselection ▸ hstep.undo⟩

end Session

namespace Operation

open Session

/-- As long as every change of the text is recorded, the text of a session is the current one of its
history. With room for two snapshots, every edit that changes the text is one undo step. -/
theorem code_eq_current_and_undo_step {limit : Int} {initial : Text} {s₀ : Session}
    (hstart : start? limit initial = .ok s₀) (store : Store) {ops : List Operation}
    (hops : ∀ op ∈ ops, op.isUnrecorded = false) :
    (run s₀ store ops).1.code = (run s₀ store ops).1.history.current ∧
    (2 ≤ limit → ∀ (op : Operation) (files : Store), op.isEdit = true →
      (op.perform (run s₀ store ops).1 files).2.session.code ≠ (run s₀ store ops).1.code →
      UndoStep limit.toNat (run s₀ store ops).1
        (op.perform (run s₀ store ops).1 files).2.session) := by
  have h : (run s₀ store ops).1.InStep limit.toNat := inStep_run ops (inStep_start? hstart) hops
  refine ⟨h.code, fun room op files hedit other => ?_⟩
  exact undoStep_of_edited h (by omega) (edited_perform _ files hedit) other

theorem undo_step_of_relabelling :
    start? 2 "A[a]".toList = .ok (start 2 "A[a]".toList) ∧
    UndoStep 2 (run (start 2 "A[a]".toList) .empty [.select (.node ['A'])]).1
      (perform (run (start 2 "A[a]".toList) .empty [.select (.node ['A'])]).1 .empty
        (.relabelNode ['A'] ['b'])).2.session :=
  have hstart : start? 2 "A[a]".toList = .ok (start 2 "A[a]".toList) := rfl
  have hops : ∀ op ∈ [Operation.select (.node ['A'])], op.isUnrecorded = false := by decide
  ⟨hstart, (code_eq_current_and_undo_step hstart .empty hops).2 (by decide)
    (.relabelNode ['A'] ['b']) .empty rfl (by decide)⟩

/-- The step is there, and undoing puts the earlier text in place. But the text is not given back:
the node that is selected cannot be looked for in it. -/
theorem undo_error_of_long_integer :
    ∃ s : Session, start? 100 (StyleLine.radiusLine ['A'] 4301) = .ok s ∧
      (run s .empty [.select (.node ['A']), .setCode "A[a]".toList true]).1.code = "A[a]".toList ∧
      (run s .empty [.select (.node ['A']), .setCode "A[a]".toList true]).1.undo.session.code =
        s.code ∧
      ∃ long, (run s .empty [.select (.node ['A']), .setCode "A[a]".toList true]).1.undo.result =
        .error (.tooLong long) := by
  have hids : (Buffer.ofText (StyleLine.radiusLine ['A'] 4301)).ids = .error (.reading 4301) :=
    Buffer.ids_of_long_radius (by decide) (by decide)
  have other : "A[a]".toList ≠ StyleLine.radiusLine ['A'] 4301 := by
    intro h
    have hhead := congrArg List.head? h
    rw [StyleLine.head?_radiusLine] at hhead
    cases hhead
  -- from here on it only counts that the text is another one and that its identifiers cannot be
  -- listed
  generalize StyleLine.radiusLine ['A'] 4301 = before at hids other
  have hstart : (start 100 before).InStep 100 := ⟨rfl, History.sound_start (by decide) before, rfl⟩
  have hselected : ((start 100 before).select (.node ['A'])).session.InStep 100 :=
    hstart.of_eq rfl rfl
  have found : (Selection.of (.node ['A'])).FoundIn "A[a]".toList :=
    Selection.foundIn_iff.2 (by decide)
  obtain ⟨hcode, hundo⟩ := undo_setCode_of_foundIn hselected (by decide) other found
  exact ⟨start 100 before, rfl, hcode, hundo.code, hundo.failure ⟨rfl, _, hids⟩⟩

end Operation
end Chartwright
