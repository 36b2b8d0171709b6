import Chartwright.Proofs.Buffer.LongInteger
import Chartwright.Proofs.Session.Edit
/-!
What is selected is there.

As long as only what the text has is selected, the text has what is selected in every state that
operations lead to, whichever way the text changes (`foundIn_iff_not_lostIn`). The one exception is
a node that is selected when a text is put in place whose identifiers cannot be listed. Such a text
is adopted, and the selection stays as it was (`dangling_of_long_integer`).
-/
namespace Chartwright

namespace Session

variable {s t : Session}

/-- What is selected is one entity at most, and the text has it as far as can be told. -/
structure Tracked (s : Session) : Prop where
  coherent : s.selection.Coherent
  found : s.selection.FoundIn s.code ∨ s.selection.LostIn s.code

theorem Tracked.of_eq (h : s.Tracked) (hcode : t.code = s.code)
    (hselection : t.selection = s.selection) : t.Tracked :=
  ⟨hselection ▸ h.coherent, by rw [hcode, hselection]; exact h.found⟩

theorem tracked_of_target {target : Target} (hselection : s.selection = .of target)
    (hfound : (Selection.of target).FoundIn s.code) : s.Tracked :=
  ⟨hselection ▸ Selection.coherent_of target, .inl (hselection ▸ hfound)⟩

theorem tracked_of_none (h : s.selection = .of .none) : s.Tracked :=
  tracked_of_target h (Selection.foundIn_none _)

theorem tracked_adopt {α : Type} (h : s.selection.Coherent) (code : Text) (a : α) :
    (s.adopt code a).session.Tracked := by
  refine ⟨coherent_adopt h code a, ?_⟩
  rw [code_adopt]
  exact s.selection_adopt code a

theorem tracked_of_edited (h : s.Tracked) (he : s.Edited t) : t.Tracked := by
  cases he with
  | settled hsettled =>
    rcases hsettled.selection with same | ⟨coherent, found⟩
    · exact h.of_eq hsettled.code same
    · exact ⟨coherent, .inl found⟩
  | recorded other history selection coherent => exact ⟨coherent h.coherent, selection⟩

theorem tracked_setCode (h : s.Tracked) (code : Text) (record : Bool) :
    (s.setCode code record).session.Tracked := by
  unfold setCode
  split
  · exact h
  · refine tracked_adopt ?_ code true
    split <;> exact h.coherent

theorem tracked_undo (h : s.Tracked) : s.undo.session.Tracked := by
  unfold undo
  split
  · exact h
  · refine tracked_adopt ?_ _ _
    exact h.coherent

theorem tracked_redo (h : s.Tracked) : s.redo.session.Tracked := by
  unfold redo
  split
  · exact h
  · refine tracked_adopt ?_ _ _
    exact h.coherent

theorem tracked_load (h : s.Tracked) (store : Store) (path : Path) :
    (s.load store path).session.Tracked := by
  rcases s.load_cases store path with ⟨state, hload⟩ | ⟨e, hload⟩
  · rw [hload]
    exact tracked_of_none rfl
  · rw [hload]
    exact h

theorem tracked_save (h : s.Tracked) (store : Store) (given : Option Path) :
    (s.save store given).2.session.Tracked := by
  rcases s.save_cases store given with ⟨path, hsave⟩ | ⟨e, hsave⟩
  · rw [hsave]
    exact h.of_eq rfl rfl
  · rw [hsave]
    exact h

theorem setCode_of_lostIn {code : Text} (other : code ≠ s.code) (lost : s.selection.LostIn code) :
    (s.setCode code true).session.code = code ∧
      (s.setCode code true).session.selection = s.selection := by
  rw [setCode, if_neg other]
  exact ⟨code_adopt _ code true, selection_adopt_of_lostIn lost⟩

end Session

namespace Operation

open Session

variable {s : Session}

/-- If the operation selects something, then something that a text has. -/
def SelectsFrom (t : Text) (op : Operation) : Prop :=
  ∀ target, op = .select target → (Selection.of target).FoundIn t

/-- Each operation of a run selects only what the text has at that moment. -/
def SelectFound (s : Session) (store : Store) : List Operation → Prop
  | [] => True
  | op :: rest =>
    op.SelectsFrom s.code ∧ SelectFound (op.perform s store).2.session (op.perform s store).1 rest

theorem tracked_perform (h : s.Tracked) (store : Store) {op : Operation}
    (hop : op.SelectsFrom s.code) : (op.perform s store).2.session.Tracked := by
  cases hedit : op.isEdit with
  | true => exact tracked_of_edited h (edited_perform s store hedit)
  | false =>
    -- what is no edit looks the selection up again, clears it, or leaves text and selection alone
    cases op with
    | setCode code record => exact tracked_setCode h code record
    | undo => exact tracked_undo h
    | redo => exact tracked_redo h
    | select target => exact tracked_of_target (s.selection.choose_eq target) (hop target rfl)
    | setRenderResult error => exact h.of_eq rfl rfl
    | reset code => exact tracked_of_none rfl
    | load path => exact tracked_load h store path
    | save path => exact tracked_save h store path
    | _ => cases hedit

theorem tracked_run (ops : List Operation) :
    ∀ {s : Session} {store : Store}, s.Tracked → SelectFound s store ops →
      (run s store ops).1.Tracked := by
  induction ops with
  | nil => intro s store h _; exact h
  | cons op rest ih =>
    intro s store h hops
    exact ih (tracked_perform h store hops.1) hops.2

/-- What is selected is one entity at most, the one that the kind of the selection names. The text
has it unless it is a node and the identifiers of the text cannot be listed. -/
theorem foundIn_iff_not_lostIn {limit : Int} {initial : Text} {s₀ : Session}
    (hstart : start? limit initial = .ok s₀) {store : Store} {ops : List Operation}
    (hops : SelectFound s₀ store ops) :
    (run s₀ store ops).1.selection.Coherent ∧
    ((run s₀ store ops).1.selection.FoundIn (run s₀ store ops).1.code ↔
      ¬ (run s₀ store ops).1.selection.LostIn (run s₀ store ops).1.code) := by
  have hinitial : s₀.Tracked := by
    unfold start? History.start? at hstart
    split at hstart
    · cases hstart
    · cases hstart
      exact tracked_of_none rfl
  have htracked := tracked_run ops hinitial hops
  exact ⟨htracked.coherent, Selection.not_lostIn_of_foundIn, htracked.found.resolve_right⟩

/-- A node stays selected while its label changes. -/
theorem foundIn_iff_not_lostIn_of_relabelling :
    ∃ s : Session, start? 100 "A --> B[b]".toList = .ok s ∧
      SelectFound s .empty [.select (.node ['B']), .relabelNode ['B'] ['c']] ∧
      (run s .empty [.select (.node ['B']), .relabelNode ['B'] ['c']]).1.selection =
        .of (.node ['B']) ∧
      (Selection.of (.node ['B'])).Coherent ∧
      ((Selection.of (.node ['B'])).FoundIn "A --> B[c]".toList ↔
        ¬ (Selection.of (.node ['B'])).LostIn "A --> B[c]".toList) := by
  have hstart : start? 100 "A --> B[b]".toList = .ok (start 100 "A --> B[b]".toList) := rfl
  have hops : SelectFound (start 100 "A --> B[b]".toList) .empty
      [.select (.node ['B']), .relabelNode ['B'] ['c']] := by
    refine ⟨?_, ?_, trivial⟩
    · intro target h
      cases h
      exact Selection.foundIn_iff.2 rfl
    · intro target h
      cases h
  exact ⟨_, hstart, hops, rfl, foundIn_iff_not_lostIn hstart hops⟩

/-- A text whose identifiers cannot be listed takes the place of one that has the selected node, and
the node stays selected. -/
theorem dangling_of_unlistable {after : Text} {long : Integer.TooLong}
    (hids : (Buffer.ofText after).ids = .error long) (other : after ≠ "A[a]".toList) :
    ∃ s : Session, start? 100 "A[a]".toList = .ok s ∧
      SelectFound s .empty [.select (.node ['A']), .setCode after true] ∧
      (run s .empty [.select (.node ['A']), .setCode after true]).1.code = after ∧
      (run s .empty [.select (.node ['A']), .setCode after true]).1.selection = .of (.node ['A']) ∧
      ¬ (Selection.of (.node ['A'])).FoundIn after := by
  have lost : (Selection.of (.node ['A'])).LostIn after := ⟨rfl, _, hids⟩
  obtain ⟨hcode, hselection⟩ :=
    setCode_of_lostIn (s := ((start 100 "A[a]".toList).select (.node ['A'])).session) other lost
  refine ⟨start 100 "A[a]".toList, rfl, ⟨?_, ?_, trivial⟩, hcode, hselection,
    fun found => Selection.not_lostIn_of_foundIn found lost⟩
  · intro target h
    cases h
    exact Selection.foundIn_iff.2 rfl
  · intro target h
    cases h

theorem dangling_of_long_integer :
    ∃ s : Session, start? 100 "A[a]".toList = .ok s ∧
      SelectFound s .empty
        [.select (.node ['A']), .setCode (StyleLine.radiusLine ['B'] 4301) true] ∧
      (run s .empty [.select (.node ['A']),
        .setCode (StyleLine.radiusLine ['B'] 4301) true]).1.code =
        StyleLine.radiusLine ['B'] 4301 ∧
      (run s .empty [.select (.node ['A']),
        .setCode (StyleLine.radiusLine ['B'] 4301) true]).1.selection =
        .of (.node ['A']) ∧
      ¬ (Selection.of (.node ['A'])).FoundIn (StyleLine.radiusLine ['B'] 4301) := by
  refine dangling_of_unlistable (Buffer.ids_of_long_radius (by decide) (by decide)) fun h => ?_
  have hhead := congrArg List.head? h
  rw [StyleLine.head?_radiusLine] at hhead
  cases hhead

end Operation
end Chartwright
