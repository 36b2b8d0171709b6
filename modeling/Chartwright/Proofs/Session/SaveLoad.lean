import Chartwright.Proofs.Session.SavedText
import Chartwright.Proofs.Session.Installing
/-!
Saving a session, and loading what was saved.

The styles set beside the text stand under distinct identifiers in every state that operations lead
to, and none has an integer with too many digits if all were sent by a client
(`Operation.styled_run`). A session with such styles is saved to every path that the files accept,
and every session that loads the file has its text and its styles from then on
(`Session.load_of_save`). With an integer that has too many digits the session is not saved, and
what is left in its file cannot be loaded (`Session.save_of_not_brief`).
-/
namespace Chartwright

namespace Store

variable {s : Store} {p : Path} {content : Text}

/-- A path can be written to: the folders on the way are there or can be made, and there is no
folder at the path. -/
def Accepts (s : Store) (p : Path) : Prop :=
  ∃ made place, s.ensureFolder p.parent = (made, none) ∧ made.locate p = .ok place ∧
    made.find? place ≠ some .folder

theorem contains_of_read (h : s.read p = .ok content) : s.contains p = .ok true := by
  unfold read at h
  unfold contains
  split at h
  · cases h
  · next place located =>
    rw [located]
    split at h
    · cases h
    · cases h
    · next found => simp only [found, Option.isSome_some]

theorem exists_write {place : Place} (located : s.locate p = .ok place)
    (free : s.find? place ≠ some .folder) (content : Text) :
    ∃ after, s.write p content = .ok after := by
  unfold write
  rw [located]
  dsimp only
  split
  · next folder => exact absurd folder free
  · exact ⟨_, rfl⟩

end Store

namespace Style

/-- A style that a client has sent: it was read from JSON and has passed its check. -/
def Sent (s : Style) : Prop :=
  ∃ content value whole, Json.read content = .ok value ∧ Style.check whole value = .sound s

theorem Sent.brief {s : Style} (h : s.Sent) : s.Brief := by
  obtain ⟨content, value, whole, hread, hcheck⟩ := h
  exact brief_of_check (Json.canonical_of_read hread) hcheck

/-- A property that styles have which are read from a file, and that stays when one is set over
another. -/
structure Lasting (p : Style → Prop) : Prop where
  brief : ∀ style, style.Brief → p style
  merge : ∀ base update, p base → p update → p (base.merge update)

theorem lasting_true : Lasting fun _ => True := ⟨fun _ _ => trivial, fun _ _ _ _ => trivial⟩

theorem lasting_brief : Lasting Brief := ⟨fun _ h => h, fun _ _ => Brief.merge⟩

end Style

namespace Session

variable {α : Type} {s t : Session}

/-- The styles set beside the text stand under distinct identifiers, and each has a property. -/
structure Styled (p : Style → Prop) (s : Session) : Prop where
  distinct : (s.overrides.map (·.1)).Nodup
  each : ∀ entry ∈ s.overrides, p entry.2

/-- No integer that is set beside the text has too many digits. -/
def Brief (s : Session) : Prop := ∀ entry ∈ s.overrides, entry.2.Brief

variable {p : Style → Prop}

theorem Styled.of_eq (h : s.Styled p) (hstyles : t.overrides = s.overrides) : t.Styled p :=
  ⟨hstyles ▸ h.distinct, hstyles ▸ h.each⟩

theorem styled_of_nil (h : s.overrides = []) : s.Styled p := by
  constructor <;> simp [h]

theorem overrides_start? {limit : Int} {initial : Text} (h : start? limit initial = .ok s) :
    s.overrides = [] := by
  unfold start? at h
  obtain ⟨history, -, rfl⟩ := Except.exists_of_map_eq_ok h
  rfl

/-! ## Styles that keep a property -/

theorem styled_put (h : s.Styled p) (id : Text) {style : Style} (hstyle : p style) :
    ({ s with overrides := Assoc.put id style s.overrides } : Session).Styled p := by
  refine ⟨Assoc.nodup_put style h.distinct, fun entry hentry => ?_⟩
  rcases Assoc.mem_of_mem_put hentry with rfl | hentry
  · exact hstyle
  · exact h.each entry hentry

theorem styled_remove (h : s.Styled p) (id : Text) :
    ({ s with overrides := Assoc.remove id s.overrides } : Session).Styled p :=
  ⟨Assoc.nodup_remove h.distinct, fun entry hentry => h.each entry (List.mem_filter.1 hentry).1⟩

theorem Styled.override (h : s.Styled p) (hp : Style.Lasting p) (id : Text) :
    p (s.override id) := by
  unfold Session.override
  cases hfind : Assoc.find? id s.overrides with
  | none => exact hp.brief _ Style.brief_empty
  | some style => exact h.each _ (Assoc.mem_of_find? hfind)

theorem styled_adopt (h : s.Styled p) (code : Text) (a : α) :
    (s.adopt code a).session.Styled p := by
  unfold adopt
  split <;> exact h.of_eq rfl

theorem styled_setCode (h : s.Styled p) (code : Text) (record : Bool) :
    (s.setCode code record).session.Styled p := by
  unfold setCode
  split
  · exact h
  · refine styled_adopt (h.of_eq ?_) code true
    split <;> rfl

theorem styled_edit (h : s.Styled p) (c : Command) : (s.edit c).session.Styled p := by
  unfold edit
  split
  · exact styled_setCode h _ true
  · exact h

theorem styled_andThen {β : Type} {o : Outcome α} {next : α → Session → Outcome β}
    (h : o.session.Styled p) (hn : ∀ a m, m.Styled p → (next a m).session.Styled p) :
    (o.andThen next).session.Styled p := by
  unfold Outcome.andThen
  split
  · exact hn _ _ h
  · exact h

theorem styled_deselectIf (h : s.Styled p) (condition : Selection → Bool) (a : α) :
    (s.deselectIf condition a).session.Styled p := by
  unfold deselectIf
  split <;> exact h.of_eq rfl

theorem styled_reselect (h : s.Styled p) (line : Int) (a : α) :
    (s.reselect line a).session.Styled p := by
  unfold reselect
  split <;> exact h.of_eq rfl

theorem styled_step (h : s.Styled p) : s.undo.session.Styled p ∧ s.redo.session.Styled p := by
  constructor
  · unfold undo
    split
    · exact h
    · refine styled_adopt ?_ _ _
      exact h.of_eq rfl
  · unfold redo
    split
    · exact h
    · refine styled_adopt ?_ _ _
      exact h.of_eq rfl

theorem styled_insertNode (h : s.Styled p) (anchor label shape : Text) (id : Option Text)
    (now : Nat) : (s.insertNode anchor label shape id now).session.Styled p := by
  unfold insertNode
  split
  · exact styled_edit h _
  · split
    · exact styled_edit h _
    · exact h

theorem styled_deleteNode (h : s.Styled p) (id : Text) : (s.deleteNode id).session.Styled p := by
  refine styled_andThen (styled_edit h (.deleteNode id)) fun changed m hm => ?_
  split
  · exact styled_deselectIf (styled_remove hm id) _ true
  · exact hm

theorem styled_duplicateNode (h : s.Styled p) (id : Text) (now : Nat) :
    (s.duplicateNode id now).session.Styled p := by
  unfold duplicateNode
  split
  · exact h
  · exact h
  · next b copy _ =>
    refine styled_setCode ?_ _ true
    split
    · next style hstyle => exact styled_put h copy (h.each _ (Assoc.mem_of_find? hstyle))
    · exact h

theorem styled_deselecting {o : Outcome Bool} (h : o.session.Styled p)
    (condition : Selection → Bool) : (o.andThen fun changed after =>
      if changed then after.deselectIf condition true else after.keep false).session.Styled p := by
  refine styled_andThen h fun changed m hm => ?_
  split
  · exact styled_deselectIf hm condition true
  · exact hm

theorem styled_deleteEdge (h : s.Styled p) (e : Edge) : (s.deleteEdge e).session.Styled p :=
  styled_deselecting (styled_edit h (.deleteEdge e)) (·.isEdge e)

theorem styled_deleteSubgraph (h : s.Styled p) (id : Text) :
    (s.deleteSubgraph id).session.Styled p :=
  styled_deselecting (styled_edit h (.deleteSubgraph id)) (·.isGroup id)

theorem styled_editEdge (h : s.Styled p) (e : Edge) (c : Command) :
    (s.editEdge e c).session.Styled p := by
  refine styled_andThen (styled_edit h c) fun changed m hm => ?_
  split
  · exact styled_reselect hm _ true
  · exact hm

theorem styled_restyleNode (h : s.Styled p) (hp : Style.Lasting p) (id : Text) {style : Style}
    (hstyle : p style) : (s.restyleNode id style).session.Styled p := by
  have hput := styled_put h id (hp.merge _ _ (h.override hp id) hstyle)
  refine styled_andThen (styled_edit hput _) fun changed m hm => ?_
  split
  · exact hm.of_eq rfl
  · exact hm

theorem styled_load (h : s.Styled p) (hp : Style.Lasting p) (store : Store) (path : Path) :
    (s.load store path).session.Styled p := by
  unfold load
  split
  · exact h
  · exact h
  · split
    · exact h
    · split
      · exact h
      · next state hstate =>
        have hstorable := SavedState.storable_of_read hstate
        exact ⟨hstorable.distinct, fun entry hentry => hp.brief _ (hstorable.brief entry hentry)⟩

theorem styled_save (h : s.Styled p) (store : Store) (given : Option Path) :
    (s.save store given).2.session.Styled p := by
  rcases s.save_cases store given with ⟨path, hsave⟩ | ⟨e, hsave⟩
  · rw [hsave]
    exact h.of_eq rfl
  · rw [hsave]
    exact h

/-! ## There and back -/

section

variable {files : Store} {given : Option Path} {path : Path}

theorem load_of_save (h : s.saved.Storable) (hpath : s.savePath? given = some path)
    (hfiles : files.Accepts path) :
    ∃ after, s.save files given =
      (after, ({ s with path := some path, dirty := false } : Session).keep path) ∧
        ∀ t : Session, t.load after path = (t.withSaved path s.saved).announce s.code := by
  obtain ⟨made, place, hfolder, located, free⟩ := hfiles
  obtain ⟨after, hwrite⟩ := Store.exists_write located free s.saved.write.text
  have hread := Store.read_write hwrite
  obtain ⟨hwhole, hstate⟩ := SavedState.read_write h
  refine ⟨after, ?_, fun t => ?_⟩
  · simp only [save, hpath, hfolder, hwrite, hwhole]
  · simp only [load, Store.contains_of_read hread, hread, hstate]
    rfl

/-- An integer that cannot be written is met only when the file is open. -/
theorem save_of_not_brief (hdistinct : (s.overrides.map (·.1)).Nodup) (h : ¬ s.Brief)
    (hpath : s.savePath? given = some path) (hfiles : files.Accepts path) :
    ∃ after, s.save files given = (after, s.fail (.tooLong .writing)) ∧
      (∃ left missing, after.read path = .ok left ∧ missing ≠ [] ∧
        left ++ missing = s.saved.toJson.lay .file 0) ∧
      ∀ t : Session, ∃ e, t.load after path = t.fail e := by
  obtain ⟨made, place, hfolder, located, free⟩ := hfiles
  obtain ⟨after, hwrite⟩ := Store.exists_write located free s.saved.write.text
  have hread := Store.read_write hwrite
  obtain ⟨hfailure, missing, hmissing, hwhole⟩ :
    s.saved.write.Stopped (s.saved.toJson.lay .file 0) := SavedState.stopped_write h
  obtain ⟨e, he⟩ : ∃ e, SavedState.read s.saved.write.text = .error e :=
    SavedState.read_of_stopped hdistinct h
  refine ⟨after, ?_, ⟨_, missing, hread, hmissing, hwhole⟩, fun t => ⟨.ofState path e, ?_⟩⟩
  · simp only [save, hpath, hfolder, hwrite, hfailure]
  · simp only [load, Store.contains_of_read hread, hread, he]

end

end Session

namespace Operation

open Session

variable {s : Session} {p : Style → Prop}

/-- A style that the operation sets for a node has a property. -/
def Sets (p : Style → Prop) : Operation → Prop
  | restyleNode _ style => p style
  | _ => True

/-- A style that the operation sets for a node has been sent by a client. -/
def FromClient (op : Operation) : Prop := op.Sets Style.Sent

theorem sets_true (op : Operation) : op.Sets fun _ => True := by
  cases op <;> trivial

theorem Sets.mono {q : Style → Prop} (hpq : ∀ style, p style → q style) {op : Operation}
    (h : op.Sets p) : op.Sets q := by
  cases op with
  | restyleNode id style => exact hpq style h
  | _ => trivial

theorem styled_perform (h : s.Styled p) (hp : Style.Lasting p) (store : Store) {op : Operation}
    (hop : op.Sets p) : (op.perform s store).2.session.Styled p := by
  cases op with
  | setCode code record => exact styled_setCode h code record
  | undo => exact (styled_step h).1
  | redo => exact (styled_step h).2
  | select | setRenderResult => exact h.of_eq rfl
  | reset => exact styled_of_nil rfl
  | insertNode anchor label shape id now => exact styled_insertNode h anchor label shape id now
  | deleteNode id => exact styled_deleteNode h id
  | duplicateNode id now => exact styled_duplicateNode h id now
  | deleteEdge e => exact styled_deleteEdge h e
  | deleteSubgraph id => exact styled_deleteSubgraph h id
  | relabelEdge e | rearrowEdge e => exact styled_editEdge h e _
  | restyleNode id style => exact styled_restyleNode h hp id hop
  | load path => exact styled_load h hp store path
  | save path => exact styled_save h store path
  | setDirection | relabelNode | reshapeNode | connect | insertSubgraph | retitleSubgraph
    | addMember | removeMember
  | restyleSubgraph => exact styled_edit h _

theorem styled_run (hp : Style.Lasting p) (ops : List Operation) :
    ∀ {s : Session} {store : Store}, s.Styled p → (∀ op ∈ ops, op.Sets p) →
      (run s store ops).1.Styled p := by
  induction ops with
  | nil => intro s store h _; exact h
  | cons op rest ih =>
    intro s store h hops
    rw [List.forall_mem_cons] at hops
    exact ih (styled_perform h hp store hops.1) hops.2

/-- A session none of whose integers has too many digits is saved to every path that the files
accept, and every session that loads the file is from then on one with that text and those styles:
nothing is selected, no error of a rendering is known, the history holds the text alone, and the
file is the one that was loaded, without unsaved changes. A session with such an integer is not
saved to any path: saving fails and leaves a proper part of what would describe the session in the
file, which no session can load. In every state that operations lead to the styles stand under
distinct identifiers, and no integer of theirs has too many digits if all of them were sent by a
client. -/
theorem load_eq_of_save {s : Session} (hdistinct : (s.overrides.map (·.1)).Nodup) {files : Store}
    {given : Option Path} {path : Path} (hpath : s.savePath? given = some path)
    (hfiles : files.Accepts path) :
    (s.Brief →
      ∃ after, s.save files given =
          (after, ({ s with path := some path, dirty := false } : Session).keep path) ∧
        ∀ t : Session, t.load after path =
          ({ code := s.code, history := ⟨t.history.limit, [s.code], 0⟩, selection := .none,
             overrides := s.overrides, renderError := none, path := some path,
             dirty := false } : Session).announce s.code) ∧
    (¬ s.Brief →
      ∃ after, s.save files given = (after, s.fail (.tooLong .writing)) ∧
        (∃ left missing, after.read path = .ok left ∧ missing ≠ [] ∧
          left ++ missing = s.saved.toJson.lay .file 0) ∧
        ∀ t : Session, ∃ e, t.load after path = t.fail e) ∧
    ∀ {limit : Int} {initial : Text} {s₀ : Session} (store : Store) (ops : List Operation),
      start? limit initial = .ok s₀ →
      ((run s₀ store ops).1.overrides.map (·.1)).Nodup ∧
        ((∀ op ∈ ops, op.FromClient) → (run s₀ store ops).1.Brief) := by
  refine ⟨fun hbrief => ?_, fun hlong => ?_, fun store ops hstart => ?_⟩
  · exact load_of_save ⟨hdistinct, hbrief⟩ hpath hfiles
  · exact save_of_not_brief hdistinct hlong hpath hfiles
  · have hnil := overrides_start? hstart
    refine ⟨(styled_run Style.lasting_true ops (styled_of_nil hnil) fun op _ =>
      sets_true op).distinct, fun hops => ?_⟩
    have hsets : ∀ op ∈ ops, op.Sets Style.Brief :=
      fun op hop => (hops op hop).mono fun _ => Style.Sent.brief
    exact (styled_run Style.lasting_brief ops (styled_of_nil hnil) hsets).each

/-- A node is styled, the session is saved, and another session loads the file. -/
theorem load_eq_of_save_of_fill :
    ∃ s after,
      s = (run (start 100 "A[a]".toList) .empty
        [.restyleNode ['A'] { fill := some "red".toList }]).1 ∧
      (s.save .empty (some (Path.ofText "state.json".toList))).1 = after ∧
      ((start 5 []).load after (Path.ofText "state.json".toList)).session.code =
        "A[a]\n    style A fill:red".toList ∧
      ((start 5 []).load after (Path.ofText "state.json".toList)).session.overrides =
        [(['A'], { fill := some "red".toList })] := by
  obtain ⟨s, hs⟩ : ∃ s, s = (run (start 100 "A[a]".toList) .empty
      [.restyleNode ['A'] { fill := some "red".toList }]).1 := ⟨_, rfl⟩
  have hcode : s.code = "A[a]\n    style A fill:red".toList := by
    rw [hs]
    decide +kernel
  have hoverrides : s.overrides = [(['A'], { fill := some "red".toList })] := by
    rw [hs]
    decide +kernel
  have hdistinct : (s.overrides.map (·.1)).Nodup := by simp [hoverrides]
  have hbrief : s.Brief := by simp [Session.Brief, hoverrides, Style.Brief, Style.numbers]
  have haccepts : Store.empty.Accepts (Path.ofText "state.json".toList) :=
    ⟨.empty, [['~'], "state.json".toList], by decide, by rfl, by decide⟩
  have hpath : s.savePath? (some (Path.ofText "state.json".toList)) =
      some (Path.ofText "state.json".toList) := rfl
  obtain ⟨after, hsave, hload⟩ := (load_eq_of_save hdistinct hpath haccepts).1 hbrief
  refine ⟨s, after, hs, congrArg Prod.fst hsave, ?_, ?_⟩
  · rw [hload]
    exact hcode
  · rw [hload]
    exact hoverrides

/-- A node gets a radius that cannot be written. The edit fails and the session has the radius, so
saving it fails as well, and leaves a file that no session can load. -/
theorem not_load_of_long_radius {n : Int} (h : ¬ Integer.Short n) (path : Path)
    (hfiles : Store.empty.Accepts path) :
    ∃ s after,
      s = (run (start 100 "A[a]".toList) .empty [.restyleNode ['A'] { rx := some n }]).1 ∧
      s.overrides = [(['A'], { rx := some n })] ∧
      s.save .empty (some path) = (after, s.fail (.tooLong .writing)) ∧
      ∀ t : Session, ∃ e, t.load after path = t.fail e := by
  have hlong : ¬ Style.Brief { rx := some n } :=
    fun hbrief => h (hbrief n (by simp [Style.numbers]))
  have hrun : (run (start 100 "A[a]".toList) .empty [.restyleNode ['A'] { rx := some n }]).1 =
      (start 100 "A[a]".toList).withStyle ['A'] { rx := some n } := by
    have hread : (start 100 "A[a]".toList).buffer.style? ['A'] = .ok none := rfl
    simp only [run, perform, restyleNode_of_unwritten hread hlong]
    rfl
  have hoverrides : ((start 100 "A[a]".toList).withStyle ['A'] { rx := some n }).overrides =
      [(['A'], { rx := some n })] := rfl
  rw [hrun]
  generalize (start 100 "A[a]".toList).withStyle ['A'] { rx := some n } = s at hoverrides
  have hdistinct : (s.overrides.map (·.1)).Nodup := by simp [hoverrides]
  have hnot : ¬ s.Brief := by simpa [Session.Brief, hoverrides] using hlong
  have hpath : s.savePath? (some path) = some path := rfl
  obtain ⟨after, hsave, -, hload⟩ := save_of_not_brief hdistinct hnot hpath hfiles
  exact ⟨_, after, rfl, hoverrides, hsave, hload⟩

theorem not_load_of_long_integer :
    ∃ s after,
      s = (run (start 100 "A[a]".toList) .empty
        [.restyleNode ['A'] { rx := some (10 ^ Integer.digitLimit : Nat) }]).1 ∧
      s.overrides = [(['A'], { rx := some (10 ^ Integer.digitLimit : Nat) })] ∧
      s.save .empty (some (Path.ofText "state.json".toList)) = (after, s.fail (.tooLong .writing)) ∧
      ∀ t : Session, ∃ e, t.load after (Path.ofText "state.json".toList) = t.fail e := by
  refine not_load_of_long_radius (n := (10 ^ Integer.digitLimit : Nat)) ?_ _ ?_
  · rw [Integer.Short, Int.natAbs_natCast]
    exact Nat.lt_irrefl _
  · exact ⟨.empty, [['~'], "state.json".toList], by decide, by rfl, by decide⟩

end Operation
end Chartwright
