import Chartwright.Proofs.Edit.EditEdge
import Chartwright.Proofs.Session.Edit
/-!
The selected edge through edits of edges.

An edge is selected as the value it had, so an edit of it takes it out of the text and out of the
selection, and what its line shows then is selected in its place (`Session.reselects_editEdge`).
That is the edge with its new arrow or its new label wherever the edit changes nothing but this
(`Session.selects_edits`). An edit of an edge on another line leaves the line of the selected edge
alone. The label of an edge that the scan reads in the label of an arrow is not set but breaks this
one up, and then another edge is selected (`Session.selection_relabelEdge_ne`).
-/
namespace Chartwright

namespace Buffer

variable {b : Buffer} {e f : Edge} {t : Text}

theorem eq_of_line_eq (he : e ∈ b.edges) (hf : f ∈ b.edges) (h : f.line = e.line) : f = e := by
  obtain ⟨i, line, hi, hedge⟩ := mem_edges.1 he
  obtain ⟨j, line', hj, hedge'⟩ := mem_edges.1 hf
  have hplace := (edgeOn?_move hedge 0).2
  have hplace' := (edgeOn?_move hedge' 0).2
  obtain rfl : i = j := Int.ofNat_inj.1 (hplace.symm.trans (h.symm.trans hplace'))
  obtain rfl := Option.some.inj (hi.symm.trans hj)
  exact Option.some.inj (hedge'.symm.trans hedge)

theorem find?_line (he : e ∈ b.edges) : b.edges.find? (·.line = e.line) = some e :=
  find?_eq_some_of_unique Edge.line he fun _ hf h => eq_of_line_eq he hf h

theorem mem_edges_of_getElem?_eq {b' : Buffer} (h : ∀ j : Nat, (j : Int) = e.line → b'[j]? = b[j]?)
    (he : e ∈ b.edges) : e ∈ b'.edges := by
  obtain ⟨i, line, hi, hedge⟩ := mem_edges.1 he
  exact mem_edges.2 ⟨i, line, (h i (edgeOn?_move hedge 0).2.symm).trans hi, hedge⟩

theorem getElem?_spliceEdgeLine {column : Nat} {l : Link} {new : Text}
    (hfound : (ofText t).linkOf? f = some (column, l)) (hnew : '\n' ∉ new) (s : Span) {j : Nat}
    (hj : (j : Int) ≠ f.line) :
    (ofText (toText ((ofText t).spliceEdgeLine f s new)))[j]? = (ofText t)[j]? := by
  obtain ⟨line, hline, -⟩ := linkOf?_eq_some_iff.1 hfound
  obtain ⟨i, hplace, hi⟩ := lineAt?_eq_some_iff.1 hline
  rw [ofText_toText_spliceEdgeLine hi hplace hnew, List.getElem?_set_ne]
  rintro rfl
  exact hj hplace.symm

theorem mem_edges_deleteEdge (he : e ∈ (ofText t).edges) (h : e.line < f.line) :
    e ∈ (ofText (toText ((ofText t).deleteEdge f))).edges := by
  cases hfound : (ofText t).linkOf? f with
  | none => rwa [deleteEdge, hfound, toText_ofText]
  | some found =>
    obtain ⟨line, hline, -⟩ := linkOf?_eq_some_iff.1 hfound
    obtain ⟨i, hplace, hi⟩ := lineAt?_eq_some_iff.1 hline
    have hkept : e ∈ edges ((ofText t).eraseIdx i) :=
      mem_edges_of_getElem?_eq (fun j hj => List.getElem?_eraseIdx_of_lt (by omega)) he
    obtain ⟨_, _, hother, -⟩ := mem_edges.1 hkept
    rw [deleteEdge, hfound, hplace, Int.toNat_natCast]
    rwa [ofText_toText (List.ne_nil_of_mem (List.mem_of_getElem? hother)) fun l hl =>
      not_mem_of_mem_ofText (List.mem_of_mem_eraseIdx hl)]

end Buffer

namespace Command

open Buffer

variable {e f : Edge} {t : Text}

theorem mem_edges_rearrowEdge (he : e ∈ (ofText t).edges) (h : f.line ≠ e.line) (a : Arrow) :
    ∃ t', run t (.rearrowEdge f a.glyph) = .ok t' ∧ e ∈ (ofText t').edges := by
  rw [run, onLinesNamed, rearrowEdge?]
  cases hfound : (ofText t).linkOf? f with
  | none => exact ⟨t, rfl, he⟩
  | some found =>
    have hglyph : Arrow.ofName a.glyph = .ok a := by rw [Arrow.ofName, Arrow.named?_glyph]
    rw [hglyph]
    refine ⟨_, rfl, mem_edges_of_getElem?_eq (fun j hj => ?_) he⟩
    exact getElem?_spliceEdgeLine hfound a.lineFeed_not_mem_glyph _ (hj.symm ▸ h.symm)

theorem mem_edges_relabelEdge (he : e ∈ (ofText t).edges) (h : f.line ≠ e.line) {label : Text}
    (hlabel : '\n' ∉ label) : e ∈ (ofText (onLines (·.relabelEdge f label) t)).edges := by
  rw [onLines, Buffer.relabelEdge]
  cases hfound : (ofText t).linkOf? f with
  | none => rwa [toText_ofText]
  | some found =>
    refine mem_edges_of_getElem?_eq (fun j hj => ?_) he
    exact getElem?_spliceEdgeLine hfound
      (not_mem_writeLabel hlabel (by decide)) _ (hj.symm ▸ h.symm)

end Command

namespace Outcome

/-- An edit succeeds and leaves an edge selected that the text has. -/
structure Selects (e : Edge) (o : Outcome Bool) : Prop where
  result : ∃ changed, o.result = .ok changed
  selection : o.session.selection = .of (.edge e)
  found : e ∈ o.session.buffer.edges

/-- An edit succeeds and leaves the edge selected that a line shows, or nothing if it shows none. -/
structure Reselects (line : Int) (o : Outcome Bool) : Prop where
  result : ∃ changed, o.result = .ok changed
  selection : o.session.selection = .of (.ofEdge? (o.session.buffer.edges.find? (·.line = line)))

theorem Reselects.selects {e : Edge} {o : Outcome Bool} (h : o.Reselects e.line)
    (he : e ∈ o.session.buffer.edges) : o.Selects e where
  result := h.result
  selection := by rw [h.selection, Buffer.find?_line he]; rfl
  found := he

end Outcome

namespace Session

open Outcome

variable {s : Session} {e f : Edge} {c : Command} {t : Text}

theorem adopt_of_edge {α : Type} (hs : s.selection = .of (.edge e)) (code : Text) (a : α) :
    (s.adopt code a).result = .ok a ∧ (s.adopt code a).session.code = code ∧
      (s.adopt code a).session.selection =
        .of (if e ∈ (Buffer.ofText code).edges then .edge e else .none) := by
  have hleft : s.selection.revalidate code =
      .ok (.of (if e ∈ (Buffer.ofText code).edges then .edge e else .none)) := by
    rw [hs, Selection.revalidate_of_edge]
  simp only [adopt, hleft]
  exact ⟨rfl, rfl, rfl⟩

theorem edit_of_edge (hs : s.selection = .of (.edge e)) (he : e ∈ s.buffer.edges)
    (hrun : c.run s.code = .ok t) :
    (s.edit c).result = .ok (decide (t ≠ s.code)) ∧ (s.edit c).session.code = t ∧
      (s.edit c).session.selection =
        .of (if e ∈ (Buffer.ofText t).edges then .edge e else .none) := by
  simp only [edit, hrun, setCode]
  split
  · next same =>
    subst same
    exact ⟨by simp [keep], rfl, hs.trans (congrArg Selection.of (if_pos he).symm)⟩
  · next other =>
    have hadopt := adopt_of_edge (s := { s with history := (s.history.record t).2 }) hs t true
    simpa [other] using hadopt

theorem result_reselect {α : Type} (s : Session) (line : Int) (a : α) :
    (s.reselect line a).result = .ok a ∧ (s.reselect line a).session.code = s.code := by
  unfold reselect
  split <;> exact ⟨rfl, rfl⟩

/-- What is on the line of an edge is selected in its place, and if there is nothing the edge itself
is gone. -/
theorem selection_reselect {α : Type}
    (h : s.selection = .of (if e ∈ s.buffer.edges then .edge e else .none)) (a : α) :
    (s.reselect e.line a).session.selection =
      .of (.ofEdge? (s.buffer.edges.find? (·.line = e.line))) := by
  unfold reselect
  split
  · next f hf =>
    rw [hf]
    exact s.selection.choose_eq (.edge f)
  · next hnone =>
    have hgone : e ∉ s.buffer.edges := by
      intro hmem
      rw [Buffer.find?_line hmem] at hnone
      cases hnone
    rw [hnone]
    exact h.trans (congrArg Selection.of (if_neg hgone))

/-- After an edit of the selected edge what its line shows is selected. -/
theorem reselects_editEdge (hs : s.selection = .of (.edge e)) (he : e ∈ s.buffer.edges)
    (hrun : c.run s.code = .ok t) :
    (s.editEdge e c).Reselects e.line ∧ (s.editEdge e c).session.code = t := by
  obtain ⟨hresult, rfl, hselection⟩ := edit_of_edge hs he hrun
  simp only [editEdge, andThen, hresult]
  by_cases same : (s.edit c).session.code = s.code
  · rw [if_neg (by simp [same])]
    have hmem : e ∈ (s.edit c).session.buffer.edges := by rwa [buffer, same]
    refine ⟨⟨⟨_, rfl⟩, ?_⟩, rfl⟩
    show (s.edit c).session.selection =
        .of (.ofEdge? ((s.edit c).session.buffer.edges.find? (·.line = e.line)))
    rw [Buffer.find?_line hmem]
    exact hselection.trans (congrArg Selection.of (if_pos hmem))
  · rw [if_pos (by simp [same, hs, Selection.isEdge_of])]
    obtain ⟨hreselected, hcode⟩ := result_reselect (s.edit c).session e.line true
    refine ⟨⟨⟨true, hreselected⟩, ?_⟩, hcode⟩
    show _ = Selection.of
      (.ofEdge?
        ((Buffer.ofText ((s.edit c).session.reselect e.line true).session.code).edges.find? _))
    rw [hcode]
    exact selection_reselect hselection true

theorem selects_of_isEdited {e' : Edge} (hs : s.selection = .of (.edge e)) (he : e ∈ s.buffer.edges)
    (h : ∃ t, c.run s.code = .ok t ∧ Buffer.IsEdited s.buffer (Buffer.ofText t) e e')
    (hline : e'.line = e.line) : (s.editEdge e c).Selects e' := by
  obtain ⟨t, hrun, hedited⟩ := h
  obtain ⟨hreselects, hcode⟩ := reselects_editEdge hs he hrun
  rw [← hline] at hreselects
  refine hreselects.selects ?_
  rw [buffer, hcode, hedited.edges]
  exact List.mem_map.2 ⟨e, he, if_pos rfl⟩

theorem selects_of_ne (hs : s.selection = .of (.edge e)) (he : e ∈ s.buffer.edges) (hne : f ≠ e)
    (h : ∃ t, c.run s.code = .ok t ∧ e ∈ (Buffer.ofText t).edges) : (s.editEdge f c).Selects e := by
  obtain ⟨t, hrun, hmem⟩ := h
  obtain ⟨hresult, hcode, hselection⟩ := edit_of_edge hs he hrun
  have hother : s.selection.isEdge f = false := hs ▸ Selection.isEdge_of_ne hne
  simp only [editEdge, andThen, hresult]
  rw [if_neg (by simp [hother])]
  exact ⟨⟨_, rfl⟩, hselection.trans (congrArg Selection.of (if_pos hmem)), by
    rwa [keep, buffer, hcode]⟩

/-- A selected edge stays selected when an edge on a later line is deleted. -/
theorem selects_deleteEdge (hs : s.selection = .of (.edge e)) (he : e ∈ s.buffer.edges)
    (h : e.line < f.line) : (s.deleteEdge f).Selects e := by
  have hmem := Buffer.mem_edges_deleteEdge he h
  have hrun : (Command.deleteEdge f).run s.code = .ok (Command.onLines (·.deleteEdge f) s.code) :=
    rfl
  obtain ⟨hresult, hcode, hselection⟩ := edit_of_edge hs he hrun
  have hselected : (s.edit (.deleteEdge f)).session.selection = .of (.edge e) :=
    hselection.trans (congrArg Selection.of (if_pos hmem))
  have hother : (s.edit (.deleteEdge f)).session.selection.isEdge f = false := by
    refine hselected ▸ Selection.isEdge_of_ne ?_
    rintro rfl
    exact absurd h (Int.lt_irrefl _)
  have hfound : e ∈ (s.edit (.deleteEdge f)).session.buffer.edges := by rwa [buffer, hcode]
  have hdelete : s.deleteEdge f = (s.edit (.deleteEdge f)).andThen fun changed m =>
    if changed then m.deselectIf (·.isEdge f) true else m.keep false := rfl
  rw [hdelete]
  simp only [andThen, hresult]
  split
  · rw [deselectIf, if_neg (by simp [hother])]
    exact ⟨⟨true, rfl⟩, hselected, hfound⟩
  · exact ⟨⟨false, rfl⟩, hselected, hfound⟩

/-- With its arrow changed the selected edge stays selected, and so it does with its label changed,
if no declared label of its line holds a bar and no label of an arrow is open at its arrow. Whatever
the label, what its line then shows is selected. Edits of edges on other lines, and deletions
further down, leave it selected. -/
theorem selects_edits (hs : s.selection = .of (.edge e)) (he : e ∈ s.buffer.edges) :
    (∀ a : Arrow, (s.rearrowEdge e a.glyph).Selects { e with arrow := a }) ∧
    (∀ label, '\n' ∉ label → '|' ∉ label → Arrow.occursIn label = false →
      (∀ d ∈ Line.declarations (s.buffer.line e.line.toNat), '|' ∉ d.label) →
        s.buffer.opensLabelAt e = false →
      (s.relabelEdge e label).Selects { e with label := label }) ∧
    (∀ label, (s.relabelEdge e label).Reselects e.line) ∧
    ∀ f : Edge, f.line ≠ e.line → (∀ a : Arrow, (s.rearrowEdge f a.glyph).Selects e) ∧
      (∀ label, '\n' ∉ label → (s.relabelEdge f label).Selects e) ∧
        (e.line < f.line → (s.deleteEdge f).Selects e) := by
  refine ⟨fun a => ?_, fun label hlf hbar harrow hbars hclosed => ?_,
    fun label => ?_, fun f hline => ⟨fun a => ?_, fun label hlf => ?_, selects_deleteEdge hs he⟩⟩
  · exact selects_of_isEdited hs he (Buffer.isEdited_rearrowEdge he a) rfl
  · obtain ⟨t, hrun, hedited, -⟩ := Buffer.isEdited_relabelEdge he hlf hbar harrow hbars hclosed
    exact selects_of_isEdited hs he ⟨t, hrun, hedited⟩ rfl
  · exact (reselects_editEdge hs he rfl).1
  · exact selects_of_ne hs he (fun h => hline (h ▸ rfl)) (Command.mem_edges_rearrowEdge he hline a)
  · exact selects_of_ne hs he (fun h => hline (h ▸ rfl))
      ⟨_, rfl, Command.mem_edges_relabelEdge he hline hlf⟩

/-- A new session with an edge selected. -/
def onEdge (code : Text) (e : Edge) : Session := ((start 100 code).select (.edge e)).session

/-- The selected edge of a line with a group, with an edge before it and one behind it. -/
theorem selects_edits_of_group :
    ((onEdge "B --> C\nA -->|m| B[x] & C\nC ==> A".toList ⟨['A'], ['B'], ['m'], .plain,
      1⟩).rearrowEdge
      ⟨['A'], ['B'], ['m'], .plain, 1⟩ Arrow.dotted.glyph).Selects
        ⟨['A'], ['B'], ['m'], .dotted, 1⟩ ∧
    ((onEdge "B --> C\nA -->|m| B[x] & C\nC ==> A".toList ⟨['A'], ['B'], ['m'], .plain,
      1⟩).relabelEdge
      ⟨['A'], ['B'], ['m'], .plain, 1⟩ "end] l".toList).Selects ⟨['A'], ['B'], "end] l".toList,
        .plain, 1⟩ ∧
    ((onEdge "B --> C\nA -->|m| B[x] & C\nC ==> A".toList ⟨['A'], ['B'], ['m'], .plain,
      1⟩).relabelEdge
      ⟨['B'], ['C'], [], .plain, 0⟩ ['l']).Selects ⟨['A'], ['B'], ['m'], .plain, 1⟩ ∧
    ((onEdge "B --> C\nA -->|m| B[x] & C\nC ==> A".toList ⟨['A'], ['B'], ['m'], .plain,
      1⟩).deleteEdge
      ⟨['C'], ['A'], [], .thick, 2⟩).Selects ⟨['A'], ['B'], ['m'], .plain, 1⟩ := by
  have he : (⟨['A'], ['B'], ['m'], .plain, 1⟩ : Edge) ∈
      (onEdge "B --> C\nA -->|m| B[x] & C\nC ==> A".toList ⟨['A'], ['B'], ['m'], .plain,
        1⟩).buffer.edges := by
    decide +kernel
  obtain ⟨hrearrowed, hrelabelled, -, hothers⟩ := selects_edits rfl he
  refine ⟨hrearrowed .dotted, ?_, ?_, ?_⟩
  · exact hrelabelled "end] l".toList (by decide) (by decide) (by decide) (by decide +kernel) (by
      decide +kernel)
  · exact (hothers ⟨['B'], ['C'], [], .plain, 0⟩ (by decide)).2.1 ['l'] (by decide)
  · exact (hothers ⟨['C'], ['A'], [], .thick, 2⟩ (by decide)).2.2 (by decide)

/-- An edge that the scan reads in the label of an arrow is not what is selected once it is
labelled. -/
theorem selection_relabelEdge_ne :
    (⟨['x'], ['B'], [], .plain, 0⟩ : Edge) ∈ (Buffer.ofText "A -->|x --> B| & C".toList).edges ∧
    Line.declarations "A -->|x --> B| & C".toList = [] ∧
    ((onEdge "A -->|x --> B| & C".toList ⟨['x'], ['B'], [], .plain, 0⟩).relabelEdge
      ⟨['x'], ['B'], [], .plain, 0⟩
      ['l']).session.code = "A -->|x -->|l| B| & C".toList ∧
    ((onEdge "A -->|x --> B| & C".toList ⟨['x'], ['B'], [], .plain, 0⟩).relabelEdge
      ⟨['x'], ['B'], [], .plain, 0⟩
      ['l']).session.selection = .of (.edge ⟨['A'], ['l'], "x -->".toList, .plain, 0⟩) ∧
    ¬ ((onEdge "A -->|x --> B| & C".toList ⟨['x'], ['B'], [], .plain, 0⟩).relabelEdge
      ⟨['x'], ['B'], [], .plain, 0⟩
      ['l']).Selects ⟨['x'], ['B'], ['l'], .plain, 0⟩ := by
  have hselection : ((onEdge "A -->|x --> B| & C".toList ⟨['x'], ['B'], [], .plain, 0⟩).relabelEdge
      ⟨['x'], ['B'], [], .plain, 0⟩ ['l']).session.selection =
        .of (.edge ⟨['A'], ['l'], "x -->".toList, .plain, 0⟩) := by
    decide +kernel
  refine ⟨by decide +kernel, by decide +kernel, by decide +kernel, hselection, fun h => ?_⟩
  rw [h.selection] at hselection
  cases hselection

end Session
end Chartwright
