import Chartwright.Proofs.Buffer.Appended
import Chartwright.Proofs.Edit.DuplicateNode
import Chartwright.Proofs.Edit.EditEdge
/-!
Adding an edge, and deleting it again.

An edge is written on a line of its own, behind the last line that is not blank. Whatever its label
holds but a bar or a line feed, this line shows exactly the edge that was asked for
(`Buffer.edgeOn?_linkLine`), so the edge is scanned after all others. Deleted again it leaves the
text as it was, the blank lines at its end included (`Command.deleteEdge_connect`).
-/
namespace Chartwright

namespace Buffer

variable {b : Buffer} {e : Edge}

theorem adds_singleton (he : e.Readable) :
    Adds [linkLine e.source e.arrow e.label e.target] [e.unplaced] [] :=
  adds_links (List.forall_mem_singleton.2 he)

/-- The line that is written for an edge shows this edge, with the number of the line. -/
theorem edgeOn?_linkLine (he : e.Readable) (i : Nat) :
    edgeOn? (linkLine e.source e.arrow e.label e.target) i = some { e with line := i } := by
  have hmem : e.unplaced ∈ links [linkLine e.source e.arrow e.label e.target] :=
    (adds_singleton he).links ▸ List.mem_singleton_self _
  obtain ⟨line, hline, hedge⟩ := List.mem_filterMap.1 hmem
  rw [← List.mem_singleton.1 hline]
  exact (edgeOn?_move hedge i).1

theorem lineFeed_not_mem_linkLine (he : e.Readable) :
    '\n' ∉ linkLine e.source e.arrow e.label e.target :=
  (adds_singleton he).oneLine _ (List.mem_singleton_self _)

theorem deleteEdge_append {line : Line} (hedge : edgeOn? line b.appendIndex = some e) :
    (b.append [line]).deleteEdge e = b := by
  have hmem : e ∈ edges (b.append [line]) := by
    rw [edges_append_lines]
    exact List.mem_append_right _ (List.mem_filterMap.2 ⟨(line, b.appendIndex), by simp, hedge⟩)
  obtain ⟨_, _, _, _, _, _, _, _, _, _, hfound⟩ := exists_of_mem_edges hmem
  have hplace : e.line = b.appendIndex := (edgeOn?_move hedge 0).2
  rw [deleteEdge, hfound]
  show List.eraseIdx (b.append [line]) e.line.toNat = b
  rw [hplace, Int.toNat_natCast, eraseIdx_eq_without]
  exact without_append b [line]

end Buffer

namespace Command

open Buffer

/-- An edge that is added comes after all others of the text, with the source, target, label and
arrow asked for, and deleting it gives back the text. An empty label is no label. -/
theorem deleteEdge_connect (t : Text) {source target label : Text} (arrow : Arrow)
    (hsource : Identifier.valid source = true) (hname : Keyword.isKeyword source = false)
    (htarget : Identifier.valid target = true) (hbar : '|' ∉ label) (hlf : '\n' ∉ label) :
    ∃ t', run t (.connect source target label arrow.glyph) = .ok t' ∧
      (ofText t').edges =
        (ofText t).edges ++ [⟨source, target, label, arrow, (ofText t).appendIndex⟩] ∧
      run t' (.deleteEdge ⟨source, target, label, arrow, (ofText t).appendIndex⟩) = .ok t := by
  let e : Edge := ⟨source, target, label, arrow, (ofText t).appendIndex⟩
  have he : e.Readable := ⟨hsource, htarget, hname, hbar, hlf⟩
  have hedge : edgeOn? (linkLine source arrow label target) (ofText t).appendIndex = some e :=
    edgeOn?_linkLine he _
  have hread : ofText (toText ((ofText t).connect source target label arrow)) =
      (ofText t).append [linkLine source arrow label target] :=
    ofText_toText_insertAt (fun line hline => not_mem_of_mem_ofText hline)
      (lineFeed_not_mem_linkLine he)
  refine ⟨toText ((ofText t).connect source target label arrow), ?_, ?_, ?_⟩
  · rw [run, Arrow.ofName, Arrow.named?_glyph]
    rfl
  · rw [hread, edges_append_lines, List.zipIdx_singleton, List.filterMap_cons, hedge,
      List.filterMap_nil]
  · rw [run, onLines, hread, deleteEdge_append hedge, toText_ofText]

/-- An edge whose label looks like brackets, a class, a comment and an arrow, in a text whose
subgraph is not closed and that ends in blank lines. -/
theorem deleteEdge_connect_of_open :
    ∃ t', run "A --> B\nsubgraph G\n \n\n".toList
        (.connect ['B'] ['C'] "D[x] --> E:::c %% end".toList Arrow.dotted.glyph) = .ok t' ∧
      (ofText t').edges =
        [⟨['A'], ['B'], [], .plain, 0⟩,
          ⟨['B'], ['C'], "D[x] --> E:::c %% end".toList, .dotted, 2⟩] ∧
      run t' (.deleteEdge ⟨['B'], ['C'], "D[x] --> E:::c %% end".toList, .dotted, 2⟩) =
        .ok "A --> B\nsubgraph G\n \n\n".toList := by
  have hedges : (ofText "A --> B\nsubgraph G\n \n\n".toList).edges =
      [⟨['A'], ['B'], [], .plain, 0⟩] := by
    decide +kernel
  have hplace : (ofText "A --> B\nsubgraph G\n \n\n".toList).appendIndex = 2 := by decide +kernel
  have hsource : Identifier.valid ['B'] = true ∧ Keyword.isKeyword ['B'] = false := by decide
  have htarget : Identifier.valid ['C'] = true := by decide
  have hlabel : '|' ∉ "D[x] --> E:::c %% end".toList ∧ '\n' ∉ "D[x] --> E:::c %% end".toList := by
    decide
  have hconnect := deleteEdge_connect "A --> B\nsubgraph G\n \n\n".toList .dotted hsource.1
    hsource.2 htarget hlabel.1 hlabel.2
  rw [hedges, hplace] at hconnect
  exact hconnect

end Command

end Chartwright
