import Chartwright.Proofs.Edit.RelabelNode
import Chartwright.Proofs.Edit.SpliceLink
import Chartwright.Proofs.Edit.StaleEdge
/-!
What another arrow and another label for an edge change.

Another arrow for a scanned edge changes the arrow of this edge and nothing else
(`Buffer.isEdited_rearrowEdge`). So does another label, as long as no label of an arrow is open
where the arrow of the edge stands (`Buffer.isEdited_relabelEdge`). The scan can read an edge in the
label of an arrow, `x --> B` on `A -->|x --> B| & C`, and the bars of a label that is written there
close the one around it: then the line shows another edge (`Command.edges_relabelEdge_ne`).
-/
namespace Chartwright

theorem Span.not_mem_splice {c : Char} {s : Span} {new t : Text} (hnew : c ∉ new) (ht : c ∉ t) :
    c ∉ s.splice new t := by
  rw [splice, List.mem_append, List.mem_append, not_or, not_or]
  exact ⟨⟨fun hmem => ht (List.mem_of_mem_take hmem), hnew⟩, fun hmem =>
    ht (List.mem_of_mem_drop hmem)⟩

theorem Line.not_mem_maskLabels {c : Char} {line : Line} (h : c ∉ line) (hc : c ≠ '\x00') :
    c ∉ maskLabels line :=
  fun hmem => h ((shows_maskLabels line).mem hmem hc)

theorem Arrow.lineFeed_not_mem_glyph (a : Arrow) : '\n' ∉ a.glyph := by cases a <;> decide

namespace Buffer

variable {b b' : Buffer} {e e' : Edge} {line line' : Line} {i : Nat}

/-- A label of an arrow is open on the line of an edge where the arrow of the edge stands. -/
def opensLabelAt (b : Buffer) (e : Edge) : Bool :=
  (b.linkOf? e).any fun (column, l) =>
    Line.leavesOpen ((b.line e.line.toNat).take (arrowSpan column l).start)

theorem not_mem_writeLabel {c : Char} {label : Text} (h : c ∉ label) (hc : c ≠ '|') :
    c ∉ writeLabel label := by
  rw [writeLabel]
  split <;> simp [h, hc]

/-- One edge becomes another one on its line; every other line and edge is as before. -/
structure IsEdited (b b' : Buffer) (e e' : Edge) : Prop where
  length : b'.length = b.length
  lines : ∀ j : Nat, (j : Int) ≠ e.line → b'[j]? = b[j]?
  edges : b'.edges = b.edges.map fun f => if f = e then e' else f

theorem edgeOn?_of_firstEnds? {source target : Text} {k : Connector}
    (hline : Line.isDirective line = false)
    (h : Link.firstEnds? none (Line.maskLabels line) = some (source, k, target))
    (hname : Keyword.isKeyword source = false) (i : Nat) :
    edgeOn? line i = some ⟨source, target, (k.label.map (·.text)).getD [], Arrow.ofSpelling k.arrow,
      i⟩ := by
  rw [edgeOn?_eq hline, Line.link?, Link.ends_first?, h, Option.bind_some]
  exact if_neg (by simp [hname])

theorem zipIdx_set (b : Buffer) (i : Nat) (line : Line) :
    (b.set i line).zipIdx = b.zipIdx.map fun entry =>
      (if entry.2 = i then line else entry.1, entry.2) := by
  refine List.ext_getElem? fun j => ?_
  rw [List.getElem?_map, List.getElem?_zipIdx, List.getElem?_zipIdx, List.getElem?_set,
    Nat.zero_add]
  by_cases hj : i = j
  · subst hj
    cases hi : b[i]? with
    | none => simp [List.getElem?_eq_none_iff.1 hi]
    | some l => simp [(List.getElem?_eq_some_iff.1 hi).1]
  · rw [if_neg hj]
    cases b[j]? <;> simp [Ne.symm hj]

/-- With the line of one edge replaced the edges are the same but for this one. -/
theorem isEdited_set (hi : b[i]? = some line) (hold : edgeOn? line i = some e)
    (hnew : edgeOn? line' i = some e') : IsEdited b (b.set i line') e e' := by
  have hplace := (edgeOn?_move hold 0).2
  constructor
  case length => exact List.length_set ..
  case lines =>
    intro j hj
    rw [List.getElem?_set_ne]
    rintro rfl
    exact hj hplace.symm
  case edges =>
    rw [edges, edges, zipIdx_set, List.filterMap_map, List.map_filterMap]
    refine List.filterMap_congr ?_
    rintro ⟨l, j⟩ hl
    rw [List.mem_zipIdx_iff_getElem?] at hl
    by_cases hj : j = i
    · subst hj
      obtain rfl : line = l := Option.some.inj (hi.symm.trans hl)
      simp [hold, hnew]
    · -- an edge of another line is not the one that was edited
      have hother : ∀ f, edgeOn? l j = some f → f ≠ e := by
        rintro f hf rfl
        exact hj (Int.ofNat_inj.1 ((edgeOn?_move hf 0).2.symm.trans hplace))
      simp only [Function.comp_apply, if_neg hj]
      cases hedge : edgeOn? l j with
      | none => rfl
      | some f => rw [Option.map_some, if_neg (hother f hedge)]

end Buffer

/-! ## The edits -/

namespace Link.Parts

variable {t : Text} {column : Nat} {l : Link} {line : Line} {label : Text}

theorem edgeOn?_spell (q : Parts t column l) (hline : Line.isDirective line = false)
    (hmasked : Line.maskLabels line = t) (hlf : '\n' ∉ line)
    (hname : Keyword.isKeyword l.source = false) (a : Arrow) (i : Nat) :
    Buffer.edgeOn? ((Buffer.arrowSpan column l).splice a.glyph line) i =
      some { l.edge i with arrow := a } := by
  have hspelling := Arrow.spelling_of_read? (Arrow.read?_glyph a)
  obtain ⟨hplain, hwritten⟩ := q.maskLabels_spell hline hmasked hspelling
  have hends := q.firstEnds?_spell hspelling (hmasked ▸ Line.not_mem_maskLabels hlf (by decide))
  rw [← hwritten] at hends
  rw [Buffer.edgeOn?_of_firstEnds? hplain hends hname, Arrow.ofSpelling_glyph]
  rfl

theorem lineFeed_not_mem_relabel (q : Parts t column l) (ht : '\n' ∉ t) (hbar : '|' ∉ label)
    (hlf : '\n' ∉ label) :
    '\n' ∉ q.write (q.tip.relabel label hbar) := by
  have hold : '\n' ∉ q.head ++ (q.tip.written ++ q.tail) := by rwa [← q.write_eq, q.write_tip]
  rw [q.write_eq, Tip.written_relabel]
  simp only [Tip.written, List.mem_append, not_or] at hold ⊢
  exact ⟨hold.1, ⟨hold.2.1.1, Buffer.not_mem_writeLabel hlf (by decide)⟩, hold.2.2⟩

/-- The line with the label of its arrow set anew shows the link with this label, if no label is
open at the arrow. -/
theorem firstEnds?_maskLabels_relabel (q : Parts t column l) (hline : Line.isDirective line = false)
    (hmasked : Line.maskLabels line = t) (hlf : '\n' ∉ line)
    (hbars : ∀ d ∈ Line.declarations line, '|' ∉ d.label)
    (hclosed : Line.leavesOpen (line.take (Buffer.arrowSpan column l).start) = false)
    (hlabel : '|' ∉ label) (hlf' : '\n' ∉ label) (harrow : Arrow.occursIn label = false) :
    Line.isDirective ((Buffer.labelPartSpan column l).splice (Buffer.writeLabel label) line) =
      false ∧ firstEnds? none
        (Line.maskLabels ((Buffer.labelPartSpan column l).splice (Buffer.writeLabel label) line)) =
        some (l.source,
          { l.connector with label := if label.isEmpty then none else some ⟨[], label⟩ },
          l.target) := by
  have hsame : Text.SameBars line (q.write q.tip) := by
    rw [q.write_tip, ← hmasked]
    exact Line.sameBars_maskLabels hbars
  obtain ⟨hplain, hwritten, hopen⟩ := q.maskLabels_relabel hline hmasked hsame hclosed hlabel
  have ht : '\n' ∉ t := hmasked ▸ Line.not_mem_maskLabels hlf (by decide)
  refine ⟨hplain, ?_⟩
  rw [hwritten, q.firstEnds?_relabel _ hopen (q.lineFeed_not_mem_relabel ht hlabel hlf') ht]
  · rw [q.connector_eq]
    rfl
  · intro found hfound
    obtain ⟨-, rfl⟩ : label.isEmpty = false ∧ ⟨[], label⟩ = found := by
      simpa [Tip.relabel, Tip.ofEdge] using hfound
    exact harrow

end Link.Parts

namespace Buffer

variable {t : Text} {e : Edge}

theorem exists_of_mem_edges {b : Buffer} (he : e ∈ b.edges) : ∃ i line column l, b[i]? = some line ∧
    edgeOn? line i = some (l.edge i) ∧ e = l.edge i ∧ Line.isDirective line = false ∧
    Keyword.isKeyword l.source = false ∧ Line.link? line = some (column, l) ∧
    b.linkOf? e = some (column, l) := by
  obtain ⟨i, line, hi, hedge⟩ := mem_edges.1 he
  obtain ⟨hline, column, l, hlink, hname, rfl⟩ := edgeOn?_eq_some_iff.1 hedge
  have hplace : b.lineAt? (l.edge i).line = some line := lineAt?_eq_some_iff.2 ⟨i, rfl, hi⟩
  exact ⟨i, line, column, l, hi, hedge, rfl, hline, hname, hlink,
    linkOf?_eq_some_iff.2 ⟨line, hplace, hlink, rfl, rfl⟩⟩

theorem ofText_toText_spliceEdgeLine {i : Nat} {line new : Text} {s : Span}
    (hi : (ofText t)[i]? = some line) (hplace : e.line = i) (hlf : '\n' ∉ new) :
    ofText (toText ((ofText t).spliceEdgeLine e s new)) = (ofText t).set i (s.splice new line) := by
  rw [spliceEdgeLine, hplace, Int.toNat_natCast, line_eq_of_getElem? hi]
  refine ofText_toText ?_ fun l hl => ?_
  · have hlt : i < (ofText t).length := (List.getElem?_eq_some_iff.1 hi).1
    rw [← List.length_pos_iff, List.length_set]
    omega
  · rcases List.mem_or_eq_of_mem_set hl with hl | rfl
    · exact not_mem_of_mem_ofText hl
    · exact Span.not_mem_splice hlf (not_mem_of_mem_ofText (List.mem_of_getElem? hi))

/-- Another arrow for a scanned edge changes the arrow of this edge and nothing else. -/
theorem isEdited_rearrowEdge (he : e ∈ (ofText t).edges) (a : Arrow) :
    ∃ t', Command.run t (.rearrowEdge e a.glyph) = .ok t' ∧
      IsEdited (ofText t) (ofText t') e { e with arrow := a } := by
  obtain ⟨i, line, column, l, hi, hedge, rfl, hline, hname, hlink, hfound⟩ := exists_of_mem_edges he
  obtain ⟨q⟩ := Link.nonempty_parts hlink
  have hlf : '\n' ∉ line := not_mem_of_mem_ofText (List.mem_of_getElem? hi)
  refine ⟨toText ((ofText t).spliceEdgeLine (l.edge i) (arrowSpan column l) a.glyph), ?_, ?_⟩
  · have hglyph : Arrow.ofName a.glyph = .ok a := by rw [Arrow.ofName, Arrow.named?_glyph]
    rw [Command.run, Command.onLinesNamed, rearrowEdge?, hfound, hglyph]
    rfl
  · rw [ofText_toText_spliceEdgeLine hi rfl a.lineFeed_not_mem_glyph]
    exact isEdited_set hi hedge (q.edgeOn?_spell hline rfl hlf hname a i)

/-- Another label for a scanned edge changes the label of this edge and nothing else, if no label is
open at its arrow.
-/
theorem isEdited_relabelEdge (he : e ∈ (ofText t).edges) {label : Text} (hlf : '\n' ∉ label)
    (hbar : '|' ∉ label) (harrow : Arrow.occursIn label = false)
    (hbars : ∀ d ∈ Line.declarations ((ofText t).line e.line.toNat), '|' ∉ d.label)
    (hclosed : (ofText t).opensLabelAt e = false) :
    ∃ t', Command.run t (.relabelEdge e label) = .ok t' ∧
      IsEdited (ofText t) (ofText t') e { e with label := label } ∧
        ∃ column l, (ofText t').linkOf? e = some (column, l) ∧
          l.connector.label = if label.isEmpty then none else some ⟨[], label⟩ := by
  obtain ⟨i, line, column, l, hi, hedge, rfl, hline, hname, hlink, hfound⟩ := exists_of_mem_edges he
  obtain ⟨q⟩ := Link.nonempty_parts hlink
  have hplace : (ofText t).line (l.edge i).line.toNat = line := line_eq_of_getElem? hi
  rw [opensLabelAt, hfound, Option.any_some, hplace] at hclosed
  rw [hplace] at hbars
  have hlf' : '\n' ∉ line := not_mem_of_mem_ofText (List.mem_of_getElem? hi)
  obtain ⟨hline', hends⟩ :=
    q.firstEnds?_maskLabels_relabel hline rfl hlf' hbars hclosed hbar hlf harrow
  have hnew : edgeOn? ((labelPartSpan column l).splice (writeLabel label) line) i =
      some { l.edge i with label := label } := by
    have htext := Tip.text_ofEdge .plain label hbar
    rw [Tip.ofEdge] at htext
    rw [edgeOn?_of_firstEnds? hline' hends hname, htext]
    rfl
  refine ⟨toText ((ofText t).spliceEdgeLine (l.edge i) (labelPartSpan column l) (writeLabel label)),
    ?_, ?_⟩
  · rw [Command.run, Command.onLines, relabelEdge, hfound]
  rw [ofText_toText_spliceEdgeLine hi rfl (not_mem_writeLabel hlf (by decide))]
  refine ⟨isEdited_set hi hedge hnew, ?_⟩
  rw [← Link.ends_first?, Option.map_eq_some_iff] at hends
  obtain ⟨⟨column', l'⟩, hlink', hends'⟩ := hends
  obtain ⟨hsource, hends'⟩ := Prod.mk.inj hends'
  obtain ⟨hconnector, htarget⟩ := Prod.mk.inj hends'
  refine ⟨column', l',
    linkOf?_eq_some_iff.2 ⟨_, lineAt?_eq_some_iff.2 ⟨i, rfl, ?_⟩, hlink', hsource, htarget⟩, ?_⟩
  · rw [List.getElem?_set_self (List.getElem?_eq_some_iff.1 hi).1]
  · rw [hconnector]

end Buffer

/-! ## Both edits -/

namespace Command

open Buffer

/-- Another arrow for a scanned edge changes the arrow of this edge and nothing else. So does
another label that fits between bars, as long as no declared label of the line holds a bar and no
label of an arrow is open at the arrow of the edge; an empty one leaves no label part. -/
theorem isEdited_run {t : Text} {e : Edge} (he : e ∈ (ofText t).edges) :
    (∀ a : Arrow, ∃ t', run t (.rearrowEdge e a.glyph) = .ok t' ∧
      IsEdited (ofText t) (ofText t') e { e with arrow := a }) ∧
    (∀ label, '\n' ∉ label → '|' ∉ label → Arrow.occursIn label = false →
      (∀ d ∈ Line.declarations ((ofText t).line e.line.toNat), '|' ∉ d.label) →
        (ofText t).opensLabelAt e = false →
      ∃ t', run t (.relabelEdge e label) = .ok t' ∧
        IsEdited (ofText t) (ofText t') e { e with label := label } ∧
        ∃ column l, (ofText t').linkOf? e = some (column, l) ∧
          l.connector.label = if label.isEmpty then none else some ⟨[], label⟩) :=
  ⟨isEdited_rearrowEdge he,
    fun _ hlf hbar harrow hbars hclosed => isEdited_relabelEdge he hlf hbar harrow hbars hclosed⟩

/-- The first edge of a line with a group, an arrow in the label of a node and a second arrow, on
the first of two lines. -/
theorem isEdited_run_of_group :
    (⟨['A'], ['B'], ['m'], .dotted, 0⟩ : Edge) ∈
      (ofText "A -.->|m| B[x --> y] & C --> D\nB --> A".toList).edges ∧
    (∃ t', run "A -.->|m| B[x --> y] & C --> D\nB --> A".toList
        (.rearrowEdge ⟨['A'], ['B'], ['m'], .dotted, 0⟩ Arrow.thick.glyph) = .ok t' ∧
      IsEdited (ofText "A -.->|m| B[x --> y] & C --> D\nB --> A".toList) (ofText t')
        ⟨['A'], ['B'], ['m'], .dotted, 0⟩ ⟨['A'], ['B'], ['m'], .thick, 0⟩) ∧
    ∃ t', run "A -.->|m| B[x --> y] & C --> D\nB --> A".toList
        (.relabelEdge ⟨['A'], ['B'], ['m'], .dotted, 0⟩ "end] l".toList) = .ok t' ∧
      IsEdited (ofText "A -.->|m| B[x --> y] & C --> D\nB --> A".toList) (ofText t')
        ⟨['A'], ['B'], ['m'], .dotted, 0⟩ ⟨['A'], ['B'], "end] l".toList, .dotted, 0⟩ := by
  have he : (⟨['A'], ['B'], ['m'], .dotted, 0⟩ : Edge) ∈
      (ofText "A -.->|m| B[x --> y] & C --> D\nB --> A".toList).edges := by decide +kernel
  have hedited := isEdited_run he
  refine ⟨he, hedited.1 .thick, ?_⟩
  obtain ⟨t', hrun, hrelabelled, -⟩ :=
    hedited.2 "end] l".toList (by decide) (by decide) (by decide) (by decide +kernel)
    (by decide +kernel)
  exact ⟨t', hrun, hrelabelled⟩

/-- An edge that the scan reads in the label of an arrow is lost when it is labelled: its bars close
the label around it. -/
theorem edges_relabelEdge_ne :
    (ofText "A -->|x --> B| & C".toList).edges = [⟨['x'], ['B'], [], .plain, 0⟩] ∧
    Line.declarations "A -->|x --> B| & C".toList = [] ∧
    run "A -->|x --> B| & C".toList (.relabelEdge ⟨['x'], ['B'], [], .plain, 0⟩ ['l']) =
      .ok "A -->|x -->|l| B| & C".toList ∧
    (ofText "A -->|x -->|l| B| & C".toList).edges = [⟨['A'], ['l'], "x -->".toList, .plain, 0⟩] :=
  ⟨by decide +kernel, by decide +kernel, by decide +kernel, by decide +kernel⟩

end Command

end Chartwright
