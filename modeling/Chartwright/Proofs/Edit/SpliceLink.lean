import Chartwright.Proofs.Edit.DuplicateNode
import Chartwright.Proofs.Line.LinkParts
/-!
Another arrow in the line of a link.

A link is found on the masked line, and an edit of its connector is spliced into the line itself.
The line is made of the same parts as the masked one (`Link.Parts.exists_junction`), so the spliced
line is masked to the text with the other connector: always when the arrow is spelled anew
(`Link.Parts.maskLabels_spell`), and when its label is set anew as long as the line leaves no label
open before the arrow (`Link.Parts.maskLabels_relabel`).
-/
namespace Chartwright

/-! ## Bars -/

namespace Text

/-- Two texts with their bars at the same places. -/
def SameBars (t t' : Text) : Prop := t.map (· == '|') = t'.map (· == '|')

theorem SameBars.of_append {x y x' y' : Text} (h : SameBars (x ++ y) (x' ++ y'))
    (hlength : x.length = x'.length) : SameBars x x' ∧ SameBars y y' := by
  simp only [SameBars, List.map_append] at h
  exact List.append_inj h (by simpa using hlength)

theorem SameBars.mem_iff {t t' : Text} (h : SameBars t t') : '|' ∈ t ↔ '|' ∈ t' := by
  have hmem := congrArg (fun bars => true ∈ bars) h
  simpa using hmem

end Text

namespace Line

theorem cut_labelSpan {l : Line} {d : Declaration} (hd : d ∈ declarations l) :
    d.labelSpan.cut l = d.label := by
  obtain ⟨front, back, hline, hstart, -⟩ := exists_of_mem_declarations hd
  have hshape : l = (front ++ (d.id ++ d.bracket.opener)) ++
      (d.label ++ (d.bracket.closer ++ back)) := by
    rw [hline, Declaration.written]
    simp
  rw [Declaration.labelSpan_eq hstart, hshape, Span.cut_append]

/-- The masked line has the bars of the line, if no declared label holds one. -/
theorem sameBars_maskLabels {l : Line} (h : ∀ d ∈ declarations l, '|' ∉ d.label) :
    Text.SameBars l (maskLabels l) := by
  refine List.ext_getElem? fun i => ?_
  rw [List.getElem?_map, List.getElem?_map, getElem?_maskLabels, Option.map_map]
  cases hi : l[i]? with
  | none => rfl
  | some c =>
    rw [Option.map_some, Option.map_some, Option.some.injEq, Function.comp_apply]
    split
    · next hany =>
      -- a bar here would stand in a declared label
      obtain ⟨span, hspan, hcontains⟩ := List.any_eq_true.1 hany
      obtain ⟨d, hd, rfl⟩ := List.mem_map.1 hspan
      have hmem : c ∈ d.label := by
        simp only [Span.contains, Bool.and_eq_true, decide_eq_true_eq] at hcontains
        rw [← cut_labelSpan hd, Span.cut]
        refine List.mem_of_getElem? (i := i - d.labelSpan.start) ?_
        rw [List.getElem?_drop, Nat.add_sub_cancel' hcontains.1,
          List.getElem?_take_of_lt hcontains.2, hi]
      have hbar : c ≠ '|' := by
        rintro rfl
        exact h d hd hmem
      rw [beq_eq_false_iff_ne.2 hbar]
      rfl
    · rfl

/-- A label that the masked line leaves open is open on the line, if the bars are the same. -/
theorem leavesOpen_of_shows {x y : Text} (h : Chain.Shows x y) (hbars : Text.SameBars x y)
    (hopen : leavesOpen y = true) : leavesOpen x = true := by
  obtain ⟨s, ⟨front, rfl⟩, hs⟩ := leavesOpen_iff.1 hopen
  obtain ⟨arrow, gap, text, hspelling, hgap, hbar, rfl⟩ := opensLabel_iff.1 hs
  obtain ⟨front', s', rfl, hfront, -, hshown⟩ := h.exists_append
  have hsame := (hbars.of_append hfront).2
  have hhead : '\x00' ∉ arrow ++ (gap ++ ['|']) := by
    simp only [List.mem_append, List.mem_singleton, not_or]
    exact ⟨hspelling.not_mem (by decide), Chain.nul_not_mem_of_isBlank hgap, by decide⟩
  have hparts : arrow ++ (gap ++ (['|'] ++ text)) = arrow ++ (gap ++ ['|']) ++ text := by simp
  rw [hparts] at hshown hsame
  obtain ⟨text', rfl, -⟩ := hshown.exists_eq_append hhead
  have htext := (hsame.of_append rfl).2
  refine leavesOpen_iff.2
    ⟨_, List.suffix_append .., opensLabel_iff.2 ⟨arrow, gap, text', hspelling, hgap, ?_, by simp⟩⟩
  rwa [htext.mem_iff]

theorem leavesOpen_append {x y : Text} (h : leavesOpen x = true) (hbar : '|' ∉ y) :
    leavesOpen (x ++ y) = true := by
  obtain ⟨s, ⟨front, rfl⟩, hs⟩ := leavesOpen_iff.1 h
  obtain ⟨arrow, gap, text, hspelling, hgap, htext, rfl⟩ := opensLabel_iff.1 hs
  rw [List.append_assoc]
  refine leavesOpen_iff.2
    ⟨_, List.suffix_append .., opensLabel_iff.2 ⟨arrow, gap, text ++ y, hspelling, hgap, ?_, ?_⟩⟩
  · rw [List.mem_append, not_or]
    exact ⟨htext, hbar⟩
  · simp only [List.append_assoc]

end Line

/-! ## Arrows in place of others -/

/-- A text that begins as arrows do. -/
def Text.StartsArrow (t : Text) : Prop := ∃ c cs, t = c :: cs ∧ (c = '-' ∨ c = '=')

namespace Tip

/-- An arrow with another label, or with none. -/
def relabel (p : Tip) (label : Text) (h : '|' ∉ label) : Tip :=
  { Tip.ofEdge .plain label h with spelling := p.spelling, spelled := p.spelled }

theorem written_relabel (p : Tip) (label : Text) (h : '|' ∉ label) :
    (p.relabel label h).written = p.spelling ++ Buffer.writeLabel label :=
  congrArg (p.spelling ++ ·) (labelled_ofEdge .plain label h)

theorem startsArrow_written (p : Tip) : Text.StartsArrow p.written := by
  have h := p.head []
  rw [List.append_nil] at h
  exact h

/-- A label that a masked copy of a line shows is one on the line, if the bars are the same. -/
theorem exists_labelled (p : Tip) {t m : Text} (h : Chain.Shows t (p.labelled (fun t => t) ++ m))
    (hbars : Text.SameBars t (p.labelled (fun t => t) ++ m)) :
    ∃ (p' : Tip) (t' : Text), p'.spelling = p.spelling ∧ t = p'.labelled (fun t => t) ++ t' ∧
      (p'.labelled fun t => t).length = (p.labelled fun t => t).length ∧ Chain.Shows t' m := by
  cases hlabel : p.label with
  | none =>
    have hnil : p.labelled (fun t => t) = [] := by simp [labelled, hlabel]
    rw [hnil] at h
    exact ⟨p, t, rfl, by rw [hnil]; rfl, rfl, h⟩
  | some label =>
    obtain ⟨hgap, hbar⟩ := p.label_read label hlabel
    have hlabelled : p.labelled (fun t => t) = label.gap ++ (['|'] ++ label.text ++ ['|']) := by
      simp [labelled, hlabel]
    have hparts : p.labelled (fun t => t) ++ m =
        (label.gap ++ ['|']) ++ (label.text ++ (['|'] ++ m)) := by
      rw [hlabelled]
      simp
    rw [hparts] at h hbars
    have hopen : '\x00' ∉ label.gap ++ ['|'] := by
      rw [List.mem_append, not_or]
      exact ⟨Chain.nul_not_mem_of_isBlank hgap, by decide⟩
    obtain ⟨rest, rfl, hrest⟩ := h.exists_eq_append hopen
    obtain ⟨text, rest', rfl, hlength, -, hrest'⟩ := hrest.exists_append
    obtain ⟨t', rfl, ht'⟩ := hrest'.exists_eq_append (y := ['|']) (by decide)
    have htext : '|' ∉ text := by rwa [((hbars.of_append rfl).2.of_append hlength).1.mem_iff]
    let p' : Tip := ⟨p.spelling, some ⟨label.gap, text⟩, p.spelled, fun l hl =>
      Option.some.inj hl ▸ ⟨hgap, htext⟩⟩
    have hlabelled' : p'.labelled (fun t => t) = label.gap ++ (['|'] ++ text ++ ['|']) := rfl
    refine ⟨p', t', rfl, ?_, ?_, ht'⟩
    · rw [hlabelled']
      simp
    · rw [hlabelled, hlabelled']
      simp [hlength]

end Tip

/-- With another arrow in place a line is no directive either, and the masked line shows it where it
showed the old one.
-/
theorem Junction.maskLabels_fill {s : Junction} {x x' shown front back : Text}
    (hline : Line.isDirective (s.fill x) = false) (hx : x.StartsArrow) (hx' : x'.StartsArrow)
    {u v : Text} (hu : u.length = s.head.length) (h : s.Masks u v x) (h' : s.Masks u v x')
    (hfront : front.length = s.head.length) (hshown : shown.StartsArrow)
    (hwidth : shown.length = x.length)
    (hmasked : Line.maskLabels (s.fill x) = front ++ (shown ++ back)) :
    Line.isDirective (s.fill x') = false ∧ Line.maskLabels (s.fill x') = front ++ (x' ++ back) := by
  have hline' : Line.isDirective (s.fill x') = false := by
    obtain ⟨c, cs, rfl, hc⟩ := hx
    obtain ⟨c', cs', rfl, hc'⟩ := hx'
    rw [← s.isDirective_fill hc hc' cs cs', hline]
  refine ⟨hline', ?_⟩
  obtain ⟨c, cs, rfl, hc⟩ := hshown
  have hnul : c ≠ '\x00' := by rcases hc with rfl | rfl <;> decide
  rw [Line.maskLabels_eq_filled hline] at hmasked
  rw [Line.maskLabels_eq_filled hline', h.filled_fill hu h' hfront hwidth hmasked hnul]

/-! ## The line of a link -/

namespace Link.Parts

variable {t : Text} {column : Nat} {l : Link} (q : Parts t column l)

theorem arrow_eq : l.connector.arrow = q.tip.spelling := congrArg Connector.arrow q.connector_eq

/-- The text before the arrow of the link. -/
def head : Text := q.word ++ l.connector.gap

/-- The text behind the arrow and its label. -/
def tail : Text := l.connector.space ++ (l.target ++ q.rest)

theorem write_eq (p : Tip) : q.write p = q.head ++ (p.written ++ q.tail) := by
  rw [write, behind, head, tail, List.append_assoc]

theorem arrowSpan_eq :
    Buffer.arrowSpan column l = ⟨q.head.length, q.head.length + q.tip.spelling.length⟩ := by
  simp [Buffer.arrowSpan, head, word, q.length_front, q.arrow_eq, Nat.add_assoc]

theorem labelPartSpan_eq : Buffer.labelPartSpan column l = ⟨(q.head ++ q.tip.spelling).length,
    (q.head ++ q.tip.spelling).length + (q.tip.labelled fun t => t).length⟩ := by
  have hlabel : l.connector.labelPart = q.tip.labelled fun t => t :=
    (congrArg Connector.labelPart q.connector_eq).trans (q.tip.labelPart_connector ..)
  rw [Buffer.labelPartSpan, q.arrowSpan_eq, hlabel, List.length_append]

/-- The line of a link is made of the parts that the masked line shows. -/
theorem exists_junction {line : Line} (h : Line.maskLabels line = t) :
    ∃ s : Junction, line = s.fill q.tip.spelling ∧ s.gap = l.connector.gap ∧
      s.head.length = q.head.length ∧ Chain.Shows (s.front ++ [s.last]) q.word ∧
        Chain.Shows s.back (q.tip.labelled (fun t => t) ++ q.tail) := by
  obtain ⟨front, c, hword, hc⟩ := q.exists_word_eq
  obtain ⟨hfirm, hnul⟩ := isFirm_of_isLast hc
  have hmasked : Line.maskLabels line = front ++ (([c] ++ (l.connector.gap ++ q.tip.spelling)) ++
      (q.tip.labelled (fun t => t) ++ q.tail)) := by
    refine h.trans (q.write_tip.symm.trans ?_)
    rw [q.write_eq, head, hword, Tip.written]
    simp
  have hshows := hmasked ▸ Line.shows_maskLabels line
  obtain ⟨x, y, rfl, hx, hfront, hrest⟩ := hshows.exists_append
  have hmiddle : '\x00' ∉ [c] ++ (l.connector.gap ++ q.tip.spelling) := by
    simp only [List.mem_append, List.mem_singleton, not_or]
    exact ⟨Ne.symm hnul, Chain.nul_not_mem_of_isBlank q.gap_blank,
      q.tip.spelled.not_mem (by decide)⟩
  obtain ⟨back, rfl, hback⟩ := hrest.exists_eq_append hmiddle
  refine ⟨⟨x, c, l.connector.gap, back, hfirm, q.gap_blank⟩, ?_, rfl, ?_, ?_, hback⟩
  · simp [Junction.fill, Junction.head]
  · simp [Junction.head, head, hword, hx]
  · rw [hword]
    exact hfront.append ⟨.inl rfl, trivial⟩

/-- The line with its arrow spelled anew is masked as the masked line with its arrow spelled
anew. -/
theorem maskLabels_spell {line : Line} (hline : Line.isDirective line = false)
    (hmasked : Line.maskLabels line = t) {spelling : Text} (h : Arrow.Spelling spelling) :
    Line.isDirective ((Buffer.arrowSpan column l).splice spelling line) = false ∧
      Line.maskLabels ((Buffer.arrowSpan column l).splice spelling line) =
        q.write { q.tip with spelling := spelling, spelled := h } := by
  obtain ⟨s, rfl, -, hhead, -, -⟩ := q.exists_junction hmasked
  have hsplice : (Buffer.arrowSpan column l).splice spelling (s.fill q.tip.spelling) =
      s.fill spelling := by
    rw [q.arrowSpan_eq, ← hhead]
    exact Span.splice_append ..
  obtain ⟨u, v, hu, hmasks⟩ := s.exists_masks
  have hshown : Line.maskLabels (s.fill q.tip.spelling) =
      q.head ++ (q.tip.spelling ++ (q.tip.labelled (fun t => t) ++ q.tail)) := by
    refine hmasked.trans (q.write_tip.symm.trans ?_)
    rw [q.write_eq, Tip.written, List.append_assoc]
  have hfill := Junction.maskLabels_fill hline q.tip.spelled.head h.head hu (hmasks _ q.tip.spelled)
    (hmasks _ h) hhead.symm q.tip.spelled.head rfl hshown
  rw [hsplice]
  refine ⟨hfill.1, hfill.2.trans ?_⟩
  rw [q.write_eq, Tip.written, List.append_assoc]
  rfl

theorem edgeLabel_read?_of_shows {back : Text} (h : Chain.Shows back q.tail) :
    EdgeLabel.read? back = none := by
  have hvalid := Identifier.valid_of_read? q.target_read
  have hnul : '\x00' ∉ l.connector.space ++ l.target := by
    rw [List.mem_append, not_or]
    exact ⟨Chain.nul_not_mem_of_isBlank q.space_blank,
      Identifier.not_mem_of_valid hvalid (by decide)⟩
  rw [tail, ← List.append_assoc] at h
  obtain ⟨rest, rfl, -⟩ := h.exists_eq_append hnul
  refine EdgeLabel.read?_of_stops ?_
  rw [List.append_assoc,
    Text.trimLeft_append q.space_blank (Identifier.stops_isBlank_append hvalid rest)]
  refine Identifier.stops_append hvalid (fun c hc => ?_) rest
  rw [beq_eq_false_iff_ne]
  exact Identifier.ne_of_isChar hc (by decide)

/-- A line with the bars of the masked one is made of the same parts, the label of the arrow
included. -/
theorem exists_labelled_junction {line : Line} (hmasked : Line.maskLabels line = t)
    (hbars : Text.SameBars line (q.write q.tip)) :
    ∃ (s : Junction) (p : Tip), line = s.fill p.written ∧ p.spelling = q.tip.spelling ∧
      (p.labelled fun t => t).length = (q.tip.labelled fun t => t).length ∧
      s.head.length = q.head.length ∧
      EdgeLabel.read? s.back = none ∧ Chain.Shows (s.front ++ [s.last]) q.word ∧
      Text.SameBars (s.front ++ [s.last]) q.word := by
  obtain ⟨s, rfl, hgap, hhead, hword, hback⟩ := q.exists_junction hmasked
  have hsame : Text.SameBars ((s.front ++ [s.last]) ++ (s.gap ++ q.tip.spelling ++ s.back))
      (q.word ++ (l.connector.gap ++ q.tip.spelling ++
        (q.tip.labelled (fun t => t) ++ q.tail))) := by
    simpa [Junction.fill, Junction.head, q.write_eq, head, Tip.written] using hbars
  obtain ⟨hsameWord, hsameRest⟩ := hsame.of_append hword.length_eq
  obtain ⟨p, back, hspelling, hlabelled, hlength, hshown⟩ :=
    q.tip.exists_labelled hback (hsameRest.of_append (by rw [hgap])).2
  refine ⟨{ s with back := back }, p, ?_, hspelling, hlength, hhead,
    q.edgeLabel_read?_of_shows hshown, hword,
    hsameWord⟩
  rw [Junction.fill, hlabelled, ← hspelling, ← List.append_assoc p.spelling]
  rfl

/-- The line with the label of its arrow set anew is masked as the masked line with this label, if
no declared label holds a bar and no label is open before the arrow. -/
theorem maskLabels_relabel {line : Line} (hline : Line.isDirective line = false)
    (hmasked : Line.maskLabels line = t) (hbars : Text.SameBars line (q.write q.tip))
    (hclosed : Line.leavesOpen (line.take (Buffer.arrowSpan column l).start) = false)
    {label : Text} (hlabel : '|' ∉ label) :
    Line.isDirective ((Buffer.labelPartSpan column l).splice (Buffer.writeLabel label) line) =
      false ∧ Line.maskLabels
        ((Buffer.labelPartSpan column l).splice (Buffer.writeLabel label) line) =
        q.write (q.tip.relabel label hlabel) ∧
      Line.leavesOpen q.word = false := by
  obtain ⟨s, p, rfl, hspelling, hlength, hhead, hback, hword, hsame⟩ :=
    q.exists_labelled_junction hmasked hbars
  have hsplice : (Buffer.labelPartSpan column l).splice (Buffer.writeLabel label)
      (s.fill p.written) = s.fill (q.tip.relabel label hlabel).written := by
    have hparts : ∀ label : Text,
        s.fill (p.spelling ++ label) = (s.head ++ p.spelling) ++ (label ++ s.back) := by
      intro label
      rw [Junction.fill, List.append_assoc, List.append_assoc]
    have hspan : Buffer.labelPartSpan column l = ⟨(s.head ++ p.spelling).length,
        (s.head ++ p.spelling).length + (p.labelled fun t => t).length⟩ := by
      rw [q.labelPartSpan_eq, List.length_append, List.length_append, hhead, hspelling, hlength]
    rw [Tip.written_relabel, ← hspelling, hparts, Tip.written, hparts, hspan, Span.splice_append]
  -- a label that is open further left is open at the arrow
  rw [q.arrowSpan_eq, ← hhead, Junction.fill, List.take_left, Junction.head] at hclosed
  have hgap : '|' ∉ s.gap := Text.not_mem_of_isBlank s.gap_blank (by decide)
  have hfront : Line.leavesOpen s.front = false := by
    refine Bool.eq_false_iff.2 fun hopen => ?_
    have hbar : '|' ∉ s.last :: s.gap := by
      rw [List.mem_cons, not_or]
      exact ⟨Ne.symm (s.last_ne (by decide)), hgap⟩
    rw [Line.leavesOpen_append hopen hbar] at hclosed
    cases hclosed
  have hopen : Line.leavesOpen q.word = false := by
    refine Bool.eq_false_iff.2 fun hopen => ?_
    have hlong := Line.leavesOpen_append (Line.leavesOpen_of_shows hword hsame hopen) hgap
    rw [List.append_assoc, List.singleton_append, hclosed] at hlong
    cases hlong
  have hmasks := s.masks_written hfront hback
  have hwidth : q.tip.written.length = p.written.length := by
    rw [Tip.written, Tip.written, List.length_append, List.length_append, hlength, hspelling]
  obtain ⟨hline', hmasked'⟩ := Junction.maskLabels_fill hline p.startsArrow_written
    (q.tip.relabel label hlabel).startsArrow_written (Line.length_maskEdgeLabels _) (hmasks p)
      (hmasks _) hhead.symm
    q.tip.startsArrow_written hwidth (hmasked.trans (q.write_tip.symm.trans (q.write_eq _)))
  rw [hsplice, q.write_eq]
  exact ⟨hline', hmasked', hopen⟩

end Link.Parts
end Chartwright
