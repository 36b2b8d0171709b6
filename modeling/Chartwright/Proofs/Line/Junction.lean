import Chartwright.Proofs.Line.Barrier
import Chartwright.Proofs.Line.Relabel
import Chartwright.Proofs.Line.RowOfTokens
/-!
Lines around an arrow.

A junction is a line without the arrow of its link, or without the arrow and its label: what stands
before it, up to a firm character and blanks, and what stands behind it. Whatever arrow is put
there, the masked line is the same on both sides, and shows the arrow or blanks in its place
(`Junction.exists_masks`); for an arrow with a label this needs that no label is open where the
arrow starts (`Junction.masks_written`). So the filled line is the same on both sides too
(`Junction.Masks.exists_filled`), and it is no directive either (`Junction.isDirective_fill`).
-/
namespace Chartwright

theorem Text.hide_around {filler : Char} {before behind : List Span} {x : Text}
    (h : ∀ s ∈ before, s.stop ≤ x.length) (y z : Text) :
    hide filler (before ++ behind.map (Span.shift (x.length + y.length))) (x ++ (y ++ z)) =
      hide filler before x ++ (y ++ hide filler behind z) := by
  have hstretch : hide filler (before ++ ([] : List Span).map (Span.shift x.length)) (x ++ y) =
      hide filler before x ++ y := by
    rw [hide_parts h, hide_nil]
  rw [List.map_nil, List.append_nil] at hstretch
  rw [← List.length_append, ← List.append_assoc, hide_parts, hstretch, List.append_assoc]
  intro s hs
  rw [List.length_append]
  exact Nat.le_trans (h s hs) (Nat.le_add_right _ _)

namespace Line

theorem filled_eq (line : Line) :
    filled line = Text.hide '\x00'
      (Declaration.labels (Declaration.readFrom none 0 0 (maskEdgeLabels line))) line := by
  rw [filled, shown, List.map_map, Declaration.labels]
  congr 1
  refine List.map_congr_left fun d hd => ?_
  exact Declaration.labelSpan_withLabelOf (labelStop_le_of_mem_readFrom (List.mem_filter.1 hd).1)

theorem isDirective_append_arrow {x : Text} (hx : Text.trimLeft x ≠ []) {c : Char}
    (hc : c = '-' ∨ c = '=') (y : Text) :
    isDirective (x ++ c :: y) = beginsDirective (Text.trimLeft x) := by
  have hplain : c ≠ '%' ∧ Text.isBlank c = false ∧ Keyword.isLetter c = false ∧ c ≠ '[' := by
    rcases hc with rfl | rfl <;> decide
  exact isDirective_append_cons hx hplain.1 hplain.2.1 hplain.2.2.1
    (fun hsquare => absurd hsquare hplain.2.2.2) y

/-- An arrow with a bar behind it starts a text, and no bar closes its label. -/
def opensLabel (t : Text) : Bool :=
  match Arrow.read? t with
  | none => false
  | some (_, rest) =>
    match Text.after? ['|'] (Text.trimLeft rest) with
    | none => false
    | some inside => !inside.contains '|'

/-- At the end of a text the label of an arrow in it is still open. -/
def leavesOpen : Text → Bool
  | [] => false
  | c :: cs => opensLabel (c :: cs) || leavesOpen cs

theorem opensLabel_iff {t : Text} : opensLabel t = true ↔ ∃ arrow gap text, Arrow.Spelling arrow ∧
    (∀ c ∈ gap, Text.isBlank c = true) ∧ '|' ∉ text ∧ t = arrow ++ (gap ++ (['|'] ++ text)) := by
  constructor
  · intro h
    unfold opensLabel at h
    split at h
    · cases h
    · next arrow rest harrow =>
      obtain ⟨hspelling, rfl⟩ := Arrow.read?_eq_some_iff.1 harrow
      split at h
      · cases h
      · next text hbar =>
        refine ⟨arrow, Text.blanks rest, text, hspelling, fun c =>
          Text.isBlank_of_mem_blanks, by simpa using h, ?_⟩
        rw [← Text.after?_eq_some_iff.1 hbar, Text.blanks_append_trimLeft]
  · rintro ⟨arrow, gap, text, hspelling, hgap, hbar, rfl⟩
    have hstops : Text.Stops Text.isBlank (['|'] ++ text) := Text.stops_cons.2 (by decide)
    simp only [opensLabel, hspelling.read?_append, Text.trimLeft_append hgap hstops,
      Text.after?_append]
    simpa using hbar

theorem leavesOpen_iff {x : Text} : leavesOpen x = true ↔ ∃ s, s <:+ x ∧ opensLabel s = true := by
  induction x with
  | nil => simp [leavesOpen, show opensLabel [] = false from rfl]
  | cons c cs ih =>
    rw [leavesOpen, Bool.or_eq_true, ih]
    constructor
    · rintro (h | ⟨s, hs, h⟩)
      · exact ⟨c :: cs, List.suffix_rfl, h⟩
      · exact ⟨s, hs.trans (List.suffix_cons c cs), h⟩
    · rintro ⟨s, hs, h⟩
      rcases List.suffix_cons_iff.1 hs with rfl | hs
      · exact .inl h
      · exact .inr ⟨s, hs, h⟩

theorem confined_of_not_leavesOpen {x y : Text} (h : leavesOpen x = false)
    (hy : Text.Stops (fun c => !isFirm c) y) : Text.Confined edgeLabelAt y 0 x := by
  refine Classical.byContradiction fun hnot => ?_
  obtain ⟨front, back, found, rfl, -, -, hfound, hcross⟩ :=
    Text.exists_of_not_confined (Nat.zero_le _) hnot
  obtain ⟨arrow, gap, text, hspelling, hgap, hbar, hback, -, -⟩ :=
    exists_open_of_edgeLabelAt hy hfound hcross
  have hopen : leavesOpen (front ++ back) = true :=
    leavesOpen_iff.2 ⟨back, List.suffix_append front back,
      opensLabel_iff.2 ⟨arrow, gap, text, hspelling, hgap, hbar, hback⟩⟩
  rw [h] at hopen
  cases hopen

theorem exists_edgeLabelAt_append {x y z : Text} (hz : Text.Stops (fun c => !isFirm c) z)
    (hbar : '|' ∈ y) {found : Span × Nat} (h : edgeLabelAt (x ++ z) = some found) :
    ∃ other, edgeLabelAt (x ++ y) = some other ∧ (other = found ∨ x.length < other.2) := by
  rcases Nat.lt_or_ge x.length found.2 with hcross | hin
  · obtain ⟨arrow, gap, text, hspelling, hgap, htext, rfl, -, -⟩ :=
      exists_open_of_edgeLabelAt hz h hcross
    obtain ⟨other, hother, hlong⟩ := exists_edgeLabelAt_of_open hspelling hgap htext hbar
    exact ⟨other, hother, .inr hlong⟩
  · exact ⟨found, edgeLabelAt_isLocal.extend y (edgeLabelAt_isLocal.cut h hin), .inl rfl⟩

end Line

/-! ## Arrows with a label -/

namespace Tip

theorem barrier_blanked (p : Tip) : Barrier p.blanked := by
  refine .arrow_append p.spelled fun c hc => p.isFirm_of_mem_blanked c ?_
  exact List.mem_append_right _ hc

/-- A text that stands behind an arrow of any spelling is the label of the arrow, or nothing, and a
rest. -/
theorem exists_written_append (t : Text) :
    ∃ p : Tip, ∃ rest, (p.label = none → EdgeLabel.read? rest = none) ∧
      ∀ {arrow} (h : Arrow.Spelling arrow),
      arrow ++ t = { p with spelling := arrow, spelled := h : Tip }.written ++ rest := by
  have hplain : Arrow.Spelling Arrow.plain.glyph := .plain 0
  cases hread : EdgeLabel.read? t with
  | none =>
    refine ⟨⟨Arrow.plain.glyph, none, hplain, by simp⟩, t, fun _ => hread, fun h => ?_⟩
    simp [written, labelled]
  | some found =>
    obtain ⟨label, rest⟩ := found
    obtain rfl := EdgeLabel.eq_of_read? hread
    have hparts := EdgeLabel.of_read? hread
    refine ⟨⟨Arrow.plain.glyph, some label, hplain, fun l hl => Option.some.inj hl ▸ hparts⟩, rest,
      ?_, fun h => ?_⟩
    · rintro ⟨⟩
    · simp [written, labelled, EdgeLabel.written]

end Tip

/-- Behind an arrow a line is masked the same however the arrow is spelled. -/
theorem Line.exists_maskEdgeLabels_arrow (t : Text) :
    ∃ masked, ∀ arrow, Arrow.Spelling arrow → maskEdgeLabels (arrow ++ t) = arrow ++ masked := by
  obtain ⟨p, rest, hlabel, ht⟩ := Tip.exists_written_append t
  refine ⟨p.labelled (fun t => List.replicate t.length ' ') ++ maskEdgeLabels rest,
    fun arrow h => ?_⟩
  have hmask := Tip.maskEdgeLabels_written { p with spelling := arrow, spelled := h } hlabel
  rw [ht h, hmask, Tip.blanked, List.append_assoc]
  rfl

/-! ## Junctions -/

/-- A line without an arrow: what stands before it, up to a character that is firm and blanks behind
that, and what stands behind it. -/
structure Junction where
  front : Text
  last : Char
  gap : Text
  back : Text
  last_firm : Line.isFirm last = true
  gap_blank : ∀ c ∈ gap, Text.isBlank c = true

namespace Junction

variable (s : Junction)

/-- The line up to the arrow. -/
def head : Text := s.front ++ s.last :: s.gap

/-- The line with an arrow in place. -/
def fill (arrow : Text) : Line := s.head ++ (arrow ++ s.back)

variable {s}

theorem stops_last (y : Text) : Text.Stops (fun c => !Line.isFirm c) (s.last :: y) := by
  rw [Text.stops_cons, s.last_firm]
  rfl

theorem last_ne {c : Char} (hc : Line.isFirm c = false) : s.last ≠ c := by
  intro heq
  have hfirm := s.last_firm
  rw [heq, hc] at hfirm
  cases hfirm

/-- A line is masked part by part at the arrow, if no label runs over the last character before
it. -/
theorem maskEdgeLabels_append {y : Text}
    (h : Text.Confined Line.edgeLabelAt (s.last :: (s.gap ++ y)) 0 s.front)
    (hy : Text.Stops Line.isSuffixChar y) :
    Line.maskEdgeLabels (s.head ++ y) = Line.maskEdgeLabels s.head ++ Line.maskEdgeLabels y := by
  have hfree : Line.NoArrow (s.last :: s.gap) := by
    intro c hc
    rcases List.mem_cons.1 hc with rfl | hc
    · exact ⟨s.last_ne (by decide), s.last_ne (by decide)⟩
    · exact Text.noArrow_of_isBlank s.gap_blank c hc
  refine Line.maskEdgeLabels_append (Line.Parts.of_confined ?_ hy)
  exact Text.Confined.append (y := s.last :: s.gap) h (Nat.zero_le _)
    (Line.confined_of_noArrow hfree y)

/-- The masked line shows a barrier for what is in place, between `u` and `v`. -/
def Masks (s : Junction) (u v arrow : Text) : Prop :=
  ∃ barrier, Barrier barrier ∧ barrier.length = arrow.length ∧
    Line.maskEdgeLabels (s.fill arrow) = u ++ (barrier ++ v)

theorem stops_arrow {arrow : Text} (h : Arrow.Spelling arrow) {p : Char → Bool}
    (hdash : p '-' = false) (hequal : p '=' = false) (y : Text) : Text.Stops p (arrow ++ y) := by
  obtain ⟨c, cs, rfl, hc⟩ := h.head
  rcases hc with rfl | rfl
  · exact Text.stops_cons.2 hdash
  · exact Text.stops_cons.2 hequal

theorem confined_arrow {back arrow : Text} (harrow : Arrow.Spelling arrow)
    (h : Text.Confined Line.edgeLabelAt (s.last :: back) 0 s.front) :
    Text.Confined Line.edgeLabelAt (s.last :: (s.gap ++ (arrow ++ back))) 0 s.front := by
  refine Line.confined_of_bars (stops_last _) (fun hbar => ?_) h
  rw [List.mem_cons, List.mem_append, List.mem_append] at hbar
  rcases hbar with heq | hbar | hbar | hbar
  · exact absurd heq.symm (s.last_ne (by decide))
  · exact absurd hbar (Text.not_mem_of_isBlank s.gap_blank (by decide))
  · exact absurd hbar (harrow.not_mem (by decide))
  · exact List.mem_cons_of_mem _ hbar

/-- The label of an arrow that begins before the last character and ends behind it. -/
structure Overrun (s : Junction) where
  before : Text
  opening : Text
  space : Text
  text : Text
  inside : Text
  rest : Text
  front_eq : s.front = before ++ (opening ++ (space ++ (['|'] ++ text)))
  back_eq : s.back = inside ++ '|' :: rest
  opening_spelled : Arrow.Spelling opening
  space_blank : ∀ c ∈ space, Text.isBlank c = true
  text_bar : '|' ∉ text
  inside_bar : '|' ∉ inside
  confined : Text.Confined Line.edgeLabelAt
      (opening ++ (space ++ (['|'] ++ text)) ++ s.last :: s.back) 0 before

theorem nonempty_overrun (h : ¬ Text.Confined Line.edgeLabelAt (s.last :: s.back) 0 s.front) :
    Nonempty s.Overrun := by
  obtain ⟨before, opened, found, hfront, -, hconfined, hfound, hcross⟩ :=
    Text.exists_of_not_confined (Nat.zero_le _) h
  obtain ⟨opening, space, text, hspelling, hspace, htext, rfl, hbar, -⟩ :=
    Line.exists_open_of_edgeLabelAt (stops_last _) hfound hcross
  obtain ⟨inside, rest, hback, hinside⟩ := List.eq_append_cons_of_mem
    ((List.mem_cons.1 hbar).resolve_left fun heq => s.last_ne (by decide) heq.symm)
  exact ⟨⟨before, opening, space, text, inside, rest, hfront, hback, hspelling, hspace, htext,
    hinside, hconfined⟩⟩

namespace Overrun

variable (o : s.Overrun) {arrow : Text} (h : Arrow.Spelling arrow)

/-- The arrow with the label, in which the other arrow stands. -/
def box : Tip where
  spelling := o.opening
  label := some ⟨o.space, o.text ++ s.last :: (s.gap ++ (arrow ++ o.inside))⟩
  spelled := o.opening_spelled
  label_read := by
    rintro l ⟨⟩
    refine ⟨o.space_blank, ?_⟩
    simp only [List.mem_append, List.mem_cons, not_or]
    exact ⟨o.text_bar, Ne.symm (s.last_ne (by decide)),
      Text.not_mem_of_isBlank s.gap_blank (by decide),
      h.not_mem (by decide), o.inside_bar⟩

theorem fill_eq : s.fill arrow = o.before ++ ((o.box h).written ++ o.rest) := by
  rw [fill, head, o.front_eq, o.back_eq]
  simp [box, Tip.written, Tip.labelled]

/-- The label begins where it does whatever stands in it. -/
theorem confined_box : Text.Confined Line.edgeLabelAt ((o.box h).written ++ o.rest) 0 o.before := by
  have hparts : (o.box h).written ++ o.rest =
      o.opening ++ (o.space ++ (['|'] ++ o.text)) ++ s.last :: (s.gap ++ (arrow ++ s.back)) := by
    rw [o.back_eq]
    simp [box, Tip.written, Tip.labelled]
  have hbar : '|' ∈ s.last :: s.back := by
    rw [o.back_eq]
    simp
  rw [hparts]
  refine o.confined.of_crossing Line.edgeLabelAt_isLocal fun t _ found hread hwide => ?_
  rw [← List.append_assoc] at hread
  obtain ⟨other, hother, hlong⟩ := Line.exists_edgeLabelAt_append (s.stops_last _) hbar hread
  rw [List.append_assoc] at hother
  refine ⟨other, hother, ?_⟩
  rcases hlong with rfl | hlong
  · exact hwide
  · rw [List.length_append] at hlong
    omega

theorem blanked_box : (o.box h).blanked =
    o.opening ++ o.space ++ List.replicate (o.text.length + 1 + (s.gap.length + 1)) ' ' ++
      (List.replicate arrow.length ' ' ++ List.replicate (o.inside.length + 1) ' ') := by
  have hspaces : List.replicate
      (['|'] ++ (o.text ++ s.last :: (s.gap ++ (arrow ++ o.inside))) ++ ['|']).length ' ' =
      List.replicate (o.text.length + 1 + (s.gap.length + 1)) ' ' ++
        (List.replicate arrow.length ' ' ++ List.replicate (o.inside.length + 1) ' ') := by
    rw [List.replicate_append_replicate, List.replicate_append_replicate]
    congr 1
    simp only [List.length_append, List.length_cons, List.length_nil]
    omega
  show o.opening ++ (o.space ++ List.replicate _ ' ') = _
  rw [hspaces]
  simp only [List.append_assoc]

include h in
theorem maskEdgeLabels_fill : Line.maskEdgeLabels (s.fill arrow) =
    Line.maskEdgeLabels o.before ++ (o.opening ++ o.space) ++
        List.replicate (o.text.length + 1 + (s.gap.length + 1)) ' ' ++
      (List.replicate arrow.length ' ' ++
        (List.replicate (o.inside.length + 1) ' ' ++ Line.maskEdgeLabels o.rest)) := by
  have hstops : Text.Stops Line.isSuffixChar ((o.box h).written ++ o.rest) := by
    rw [Tip.written, List.append_assoc]
    exact stops_arrow (o.box h).spelled (by decide) (by decide) _
  rw [o.fill_eq h, Line.maskEdgeLabels_append (.of_confined (o.confined_box h) hstops),
    (o.box h).maskEdgeLabels_written (by rintro ⟨⟩), o.blanked_box h]
  simp only [List.append_assoc]

end Overrun

/-- A label that runs over the last character before an arrow runs over the arrow too, whatever its
spelling. -/
theorem Overrun.exists_masks (o : s.Overrun) :
    ∃ u v, u.length = s.head.length ∧ ∀ arrow, Arrow.Spelling arrow → s.Masks u v arrow := by
  refine ⟨_, _, ?_, fun arrow h =>
    ⟨List.replicate arrow.length ' ', .spaces ?_, List.length_replicate,
    o.maskEdgeLabels_fill h⟩⟩
  · rw [head, o.front_eq]
    simp only [List.length_append, Line.length_maskEdgeLabels, List.length_replicate,
      List.length_cons, List.length_nil]
    omega
  · obtain ⟨c, cs, rfl, -⟩ := h.head
    simp

/-- The masked line is the same on both sides of an arrow, whatever its spelling. -/
theorem exists_masks (s : Junction) :
    ∃ u v, u.length = s.head.length ∧ ∀ arrow, Arrow.Spelling arrow → s.Masks u v arrow := by
  by_cases h : Text.Confined Line.edgeLabelAt (s.last :: s.back) 0 s.front
  · obtain ⟨masked, hmasked⟩ := Line.exists_maskEdgeLabels_arrow s.back
    refine ⟨Line.maskEdgeLabels s.head, masked, Line.length_maskEdgeLabels _,
      fun arrow harrow => ?_⟩
    refine ⟨arrow, ?_, rfl, ?_⟩
    · rw [← List.append_nil arrow]
      exact .arrow_append harrow (List.forall_mem_nil _)
    · rw [fill, maskEdgeLabels_append (confined_arrow harrow h)
          (stops_arrow harrow (by decide) (by decide) _),
        hmasked arrow harrow]
  · obtain ⟨o⟩ := nonempty_overrun h
    exact o.exists_masks

/-- The masked line is the same on both sides of an arrow with its label, whatever these are, if no
label is open before it. -/
theorem masks_written (hclosed : Line.leavesOpen s.front = false)
    (hback : EdgeLabel.read? s.back = none) (p : Tip) :
    s.Masks (Line.maskEdgeLabels s.head) (Line.maskEdgeLabels s.back) p.written := by
  have hconfined :=
    Line.confined_of_not_leavesOpen hclosed (s.stops_last (s.gap ++ (p.written ++ s.back)))
  have hstops : Text.Stops Line.isSuffixChar (p.written ++ s.back) := by
    rw [Tip.written, List.append_assoc]
    exact stops_arrow p.spelled (by decide) (by decide) _
  refine ⟨p.blanked, p.barrier_blanked, p.length_blanked, ?_⟩
  rw [fill, maskEdgeLabels_append hconfined hstops, p.maskEdgeLabels_written fun _ => hback]

/-- Whether the line is a directive does not depend on the arrow. -/
theorem isDirective_fill (s : Junction) {c c' : Char} (hc : c = '-' ∨ c = '=')
    (hc' : c' = '-' ∨ c' = '=') (x x' : Text) :
    Line.isDirective (s.fill (c :: x)) = Line.isDirective (s.fill (c' :: x')) := by
  have hne : Text.trimLeft s.head ≠ [] := by
    have hmem : s.last ∈ s.head := List.mem_append_right _ List.mem_cons_self
    intro hnil
    have hblank : Text.isBlank s.last = true := by
      refine Text.isBlank_of_mem_blanks (t := s.head) ?_
      have hself := Text.blanks_append_trimLeft s.head
      rw [hnil, List.append_nil] at hself
      rwa [hself]
    have hfirm := s.last_firm
    rw [Line.isFirm_eq_false_of_isBlank hblank] at hfirm
    cases hfirm
  rw [fill, fill, List.cons_append, List.cons_append, Line.isDirective_append_arrow hne hc,
    Line.isDirective_append_arrow hne hc']

/-! ## The filled line -/

/-- The filled line is the same on both sides of what is in place, if the masked line is and shows
what is in place. -/
theorem Masks.exists_filled {u v x x' : Text} (hu : u.length = s.head.length) (h : s.Masks u v x)
    (h' : s.Masks u v x') {c : Char} (hshown : (Line.filled (s.fill x))[s.head.length]? = some c)
    (hc : c ≠ '\x00') :
    ∃ front back, front.length = s.head.length ∧ Line.filled (s.fill x) = front ++ (x ++ back) ∧
      Line.filled (s.fill x') = front ++ (x' ++ back) := by
  obtain ⟨b, hb, hlength, hmask⟩ := h
  obtain ⟨b', hb', hlength', hmask'⟩ := h'
  have houtside : ∀ span ∈ Declaration.labels (Declaration.readFrom none 0 0 (u ++ (b ++ v))),
      span.contains (0 + u.length) = false := by
    intro span hspan
    refine Bool.eq_false_iff.2 fun hcontains => hc ?_
    rw [Line.filled_eq, hmask, Text.getElem?_hide, ← hu] at hshown
    obtain ⟨d, -, hd⟩ := Option.map_eq_some_iff.1 hshown
    rw [Nat.zero_add] at hcontains
    rw [← hd, if_pos (List.any_eq_true.2 ⟨span, hspan, hcontains⟩)]
  obtain ⟨before, behind, hbefore, hlabels, hlabels'⟩ :=
    Declaration.around_readFrom hb hb' (Nat.zero_le _) houtside
  rw [Nat.zero_add, hu] at hbefore hlabels hlabels'
  refine ⟨Text.hide '\x00' before s.head, Text.hide '\x00' behind s.back,
    Text.length_hide .., ?_, ?_⟩
  · rw [Line.filled_eq, hmask, hlabels, hlength, fill, Text.hide_around hbefore]
  · rw [Line.filled_eq, hmask', hlabels', hlength', fill, Text.hide_around hbefore]

/-- What is in place is shown between what the filled line shows before and behind it. -/
theorem Masks.filled_fill {u v x x' : Text} (hu : u.length = s.head.length) (h : s.Masks u v x)
    (h' : s.Masks u v x')
    {front c cs back} (hfront : front.length = s.head.length) (hwidth : (c :: cs).length = x.length)
    (hfilled : Line.filled (s.fill x) = front ++ (c :: cs ++ back)) (hc : c ≠ '\x00') :
    Line.filled (s.fill x') = front ++ (x' ++ back) := by
  have hshown : (Line.filled (s.fill x))[s.head.length]? = some c := by
    rw [hfilled, Text.getElem?_length_append _ hfront.symm]
    rfl
  obtain ⟨front', back', hfront', hfilled', hexchanged⟩ := h.exists_filled hu h' hshown hc
  obtain ⟨rfl, hrest⟩ := List.append_inj (hfilled.symm.trans hfilled') (hfront.trans hfront'.symm)
  obtain ⟨-, rfl⟩ := List.append_inj hrest hwidth
  exact hexchanged

end Junction
end Chartwright
