import Chartwright.Proofs.Markup.Place
import Chartwright.Proofs.Text.Confined
import Chartwright.Proofs.Line.Rejoin
/-!
Labels between brackets, whatever they hold.

A label may hold arrows, even arrows with labels of their own. It is masked by itself as long as no
label of an arrow in it runs over the closing sequence, and that depends only on whether a bar
follows (`confined_of_bars`).
-/
namespace Chartwright

namespace Text

theorem not_mem_of_cut? {c : Char} {t before rest : Text} (h : cut? [c] t = some (before, rest)) :
    c ∉ before := by
  induction t generalizing before with
  | nil => simp [cut?, after?] at h
  | cons d ds ih =>
    by_cases hd : c = d
    · simp only [cut?, after?, if_pos hd, Option.some.injEq, Prod.mk.injEq] at h
      rw [← h.1]
      exact List.not_mem_nil
    · simp only [cut?, after?, if_neg hd, Option.map_eq_some_iff, Prod.mk.injEq, Prod.exists] at h
      obtain ⟨front, back, hcut, rfl, rfl⟩ := h
      rw [List.mem_cons, not_or]
      exact ⟨hd, ih hcut⟩

end Text

namespace Line

variable {x y z : Text}

/-- The label of an arrow, as it is written. -/
theorem edgeLabelAt_eq_some_iff {t : Text} {found : Span × Nat} :
    edgeLabelAt t = some found ↔ ∃ arrow gap text rest, Arrow.Spelling arrow ∧
      (∀ c ∈ gap, Text.isBlank c = true) ∧ '|' ∉ text ∧
      t = arrow ++ (gap ++ (['|'] ++ text ++ ['|'] ++ rest)) ∧
      found = (⟨arrow.length + gap.length, arrow.length + gap.length + text.length + 2⟩,
        arrow.length + gap.length + text.length + 2) := by
  constructor
  · intro h
    simp only [edgeLabelAt, Option.bind_eq_bind, Option.bind_eq_some_iff, Prod.exists,
      Option.pure_def, Option.some.injEq] at h
    obtain ⟨arrow, rest, harrow, inside, hbar, text, after, hcut, rfl⟩ := h
    obtain ⟨hspelling, rfl⟩ := Arrow.read?_eq_some_iff.1 harrow
    refine ⟨arrow, Text.blanks rest, text, after, hspelling, fun c => Text.isBlank_of_mem_blanks,
      Text.not_mem_of_cut? hcut, ?_, rfl⟩
    calc arrow ++ rest = arrow ++ (Text.blanks rest ++ Text.trimLeft rest) := by
          rw [Text.blanks_append_trimLeft]
      _ = _ := by rw [Text.after?_eq_some_iff.1 hbar, Text.eq_append_of_cut? hcut]; simp
  · rintro ⟨arrow, gap, text, rest, hspelling, hgap, hbar, rfl, rfl⟩
    exact edgeLabelAt_append hspelling hgap hbar rest

theorem edgeLabelAt_isLocal : Text.IsLocal edgeLabelAt where
  extend := by
    intro s found y h
    obtain ⟨arrow, gap, text, rest, hspelling, hgap, hbar, rfl, rfl⟩ := edgeLabelAt_eq_some_iff.1 h
    exact edgeLabelAt_eq_some_iff.2 ⟨arrow, gap, text, rest ++ y, hspelling, hgap,
      hbar, by simp, rfl⟩
  cut := by
    intro s y found h hwidth
    obtain ⟨arrow, gap, text, rest, hspelling, hgap, hbar, heq, rfl⟩ := edgeLabelAt_eq_some_iff.1 h
    -- the label and its bars lie in `s`
    have hbox : s ++ y = (arrow ++ (gap ++ (['|'] ++ text ++ ['|']))) ++ rest := by rw [heq]; simp
    have hlength : (arrow ++ (gap ++ (['|'] ++ text ++ ['|']))).length ≤ s.length := by
      simp only [List.length_append, List.length_cons, List.length_nil]
      omega
    obtain ⟨back, hback⟩ := List.prefix_of_prefix_length_le ⟨rest, hbox.symm⟩ ⟨y, rfl⟩ hlength
    exact edgeLabelAt_eq_some_iff.2 ⟨arrow, gap, text, back, hspelling, hgap,
      hbar, by rw [← hback]; simp, rfl⟩

/-- A character that is no part of what stands before the text of an arrow's label: no blank, no
bar, and in no arrow. -/
def isFirm (c : Char) : Bool :=
  !(Text.isBlank c || c == '|' || c == '-' || c == '=' || c == '.' || c == '>')

theorem isFirm_eq_false_of_spelling {arrow : Text} (h : Arrow.Spelling arrow) :
    ∀ c ∈ arrow, isFirm c = false := by
  intro c hc
  rcases h.mem hc with rfl | rfl | rfl | rfl <;> decide

theorem isFirm_eq_false_of_isBlank {c : Char} (h : Text.isBlank c = true) : isFirm c = false := by
  simp [isFirm, h]

theorem isFirm_of_isChar {c : Char} (h : Identifier.isChar c = true) : isFirm c = true := by
  have hne : ∀ d, Identifier.isChar d = false → c ≠ d := fun d => Identifier.ne_of_isChar h
  simp [isFirm, Identifier.not_isBlank_of_isChar h, hne '|' (by decide), hne '-' (by decide),
    hne '=' (by decide), hne '.' (by decide), hne '>' (by decide)]

/-- Before a firm character a label that runs over the border has its first bar, and its last one
behind. -/
theorem exists_open_of_edgeLabelAt (hy : Text.Stops (fun c => !isFirm c) y) {found : Span × Nat}
    (h : edgeLabelAt (x ++ y) = some found) (hcross : x.length < found.2) :
    ∃ arrow gap text, Arrow.Spelling arrow ∧ (∀ c ∈ gap, Text.isBlank c = true) ∧ '|' ∉ text ∧
      x = arrow ++ (gap ++ (['|'] ++ text)) ∧ '|' ∈ y ∧ found.1.start ≤ x.length := by
  obtain ⟨arrow, gap, text, rest, hspelling, hgap, hbar, heq, rfl⟩ := edgeLabelAt_eq_some_iff.1 h
  have hshape : x ++ y = (arrow ++ (gap ++ ['|'])) ++ (text ++ (['|'] ++ rest)) := by rw [heq]; simp
  have hfirm : ∀ c ∈ arrow ++ (gap ++ ['|']), isFirm c = false := by
    intro c hc
    rw [List.mem_append, List.mem_append, List.mem_singleton] at hc
    rcases hc with hc | hc | rfl
    · exact isFirm_eq_false_of_spelling hspelling c hc
    · exact isFirm_eq_false_of_isBlank (hgap c hc)
    · decide
  simp only at hcross
  rcases List.append_eq_append_iff.1 hshape with ⟨back, hfront, hy'⟩ | ⟨back, hx, hrest⟩
  · cases back with
    | nil =>
      rw [List.append_nil] at hfront
      refine ⟨arrow, gap, [], hspelling, hgap, List.not_mem_nil, by rw [← hfront]; simp, ?_, ?_⟩
      · rw [hy', List.nil_append]
        exact List.mem_append_right _ List.mem_cons_self
      · rw [← hfront]
        simp
    | cons c cs =>
      -- the border lies before the first bar, so a character that is not firm comes next
      rw [hy', List.cons_append, Text.stops_cons] at hy
      rw [hfirm c (hfront ▸ List.mem_append_right _ List.mem_cons_self)] at hy
      cases hy
  · have hlength : back.length ≤ text.length := by
      have := congrArg List.length hx
      simp only [List.length_append, List.length_cons, List.length_nil] at this
      omega
    obtain ⟨text', htext⟩ :=
      List.prefix_of_prefix_length_le ⟨y, hrest.symm⟩ ⟨['|'] ++ rest, rfl⟩ hlength
    have hy' : y = text' ++ (['|'] ++ rest) := by
      rw [← htext, List.append_assoc] at hrest
      exact (List.append_cancel_left hrest).symm
    refine ⟨arrow, gap, back, hspelling, hgap, fun hmem => hbar ?_, by rw [hx]; simp, ?_, ?_⟩
    · rw [← htext]
      exact List.mem_append_left _ hmem
    · rw [hy']
      exact List.mem_append_right _ List.mem_cons_self
    · rw [hx]
      simp only [List.length_append, List.length_cons, List.length_nil]
      omega

theorem exists_edgeLabelAt_of_open {arrow gap text : Text} (hspelling : Arrow.Spelling arrow)
    (hgap : ∀ c ∈ gap, Text.isBlank c = true) (hbar : '|' ∉ text) (hy : '|' ∈ y) :
    ∃ found, edgeLabelAt (arrow ++ (gap ++ (['|'] ++ text)) ++ y) = some found ∧
      (arrow ++ (gap ++ (['|'] ++ text))).length < found.2 := by
  obtain ⟨front, back, rfl, hfront⟩ := List.eq_append_cons_of_mem hy
  have hbar' : '|' ∉ text ++ front := by
    rw [List.mem_append, not_or]
    exact ⟨hbar, hfront⟩
  refine ⟨_, edgeLabelAt_eq_some_iff.2 ⟨arrow, gap, text ++ front, back, hspelling, hgap,
    hbar', by simp, rfl⟩, ?_⟩
  simp only [List.length_append, List.length_cons, List.length_nil]
  omega

/-- What stands behind a firm character matters to the labels before it only as far as it holds a
bar. -/
theorem confined_of_bars (hz : Text.Stops (fun c => !isFirm c) z) (hbars : '|' ∈ z → '|' ∈ y)
    (h : Text.Confined edgeLabelAt y 0 x) : Text.Confined edgeLabelAt z 0 x := by
  refine h.of_crossing edgeLabelAt_isLocal fun s _ found hfound hcross => ?_
  obtain ⟨arrow, gap, text, hspelling, hgap, hbar, rfl, hmem, -⟩ :=
    exists_open_of_edgeLabelAt hz hfound hcross
  exact exists_edgeLabelAt_of_open hspelling hgap hbar (hbars hmem)

theorem confined_of_noArrow (h : NoArrow x) (y : Text) : Text.Confined edgeLabelAt y 0 x := by
  refine Text.confined_of_none fun s hs hne => ?_
  cases s with
  | nil => exact absurd rfl hne
  | cons c cs =>
    obtain ⟨hdash, hequal⟩ := h c (hs.subset List.mem_cons_self)
    exact edgeLabelAt_of_ne hdash hequal

theorem Parts.of_confined (h : Text.Confined edgeLabelAt y 0 x)
    (hsuffix : Text.Stops isSuffixChar y) : Parts x y :=
  ⟨Text.spansOf_append_of_confined edgeLabelAt_isLocal h,
    spansOf_suffixAt_append_of_stops x hsuffix⟩

/-! ## What the masked line shows -/

/-- No label runs over a firm character that the masked line shows. -/
theorem confined_of_shown {front back : Text} {c : Char}
    (h : maskEdgeLabels (x ++ y) = front ++ c :: back) (hlength : front.length = x.length)
    (hfirm : isFirm c = true) : Text.Confined edgeLabelAt y 0 x := by
  have hshown : (maskEdgeLabels (x ++ y))[x.length]? = some c := by
    rw [h, ← hlength]
    simp
  have hne : c ≠ ' ' := by
    rintro rfl
    exact absurd hfirm (by decide)
  have hchar : (x ++ y)[x.length]? = some c := getElem?_of_maskEdgeLabels hshown hne
  have hhead : y.head? = some c := by rwa [Text.getElem?_length_append _ rfl] at hchar
  have hstops : Text.Stops (fun c => !isFirm c) y := by
    intro d hd
    rw [hhead] at hd
    obtain rfl : c = d := Option.some.inj hd
    simp [hfirm]
  refine Classical.byContradiction fun hnot => ?_
  obtain ⟨front', back', found, rfl, -, hfront, hfound, hcross⟩ :=
    Text.exists_of_not_confined (Nat.zero_le _) hnot
  obtain ⟨-, -, -, -, -, -, -, -, hstart⟩ := exists_open_of_edgeLabelAt hstops hfound hcross
  have hstop := (le_length_of_edgeLabelAt hfound).2
  -- the label would cover the character
  have hmem : found.1.shift front'.length ∈ edgeLabels (front' ++ back' ++ y) := by
    rw [edgeLabels_eq, List.append_assoc,
      Text.spansOf_append_of_confined edgeLabelAt_isLocal hfront]
    refine List.mem_append_right _ (List.mem_map_of_mem (Text.mem_spansOf_of_read ?_ hfound))
    intro hnil
    rw [(List.append_eq_nil_iff.1 hnil).2] at hhead
    cases hhead
  have hcovered : (edgeLabels (front' ++ back' ++ y) ++ classSuffixes (front' ++ back' ++ y)).any
      (·.contains (front' ++ back').length) = true := by
    refine List.any_eq_true.2 ⟨_, List.mem_append_left _ hmem, ?_⟩
    simp only [Span.contains, Span.shift, List.length_append, Bool.and_eq_true, decide_eq_true_eq]
    omega
  simp only [maskEdgeLabels, Text.getElem?_hide, hcovered, hchar, if_true, Option.map_some,
    Option.some.injEq] at hshown
  exact hne hshown.symm

/-- What the masked line shows of a text without spaces stands on the line. -/
theorem eq_append_of_shown {l : Line} {front word back : Text}
    (h : maskEdgeLabels l = front ++ (word ++ back)) (hword : ' ' ∉ word) :
    ∃ front' back', l = front' ++ (word ++ back') ∧ front'.length = front.length ∧
      back'.length = back.length := by
  have hlength : l.length = front.length + (word.length + back.length) := by
    rw [← length_maskEdgeLabels, h, List.length_append, List.length_append]
  refine ⟨l.take front.length, l.drop (front.length + word.length),
    Text.eq_append_of_getElem? fun i hi => ?_, ?_, ?_⟩
  · have hshown : (maskEdgeLabels l)[front.length + i]? = some word[i] := by
      rw [h, List.getElem?_append_right (Nat.le_add_right _ _), Nat.add_sub_cancel_left,
        List.getElem?_append_left hi, List.getElem?_eq_getElem hi]
    have hne : word[i] ≠ ' ' := fun e => hword (e ▸ List.getElem_mem hi)
    rw [getElem?_of_maskEdgeLabels hshown hne, List.getElem?_eq_getElem hi]
  · rw [List.length_take]
    omega
  · rw [List.length_drop]
    omega

end Line

/-! ## Brackets -/

namespace Bracket

variable {b : Bracket} {label t : Text}

/-- A label is read back between a pair of brackets: as the masked label shows it, no longer opener
is read, and the closer is first read at the end. -/
structure Holds (b : Bracket) (label : Text) : Prop where
  opens : Bracket.read? (b.opener ++ (Line.maskEdgeLabels label ++ b.closer)) =
    some (b, Line.maskEdgeLabels label ++ b.closer)
  closes : Text.cut? b.closer (Line.maskEdgeLabels label ++ b.closer) =
      some (Line.maskEdgeLabels label, [])

theorem firm_closer (b : Bracket) (t : Text) :
    Text.Stops (fun c => !Line.isFirm c) (b.closer ++ t) :=
  b.stops_closer (by decide) t

theorem maskEdgeLabels_label (h : Text.Confined Line.edgeLabelAt (b.closer ++ t) 0 label) :
    Line.maskEdgeLabels (label ++ (b.closer ++ t)) =
      Line.maskEdgeLabels label ++ (b.closer ++ Line.maskEdgeLabels t) := by
  rw [Line.maskEdgeLabels_append (Line.Parts.of_confined h (b.stops_closer (by decide) t)),
    Line.maskEdgeLabels_append_of_free b.noArrow_closer b.colon_not_mem_closer]

theorem Holds.stops (h : b.Holds label) :
    Text.Stops b.isExtension (Line.maskEdgeLabels label ++ b.closer) :=
  read?_opener_append.1 h.opens

theorem stops_isExtension_append (x y z : Text) :
    Text.Stops b.isExtension (x ++ (b.closer ++ y)) ↔
      Text.Stops b.isExtension (x ++ (b.closer ++ z)) := by
  obtain ⟨c, cs, hc, -⟩ := b.head_closer
  cases x <;> simp [hc]

theorem Holds.read? (h : b.Holds label) (t : Text) :
    Bracket.read? (b.opener ++ (Line.maskEdgeLabels label ++ (b.closer ++ t))) =
      some (b, Line.maskEdgeLabels label ++ (b.closer ++ t)) := by
  have hstops := h.stops
  rw [← List.append_nil b.closer, stops_isExtension_append _ _ t] at hstops
  exact read?_opener_append.2 hstops

theorem Holds.cut? (h : b.Holds label) (t : Text) :
    Text.cut? b.closer (Line.maskEdgeLabels label ++ (b.closer ++ t)) =
      some (Line.maskEdgeLabels label, t) := by
  rw [← List.append_assoc]
  exact Text.cut?_append t h.closes

end Bracket

/-! ## Declared labels -/

theorem Text.cut?_shorten {word t rest : Text}
    (h : cut? word (t ++ word ++ rest) = some (t, rest)) :
    cut? word (t ++ word) = some (t, []) := by
  induction t with
  | nil =>
    cases word with
    | nil => rfl
    | cons w ws =>
      have hself : after? (w :: ws) (w :: ws) = some [] :=
        after?_eq_some_iff.2 (List.append_nil _).symm
      rw [List.nil_append, cut?, hself]
  | cons c cs ih =>
    rw [List.cons_append, List.cons_append, cut?] at h
    rw [List.cons_append, cut?]
    cases hlong : after? word (c :: (cs ++ word ++ rest)) with
    | some found =>
      rw [hlong] at h
      simp at h
    | none =>
      rw [hlong] at h
      have hshort : after? word (c :: (cs ++ word)) = none := by
        refine Option.eq_none_iff_forall_ne_some.2 fun r hr => ?_
        have hfull : c :: (cs ++ word ++ rest) = word ++ (r ++ rest) := by
          rw [← List.append_assoc word, ← after?_eq_some_iff.1 hr, List.cons_append]
        rw [hfull, after?_append] at hlong
        cases hlong
      obtain ⟨⟨front, back⟩, hcut, heq⟩ := Option.map_eq_some_iff.1 h
      simp only [Prod.mk.injEq, List.cons.injEq, true_and] at heq
      obtain ⟨rfl, rfl⟩ := heq
      simp only [hshort, ih hcut, Option.map_some]

namespace Line

/-- A line is masked part by part at an opener, if no label of an arrow runs over the name before
it. -/
theorem parts_of_opened {front id rest : Text} {b : Bracket} (hid : Identifier.valid id = true)
    (h : Text.Confined edgeLabelAt (id ++ b.opener ++ rest) 0 front) :
    Parts (front ++ (id ++ b.opener)) rest := by
  have hfree : NoArrow (id ++ b.opener) := by
    intro c hc
    rcases List.mem_append.1 hc with hc | hc
    · exact Identifier.noArrow_of_valid hid c hc
    · exact b.noArrow_opener c hc
  obtain ⟨opening, c, hopener, hc⟩ : ∃ opening c, b.opener = opening ++ [c] ∧
    isSuffixChar c = false := by
    cases b
    all_goals first | exact ⟨[], _, rfl, by decide⟩ | exact ⟨[_], _, rfl, by decide⟩
  refine ⟨Text.spansOf_append_of_confined edgeLabelAt_isLocal ?_, ?_⟩
  · exact h.append (Nat.zero_le _) (confined_of_noArrow hfree rest)
  · rw [hopener, ← List.append_assoc, ← List.append_assoc]
    exact spansOf_suffixAt_append_of_last hc (front ++ id ++ opening) rest

/-- The label of a declaration is held by its brackets, and no label of an arrow runs over its name
or over its closer. -/
theorem exists_open_of_mem_readFrom {l : Line} {d : Declaration}
    (hd : d ∈ Declaration.readFrom none 0 0 (maskEdgeLabels l)) :
    ∃ front label back,
      l = front ++ (d.id ++ (d.bracket.opener ++ (label ++ (d.bracket.closer ++ back)))) ∧
      d.start = front.length ∧ Identifier.valid d.id = true ∧ d.label = maskEdgeLabels label ∧
      d.bracket.Holds label ∧ Text.Confined edgeLabelAt (d.bracket.closer ++ back) 0 label ∧
      Text.Confined edgeLabelAt (d.id ++ d.bracket.opener ++ (label ++ (d.bracket.closer ++ back)))
        0 front ∧
      ∃ masked, masked.length = front.length ∧
        maskEdgeLabels (front ++ (d.id ++ d.bracket.opener)) =
          masked ++ (d.id ++ d.bracket.opener) := by
  obtain ⟨front', back', hat, hstart, -⟩ := Declaration.exists_readAt hd
  have hid := hat.valid
  have hspace : ' ' ∉ d.id ++ d.bracket.opener := by
    rw [List.mem_append, not_or]
    exact ⟨Identifier.not_mem_of_valid hid (by decide), by cases d.bracket <;> decide⟩
  have hshape : maskEdgeLabels l =
      front' ++ ((d.id ++ d.bracket.opener) ++ (d.label ++ (d.bracket.closer ++ back'))) := by
    rw [hat.split]
    simp [Declaration.written]
  obtain ⟨front, rest, rfl, hfront, hrest⟩ := eq_append_of_shown hshape hspace
  -- no label of an arrow runs over the start of the name, and none starts in the name or in the
  -- opener
  have hname : Text.Confined edgeLabelAt ((d.id ++ d.bracket.opener) ++ rest) 0 front := by
    obtain ⟨c, cs, hc⟩ := List.exists_cons_of_ne_nil (Identifier.ne_nil_of_valid hid)
    have hchar : Identifier.isChar c = true :=
      Identifier.isChar_of_valid hid c (hc ▸ List.mem_cons_self)
    have hshown : maskEdgeLabels (front ++ ((d.id ++ d.bracket.opener) ++ rest)) =
        front' ++ c :: (cs ++ d.bracket.opener ++ (d.label ++ (d.bracket.closer ++ back'))) := by
      rw [hshape, hc]
      rfl
    exact confined_of_shown hshown hfront.symm (isFirm_of_isChar hchar)
  have hlength : (maskEdgeLabels (front ++ (d.id ++ d.bracket.opener))).length =
      (front' ++ (d.id ++ d.bracket.opener)).length := by simp [hfront]
  rw [← List.append_assoc front, maskEdgeLabels_append (parts_of_opened hid hname),
    ← List.append_assoc front'] at hshape
  obtain ⟨hmaskHead, hmaskRest⟩ := List.append_inj hshape hlength
  obtain ⟨label, back, rfl, hlabel, -⟩ :=
    eq_append_of_shown hmaskRest d.bracket.space_not_mem_closer
  have hclosed : Text.Confined edgeLabelAt (d.bracket.closer ++ back) 0 label := by
    obtain ⟨c, cs, hc, hchar⟩ := d.bracket.head_closer
    have hfirm : isFirm c = true := by rcases hchar with rfl | rfl | rfl | rfl | rfl <;> decide
    have hshown : maskEdgeLabels (label ++ (d.bracket.closer ++ back)) =
        d.label ++ c :: (cs ++ back') := by
      rw [hmaskRest, hc]
      rfl
    exact confined_of_shown hshown hlabel.symm hfirm
  rw [Bracket.maskEdgeLabels_label hclosed] at hmaskRest
  have hmaskLabel : maskEdgeLabels label = d.label :=
    (List.append_inj hmaskRest (by simpa using hlabel)).1
  refine ⟨front, label, back, by simp, by rw [hstart, hfront, Nat.zero_add], hid, hmaskLabel.symm,
    ⟨?_, ?_⟩, hclosed,
    hname, front', hfront.symm, hmaskHead⟩
  · have hstops := Bracket.read?_opener_append.1 hat.bracket
    rw [Bracket.stops_isExtension_append _ _ [], List.append_nil] at hstops
    rw [hmaskLabel]
    exact Bracket.read?_opener_append.2 hstops
  · rw [hmaskLabel]
    exact Text.cut?_shorten (by rw [List.append_assoc]; exact hat.closing)

theorem withLabelOf_eq {l : Line} {d : Declaration} {front label rest : Text}
    (hl : l = front ++ (d.id ++ (d.bracket.opener ++ (label ++ rest))))
    (hstart : d.start = front.length) (hlength : d.label.length = label.length) :
    d.withLabelOf l = { d with label := label } := by
  have hshape : l = (front ++ (d.id ++ d.bracket.opener)) ++ (label ++ rest) := by
    rw [hl]
    simp
  rw [Declaration.withLabelOf, Declaration.labelSpan_eq hstart, hlength, hshape, Span.cut_append]

/-- A declared label is the text between its brackets, and these hold it. -/
theorem exists_of_mem_declarations {l : Line} {d : Declaration} (hd : d ∈ declarations l) :
    ∃ front back, l = front ++ (d.written ++ back) ∧ d.start = front.length ∧
      Identifier.valid d.id = true ∧ Keyword.isKeyword d.id = false ∧ d.bracket.Holds d.label ∧
      Text.Confined edgeLabelAt (d.bracket.closer ++ back) 0 d.label := by
  obtain ⟨-, masked, hread, hkeyword, rfl⟩ := mem_declarations.1 hd
  obtain ⟨front, label, back, hl, hstart, hvalid, hlabel, hholds, hclosed, -⟩ :=
    exists_open_of_mem_readFrom hread
  rw [withLabelOf_eq hl hstart (by rw [hlabel, length_maskEdgeLabels])]
  exact ⟨front, back, by rw [hl]; simp [Declaration.written], hstart, hvalid, hkeyword, hholds,
    hclosed⟩

end Line

end Chartwright
