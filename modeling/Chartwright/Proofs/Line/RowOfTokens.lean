import Chartwright.Proofs.Line.Groups
import Chartwright.Proofs.Line.LinkRow
/-!
A line of links is a row if its tokens are nodes.

Read from left to right, a line begins with a blank, an ampersand, an arrow, or a token. If the
token is a node by itself (`Token.Closed` with nothing behind it), it is one on the line too: a
label of an arrow that ran from the node's label over its brackets would leave the arrow or its own
text in sight, and then the token would be another (`closed_of_first_token`). So a text of which all
tokens are nodes is a sound row (`exists_row`).
-/
namespace Chartwright

theorem EdgeLabel.of_read? {t rest : Text} {label : EdgeLabel} (h : read? t = some (label, rest)) :
    (∀ c ∈ label.gap, Text.isBlank c = true) ∧ '|' ∉ label.text := by
  simp only [read?, Option.bind_eq_bind, Option.bind_eq_some_iff, Prod.exists, Option.pure_def,
    Option.some.injEq, Prod.mk.injEq] at h
  obtain ⟨inside, -, text, after, hcut, rfl, -⟩ := h
  exact ⟨fun c => Text.isBlank_of_mem_blanks, Text.not_mem_of_cut? hcut⟩

namespace Chain

variable {l m : Text}

theorem Shows.mem (h : Shows l m) {c : Char} (hc : c ∈ m) (hne : c ≠ '\x00') : c ∈ l := by
  obtain ⟨front, back, rfl, -⟩ := List.eq_append_cons_of_mem hc
  obtain ⟨x, y, rfl, -, -, hy⟩ := h.exists_append
  obtain ⟨y', rfl, -⟩ := hy.exists_eq_append (y := [c]) (by simpa using Ne.symm hne)
  exact List.mem_append_right x List.mem_cons_self

/-- A label of an arrow that a masked copy shows stands on the line. -/
theorem Shows.edgeLabel_read? (h : Shows l m) (hl : EdgeLabel.read? l = none) :
    EdgeLabel.read? m = none := by
  refine Option.eq_none_iff_forall_ne_some.2 fun ⟨label, rest⟩ hread => ?_
  have hm := EdgeLabel.eq_of_read? hread
  have hgap := (EdgeLabel.of_read? hread).1
  have hshape : m = (label.gap ++ ['|']) ++ (label.text ++ (['|'] ++ rest)) := by
    rw [hm, EdgeLabel.written]
    simp
  rw [hshape] at h
  have hopen : '\x00' ∉ label.gap ++ ['|'] := by
    rw [List.mem_append, not_or]
    exact ⟨nul_not_mem_of_isBlank hgap, by decide⟩
  obtain ⟨l', rfl, hl'⟩ := h.exists_eq_append hopen
  -- the second bar is in sight, so the line has one behind the first
  have hbar : '|' ∈ l' := hl'.mem (List.mem_append_right _ List.mem_cons_self) (by decide)
  obtain ⟨front, back, rfl, hfront⟩ := List.eq_append_cons_of_mem hbar
  have hcut := Text.cut?_of_not_mem back hfront
  have hstops : Text.Stops Text.isBlank ('|' :: (front ++ '|' :: back)) :=
    Text.stops_cons.2 (by decide)
  rw [List.append_assoc, List.singleton_append] at hl
  rw [List.append_assoc, List.singleton_append] at hcut
  simp [EdgeLabel.read?, Text.trimLeft_append hgap hstops, Text.after?, hcut] at hl

end Chain

namespace Connector

theorem isSome_read? (t : Text) : (read? t).isSome = (Arrow.read? (Text.trimLeft t)).isSome := by
  rw [read?]
  cases Arrow.read? (Text.trimLeft t) <;> rfl

theorem isSome_read?_append {arrow : Text} (h : Arrow.Spelling arrow) (t : Text) :
    (read? (arrow ++ t)).isSome = true := by
  have hstart : Text.Stops Text.isBlank (arrow ++ t) := by
    obtain ⟨c, cs, rfl, hc⟩ := h.head
    rcases hc with rfl | rfl <;> exact Text.stops_cons.2 (by decide)
  rw [isSome_read?, Text.trimLeft_of_stops hstart, h.read?_append]
  rfl

end Connector

namespace Tip

/-- An arrow that is read, with its label if one is read behind it. -/
theorem exists_of_read? {l arrow rest : Text} (h : Arrow.read? l = some (arrow, rest)) :
    ∃ (p : Tip) (t : Text), l = p.written ++ t ∧ (p.label = none → EdgeLabel.read? t = none) := by
  obtain ⟨hspelling, rfl⟩ := Arrow.read?_eq_some_iff.1 h
  cases hread : EdgeLabel.read? rest with
  | none =>
    let p : Tip := ⟨arrow, none, hspelling, by simp⟩
    have hp : p.written = arrow := by simp [p, written, labelled]
    exact ⟨p, rest, by rw [hp], fun _ => hread⟩
  | some found =>
    obtain ⟨label, t⟩ := found
    obtain rfl := EdgeLabel.eq_of_read? hread
    let p : Tip :=
      { spelling := arrow
        label := some label
        spelled := hspelling
        label_read := by
          rintro l ⟨⟩
          exact EdgeLabel.of_read? hread }
    have hp : p.written = arrow ++ label.written := by
      simp [p, written, labelled, EdgeLabel.written]
    exact ⟨p, t, by rw [hp, List.append_assoc], fun hnone => by cases hnone⟩

theorem isFirm_of_mem_blanked (p : Tip) : ∀ c ∈ p.blanked, Line.isFirm c = false := by
  intro c hc
  rcases List.mem_append.1 hc with hc | hc
  · exact Line.isFirm_eq_false_of_spelling p.spelled c hc
  · unfold labelled at hc
    split at hc
    · cases hc
    · next l hlabel =>
      rcases List.mem_append.1 hc with hc | hc
      · exact Line.isFirm_eq_false_of_isBlank ((p.label_read l hlabel).1 c hc)
      · rw [(List.mem_replicate.1 hc).2]
        decide

end Tip

namespace Chain

variable {l m : Text}

/-- An arrow with its label opens another group. -/
theorem groups_arrow_append (p : Tip) (hlabel : p.label = none → EdgeLabel.read? m = none)
    (hshows : Shows l m) : groups (p.written ++ l) (p.written ++ m) = [] :: groups l m := by
  have hread := p.read?_append (List.forall_mem_nil _) hlabel
  have hblank : ∀ c ∈ Text.blanks m, Text.isBlank c = true := fun c => Text.isBlank_of_mem_blanks
  have hm := (Text.blanks_append_trimLeft m).symm
  generalize Text.blanks m = space, Text.trimLeft m = rest at *
  subst hm
  obtain ⟨l', rfl, hl'⟩ := hshows.exists_eq_append (nul_not_mem_of_isBlank hblank)
  have hwritten : ∀ t, p.written ++ (space ++ t) = [] ++ ((p.connector [] space).written ++ t) := by
    intro t
    simp [p.written_connector]
  rw [hwritten, List.nil_append] at hread
  have hquiet : Quiet ((p.connector [] space).written ++ rest) [] := trivial
  rw [hwritten, hwritten, groups_append hquiet hread rfl rfl, Segment.tokensOf_nil,
    groups_blanks_append hblank hl'.length_eq]

/-- What stands before the first ampersand or connector is the first token, unless it is blank. -/
theorem exists_first_token (hlength : l.length = m.length) :
    ∃ l₁ l₂ m₁ m₂, l = l₁ ++ l₂ ∧ m = m₁ ++ m₂ ∧ l₁.length = m₁.length ∧ Quiet m₂ m₁ ∧
      (m₂ = [] ∨ m₂.head? = some '&' ∨ (Connector.read? m₂).isSome = true) ∧
      (Text.trim l₁ ≠ [] → ∃ first more, groups l m = (Text.trim l₁ :: first) :: more) := by
  obtain ⟨l', l₀, m', m₀, more, rfl, rfl, h', hquiet, hends, hgroups⟩ :
      ∃ l' l₀ m' m₀ more, l = l' ++ l₀ ∧ m = m' ++ m₀ ∧ l'.length = m'.length ∧ Quiet m₀ m' ∧
        (m₀ = [] ∨ (Connector.read? m₀).isSome = true) ∧
          groups l m = Segment.tokensOf l' m' :: more := by
    rcases exists_first m with hall | ⟨front, k, after, rfl, hfront, hk⟩
    · exact ⟨l, [], m, [], [], by simp, by simp, hlength, hall, .inl rfl,
        groups_of_quiet hall hlength⟩
    · obtain ⟨l₁, l₂, l₃, rfl, h₁, h₂⟩ := exists_along hlength
      exact ⟨l₁, l₂ ++ l₃, front, k.written ++ after, groups l₃ after, rfl, rfl, h₁, hfront,
        .inr (by rw [hk]; rfl),
        groups_append hfront hk h₁ h₂⟩
  have hself : ∀ {x y : Text}, '&' ∉ y → x.length = y.length → Text.trim x ≠ [] →
      Segment.tokensOf x y = [Text.trim x] := by
    intro x y hy hxy hne
    rw [Segment.tokensOf_of_not_mem hy hxy]
    simp [hne]
  by_cases hand : '&' ∈ m'
  · obtain ⟨front, back, rfl, hfront⟩ := List.eq_append_cons_of_mem hand
    obtain ⟨x, c, y, rfl, hx, hc⟩ := exists_along (y := ['&']) h'
    obtain ⟨c, rfl⟩ := List.length_eq_one_iff.1 hc
    refine ⟨x, c :: y ++ l₀, front, '&' :: back ++ m₀, by simp, by simp, hx, hquiet.left,
      .inr (.inl rfl), fun hne => ?_⟩
    have htokens : Segment.tokensOf (x ++ ([c] ++ y)) (front ++ '&' :: back) = _ :=
      Segment.tokensOf_append_cons hfront hx c
    rw [hgroups, htokens, hself hfront hx hne]
    exact ⟨_, _, rfl⟩
  · refine ⟨l', l₀, m', m₀, rfl, rfl, h', hquiet, hends.imp_right .inr, fun hne => ?_⟩
    rw [hgroups, hself hand h' hne]
    exact ⟨_, _, rfl⟩

end Chain

theorem Declaration.contains_labelSpan {d : Declaration} {i : Nat} :
    d.labelSpan.contains i = true ↔ d.labelStart ≤ i ∧ i < d.labelStop := by
  rw [Span.contains, Bool.and_eq_true, decide_eq_true_eq, decide_eq_true_eq]
  rfl

namespace Line

variable {x z : Text}

theorem getElem?_filled_eq (l : Line) (i : Nat) : (filled l)[i]? =
    l[i]?.map fun c => if ((shown l).map (·.labelSpan)).any (·.contains i) then '\x00' else c :=
  Text.getElem?_hide ..

/-- A label that reaches into an arrow with a label covers both. -/
theorem le_labelStop_of_mem_shown {p : Tip} (h : Text.Confined edgeLabelAt (p.written ++ z) 0 x)
    (hlabel : p.label ≠ none) {d : Declaration} (hd : d ∈ shown (x ++ (p.written ++ z)))
    (hstop : x.length < d.labelStop) : (x ++ p.written).length ≤ d.labelStop := by
  obtain ⟨masked, hmasked, rfl⟩ := List.mem_map.1 hd
  have hread := (List.mem_filter.1 hmasked).1
  have hspan := Declaration.labelSpan_withLabelOf (labelStop_le_of_mem_readFrom hread)
  have hstop' : (masked.withLabelOf (x ++ (p.written ++ z))).labelStop = masked.labelStop :=
    congrArg Span.stop hspan
  rw [hstop'] at hstop ⊢
  obtain ⟨front, back, ⟨heq, -, -⟩, hstart, -⟩ := Declaration.exists_readAt hread
  have hsuffix : Text.Stops isSuffixChar (p.written ++ z) := by
    obtain ⟨c, cs, hhead, hc⟩ := p.head z
    rw [hhead]
    rcases hc with rfl | rfl <;> exact Text.stops_cons.2 (by decide)
  rw [maskEdgeLabels_append (Parts.of_confined h hsuffix), p.maskEdgeLabels_written fun hnone =>
      absurd hnone hlabel]
    at heq
  obtain ⟨c, cs, hc, hfirm⟩ := masked.bracket.head_closer
  -- the closer stands in sight right behind the label, but the arrow and its blanked label hold
  -- nothing firm
  refine Nat.le_of_not_lt fun hlt => ?_
  have hcloser : (maskEdgeLabels x ++ (p.blanked ++ maskEdgeLabels z))[masked.labelStop]? =
      some c := by
    have hplace : masked.labelStop =
        (front ++ (masked.id ++ masked.bracket.opener ++ masked.label)).length := by
      simp only [Declaration.labelStop, Declaration.labelStart, Declaration.openerStart, hstart,
        List.length_append]
      omega
    have hshape : front ++ (masked.written ++ back) =
        (front ++ (masked.id ++ masked.bracket.opener ++ masked.label)) ++ (c :: (cs ++ back)) := by
      simp [Declaration.written, hc]
    rw [heq, hshape, Text.getElem?_length_append _ hplace]
    rfl
  have hblanked : c ∈ p.blanked := by
    rw [List.length_append] at hlt
    rw [List.getElem?_append_right (by rw [length_maskEdgeLabels]; omega), length_maskEdgeLabels,
      List.getElem?_append_left (by rw [p.length_blanked]; omega)] at hcloser
    exact List.mem_of_getElem? hcloser
  have hnot := p.isFirm_of_mem_blanked c hblanked
  rcases hfirm with rfl | rfl | rfl | rfl | rfl <;> cases hnot

/-- Either an arrow with a label is in sight, or all is filled from some place in it to the end of
its label. -/
theorem filled_arrow {p : Tip} (h : Text.Confined edgeLabelAt (p.written ++ z) 0 x)
    (hlabel : p.label ≠ none) :
    (∃ x' z', filled (x ++ (p.written ++ z)) = x' ++ (p.spelling ++ z') ∧ x'.length = x.length) ∨
    ∃ k < p.spelling.length, ∀ i, x.length + k ≤ i → i < (x ++ p.written).length →
      (filled (x ++ (p.written ++ z)))[i]? = some '\x00' := by
  have hwritten : p.written = p.spelling ++ p.labelled fun t => t := rfl
  by_cases hcovered : ∃ d ∈ shown (x ++ (p.written ++ z)), ∃ k < p.spelling.length,
      d.labelSpan.contains (x.length + k) = true
  · obtain ⟨d, hd, k, hk, hcontains⟩ := hcovered
    rw [Declaration.contains_labelSpan] at hcontains
    have hstop := le_labelStop_of_mem_shown h hlabel hd (by omega)
    refine .inr ⟨k, hk, fun i hi hlt => ?_⟩
    have hany : ((shown (x ++ (p.written ++ z))).map (·.labelSpan)).any (·.contains i) = true :=
      List.any_eq_true.2 ⟨_, List.mem_map_of_mem hd, Declaration.contains_labelSpan.2 (by omega)⟩
    have hin : i < (x ++ (p.written ++ z)).length := by
      simp only [List.length_append] at hlt ⊢
      omega
    rw [getElem?_filled_eq, hany, List.getElem?_eq_getElem hin]
    rfl
  · have hnone : ∀ k < p.spelling.length,
        ((shown (x ++ (p.written ++ z))).map (·.labelSpan)).any (·.contains (x.length + k)) =
          false := by
      intro k hk
      refine List.any_eq_false.2 fun s hs hcontains => ?_
      obtain ⟨d, hd, rfl⟩ := List.mem_map.1 hs
      exact hcovered ⟨d, hd, k, hk, hcontains⟩
    obtain ⟨x', word, z', heq, hx', hword⟩ := Chain.exists_along (length_filled (x ++ (p.spelling ++
      ((p.labelled fun t => t) ++ z))))
    rw [hwritten, List.append_assoc] at *
    refine .inl ⟨x', z', ?_, hx'⟩
    rw [heq]
    congr 2
    apply List.ext_getElem?
    intro k
    by_cases hk : k < p.spelling.length
    · have hplace :=
        getElem?_filled_eq (x ++ (p.spelling ++ ((p.labelled fun t => t) ++ z))) (x.length + k)
      rw [hnone k hk, heq, ← hx', List.getElem?_append_right (Nat.le_add_right _ _),
        Nat.add_sub_cancel_left, List.getElem?_append_left (by rw [hword]; exact hk), hx',
        List.getElem?_append_right (Nat.le_add_right _ _), Nat.add_sub_cancel_left,
        List.getElem?_append_left hk, List.getElem?_eq_getElem hk] at hplace
      rw [hplace, List.getElem?_eq_getElem hk]
      rfl
    · rw [List.getElem?_eq_none (by omega), List.getElem?_eq_none (by omega)]

end Line

namespace Token

theorem exists_eq_append (e : Token) :
    ∃ x y, e.written = x ++ y ∧ y ≠ [] ∧ ∀ c ∈ y, Text.isBlank c = false := by
  rcases Line.suffix_eq e.suffix_read with hnil | ⟨word, hne, heq, hword⟩
  · cases hlabel : e.label with
    | none =>
      refine ⟨[], e.id, by simp [e.written_of_none hlabel, hnil],
        Identifier.ne_nil_of_valid e.id_valid, fun c hc => ?_⟩
      exact Identifier.not_isBlank_of_isChar (Identifier.isChar_of_valid e.id_valid c hc)
    | some label =>
      obtain ⟨b, text⟩ := label
      refine ⟨e.id ++ b.opener ++ text, b.closer, ?_, b.closer_ne_nil,
        Bracket.not_isBlank_of_mem_closer⟩
      simp [written_of_label hlabel, hnil]
  · refine ⟨e.id ++ (e.brackets (fun text => text) ++ [':', ':', ':']),
      word, by simp [written, heq], hne, ?_⟩
    exact fun c hc => Text.not_isBlank_of_isWord (hword c hc)

theorem tight_written (e : Token) : Text.Tight e.written where
  ne_nil := by simp [written, Identifier.ne_nil_of_valid e.id_valid]
  front := by
    rw [written]
    exact Identifier.stops_isBlank_append e.id_valid _
  back := by
    obtain ⟨x, y, heq, hne, hy⟩ := e.exists_eq_append
    rw [heq]
    exact Text.stops_reverse_append x hne hy

theorem bar_not_mem_suffix (e : Token) : '|' ∉ e.suffix := by
  intro hmem
  rcases Line.mem_suffix e.suffix_read hmem with h | h
  · cases h
  · exact absurd h (by decide)

variable {e : Token} {run l₂ m₁ m₂ : Text}

/-- A label of an arrow that runs from the label of a node over the brackets ends at a bar behind
the node. -/
theorem exists_tip_of_not_closed {rest : Text} (h : ¬ e.Closed rest) :
    ∃ (x : Text) (p : Tip) (between z : Text), p.label ≠ none ∧
      Text.Confined Line.edgeLabelAt (p.written ++ z) 0 x ∧
      e.written ++ rest = x ++ (p.written ++ z) ∧ (x ++ p.spelling).length ≤ e.written.length ∧
      rest = between ++ '|' :: z ∧ (x ++ p.written).length = (e.written ++ between).length + 1 := by
  simp only [Closed, Classical.not_forall] at h
  obtain ⟨b, text, hlabel, hnot⟩ := h
  obtain ⟨front, back, found, rfl, -, hfront, hfound, hcross⟩ :=
    Text.exists_of_not_confined (Nat.zero_le _) hnot
  obtain ⟨arrow, gap, inside, hspelling, hgap, hbar, rfl, hmem, -⟩ :=
    Line.exists_open_of_edgeLabelAt (b.firm_closer _) hfound hcross
  have hrest : '|' ∈ rest := by
    rcases List.mem_append.1 hmem with h | h
    · exact absurd h (by cases b <;> decide)
    · exact (List.mem_append.1 h).resolve_left e.bar_not_mem_suffix
  obtain ⟨between, z, rfl, hnone⟩ := List.eq_append_cons_of_mem hrest
  have htext : '|' ∉ inside ++ (b.closer ++ (e.suffix ++ between)) := by
    simp only [List.mem_append, not_or]
    exact ⟨hbar, by cases b <;> decide, e.bar_not_mem_suffix, hnone⟩
  let p : Tip :=
    { spelling := arrow
      label := some ⟨gap, inside ++ (b.closer ++ (e.suffix ++ between))⟩
      spelled := hspelling
      label_read := by
        rintro l ⟨⟩
        exact ⟨hgap, htext⟩ }
  have hp : p.written =
      arrow ++ (gap ++ (['|'] ++ inside)) ++ (b.closer ++ (e.suffix ++ between)) ++ ['|'] := by
    simp [p, Tip.written, Tip.labelled]
  have htoken : e.written =
      (e.id ++ b.opener ++ front) ++
        (arrow ++ (gap ++ (['|'] ++ inside)) ++ (b.closer ++ e.suffix)) := by
    rw [written_of_label hlabel]
    simp
  have hfree : Line.NoArrow (e.id ++ b.opener) := by
    intro c hc
    rcases List.mem_append.1 hc with hc | hc
    · exact Identifier.noArrow_of_valid e.id_valid c hc
    · exact b.noArrow_opener c hc
  refine ⟨e.id ++ b.opener ++ front, p, between, z, by simp [p], ?_, ?_, ?_, rfl, ?_⟩
  · have hback : arrow ++ (gap ++ (['|'] ++ inside)) ++
        (b.closer ++ (e.suffix ++ (between ++ '|' :: z))) = p.written ++ z := by
      rw [hp]
      simp
    rw [hback] at hfront
    exact (Line.confined_of_noArrow hfree _).append (Nat.zero_le _) hfront
  · rw [htoken, hp]
    simp
  · rw [htoken]
    simp only [p, List.length_append]
    omega
  · rw [htoken, hp]
    simp only [List.length_append, List.length_cons, List.length_nil]
    omega

/-- A node that is the first token of a line is closed there. If a label of an arrow ran from the
node's label over the brackets, then either the arrow would be in sight, and end the token, or all
would be filled up to the end of that label, and the token would not end where it does. -/
theorem closed_of_first_token (hm : Line.filled (e.written ++ (run ++ l₂)) = m₁ ++ m₂)
    (hrun : ∀ c ∈ run, Text.isBlank c = true) (hlength : m₁.length = (e.written ++ run).length)
    (hquiet : Chain.Quiet m₂ m₁)
    (hends : m₂ = [] ∨ m₂.head? = some '&' ∨ (Connector.read? m₂).isSome = true) :
    e.Closed (run ++ l₂) := by
  refine Classical.byContradiction fun hnot => ?_
  obtain ⟨x, p, between, z, hlabel, hconfined, hline, harrow, hbetween, hbar⟩ :=
    exists_tip_of_not_closed hnot
  rw [hline] at hm
  simp only [List.length_append] at hlength harrow hbar
  rcases Line.filled_arrow hconfined hlabel with ⟨x', z', hshown, hx'⟩ | ⟨k, hk, hfilled⟩
  · -- a connector would begin in the token
    obtain ⟨w, rfl⟩ : x' ++ p.spelling <+: m₁ := by
      refine @List.prefix_of_prefix_length_le _ _ _ (m₁ ++ m₂) ⟨z', ?_⟩ ⟨m₂, rfl⟩ ?_
      · rw [← hm, hshown, List.append_assoc]
      · rw [List.length_append]
        omega
    rw [List.append_assoc] at hquiet
    obtain ⟨c, cs, heq, -⟩ := p.spelled.head
    have hnone := hquiet.right.read?_eq_none List.suffix_rfl (by simp [heq])
    have hsome := Connector.isSome_read?_append p.spelled (w ++ m₂)
    rw [← List.append_assoc, hnone] at hsome
    cases hsome
  · rcases Nat.lt_or_ge m₁.length (x ++ p.written).length with hlt | hge
    · -- the token would end before a filled character
      have hnul := hfilled m₁.length (by omega) hlt
      rw [hm, Text.getElem?_length_append _ rfl] at hnul
      cases m₂ with
      | nil => cases hnul
      | cons d ds =>
        obtain rfl : d = '\x00' := by simpa using hnul
        rw [Connector.read?_of_isQuiet (by decide)] at hends
        simp at hends
    · -- the bar would be one of the blanks behind the token
      have hbegin : between ++ ['|'] <+: run := by
        refine @List.prefix_of_prefix_length_le _ _ _ (run ++ l₂) ⟨z, ?_⟩ ⟨l₂, rfl⟩ ?_
        · rw [hbetween]
          simp
        · rw [List.length_append] at hge
          rw [List.length_append, List.length_singleton]
          omega
      exact absurd (hrun _ (hbegin.subset (List.mem_append_right _ List.mem_cons_self))) (by decide)

end Token

/-! ## Reading a row -/

theorem Line.filled_blanks_append {x : Text} (hx : ∀ c ∈ x, Text.isBlank c = true) (t : Text) :
    filled (x ++ t) = x ++ filled t := by
  induction x with
  | nil => rfl
  | cons c cs ih =>
    have hstands := (Lexeme.stands_blank (hx c List.mem_cons_self) (cs ++ t)).filled_append
    rw [ih fun d hd => hx d (List.mem_cons_of_mem _ hd)] at hstands
    exact hstands

namespace Chain

variable {l m : Text}

/-- A connector that a masked copy of a line shows begins with an arrow that stands on the line. -/
theorem Shows.exists_arrow (h : Shows l m) (hm : (Connector.read? m).isSome = true) :
    ∃ gap arrow l', (∀ c ∈ gap, Text.isBlank c = true) ∧ Arrow.Spelling arrow ∧
      l = gap ++ (arrow ++ l') := by
  rw [Connector.isSome_read?, Option.isSome_iff_exists] at hm
  obtain ⟨⟨arrow, rest⟩, hread⟩ := hm
  obtain ⟨hspelling, hrest⟩ := Arrow.read?_eq_some_iff.1 hread
  have hblank : ∀ c ∈ Text.blanks m, Text.isBlank c = true := fun c => Text.isBlank_of_mem_blanks
  have hshape : m = (Text.blanks m ++ arrow) ++ rest := by
    rw [List.append_assoc, ← hrest, Text.blanks_append_trimLeft]
  have hnul : '\x00' ∉ Text.blanks m ++ arrow := by
    rw [List.mem_append, not_or]
    exact ⟨nul_not_mem_of_isBlank hblank, hspelling.not_mem (by decide)⟩
  rw [hshape] at h
  obtain ⟨l', rfl, -⟩ := h.exists_eq_append hnul
  exact ⟨_, arrow, l', hblank, hspelling, List.append_assoc ..⟩

/-- Where a masked copy of a line can go on behind a token, the line can go on behind a node. -/
theorem Shows.ends (h : Shows l m)
    (hm : m = [] ∨ m.head? = some '&' ∨ (Connector.read? m).isSome = true) :
    Line.Ends l ∧ Text.Stops Identifier.isChar (Text.trimLeft l) ∧ EndsToken m := by
  rcases hm with rfl | hm | hm
  · obtain rfl : l = [] := List.length_eq_zero_iff.1 h.length_eq
    exact ⟨Text.stops_nil _, Text.stops_nil _, .inl (Text.stops_nil _)⟩
  · obtain ⟨rest, rfl⟩ := List.head?_eq_some_iff.1 hm
    obtain ⟨l', rfl, -⟩ := h.exists_eq_append (y := ['&']) (by decide)
    exact ⟨Text.stops_cons.2 (by decide), Text.stops_cons.2 (by decide),
      .inl (Text.stops_cons.2 (by decide))⟩
  · obtain ⟨gap, arrow, l', hblank, hspelling, rfl⟩ := h.exists_arrow hm
    obtain ⟨c, cs, rfl, hc⟩ := hspelling.head
    have hstops : ∀ {p : Char → Bool}, p '-' = false → p '=' = false →
        Text.Stops p (c :: cs ++ l') := by
      intro p hdash hequal
      rcases hc with rfl | rfl
      · exact Text.stops_cons.2 hdash
      · exact Text.stops_cons.2 hequal
    rw [Text.trimLeft_append hblank (hstops (by decide) (by decide))]
    refine ⟨?_, hstops (by decide) (by decide), .inr hm⟩
    cases gap with
    | nil => exact hstops (by decide) (by decide)
    | cons d ds => exact Text.stops_cons.2 (by simp [hblank d List.mem_cons_self])

/-- Where none of the other parts begins, no token ends. -/
theorem Shows.not_ends {c : Char} {cs : Text} (h : Shows (c :: cs) m)
    (hblank : Text.isBlank c = false) (hand : c ≠ '&') (harrow : Arrow.read? (c :: cs) = none) :
    ¬ (m = [] ∨ m.head? = some '&' ∨ (Connector.read? m).isSome = true) := by
  rintro (rfl | hm | hm)
  · cases h.length_eq
  · obtain ⟨rest, rfl⟩ := List.head?_eq_some_iff.1 hm
    exact hand (h.1.resolve_right (by decide)).symm
  · obtain ⟨gap, arrow, l', hgap, hspelling, heq⟩ := h.exists_arrow hm
    cases gap with
    | nil =>
      rw [heq, List.nil_append, hspelling.read?_append] at harrow
      cases harrow
    | cons d ds =>
      obtain rfl : c = d := (List.cons.inj heq).1
      rw [hgap c List.mem_cons_self] at hblank
      cases hblank

theorem EndsToken.blanks_append {x : Text} (hx : ∀ c ∈ x, Text.isBlank c = true) (h : EndsToken m) :
    EndsToken (x ++ m) := by
  have htrim : Text.trimLeft (x ++ m) = Text.trimLeft m := List.dropWhile_append_of_pos hx
  rw [EndsToken, Connector.isSome_read?, htrim, ← Connector.isSome_read?]
  exact h

end Chain

namespace Row

/-- The nodes of a row. -/
def nodes : Row → List Token
  | [] => []
  | .node e :: rest => e :: nodes rest
  | .blank _ _ :: rest => nodes rest
  | .ampersand :: rest => nodes rest
  | .arrow _ :: rest => nodes rest

theorem endsNode_of_stops {r : Row} (h : Text.Stops Identifier.isChar (Text.trimLeft r.written)) :
    endsNode r = true := by
  induction r with
  | nil => rfl
  | cons l rest ih =>
    cases l with
    | blank c hc =>
      have htrim : Text.trimLeft (written (.blank c hc :: rest)) =
          Text.trimLeft (written rest) := by
        simp [Lexeme.written, Text.trimLeft, hc]
      exact ih (htrim ▸ h)
    | ampersand => rfl
    | arrow p => rfl
    | node e =>
      obtain ⟨c, cs, hid⟩ := List.exists_cons_of_ne_nil (Identifier.ne_nil_of_valid e.id_valid)
      have hc : Identifier.isChar c = true :=
        Identifier.isChar_of_valid e.id_valid c (hid ▸ List.mem_cons_self)
      rw [written_cons, Lexeme.written, Token.written, hid, List.append_assoc, List.cons_append,
        Text.trimLeft_of_stops (Text.stops_cons.2 (Identifier.not_isBlank_of_isChar hc)),
        Text.stops_cons, hc] at h
      cases h

/-- The first part of a text, with what stands behind it: soundness goes from the rest to the whole,
and tokens go from the whole to the rest. -/
structure Step (P : Token → Prop) (p : Lexeme) (t : Text) : Prop where
  sound : ∀ rest : Row, rest.written = t → Sound rest → Sound (p :: rest)
  node : ∀ e, p = .node e → P e
  tokens : ∀ token ∈ (Chain.groups t (Line.filled t)).flatten,
    token ∈ (Chain.groups (p.written ++ t) (Line.filled (p.written ++ t))).flatten

theorem step_blank (P : Token → Prop) {c : Char} (hc : Text.isBlank c = true) (t : Text) :
    Step P (.blank c hc) t where
  sound := fun _ _ h => .blank h
  node := by simp
  tokens := by
    have hgroups := Chain.groups_cons_blank hc (Line.length_filled t).symm
    rw [(Lexeme.stands_blank hc t).filled_append]
    exact fun token htoken => hgroups.symm ▸ htoken

theorem step_ampersand (P : Token → Prop) (t : Text) : Step P .ampersand t where
  sound := fun _ _ h => .ampersand h
  node := by simp
  tokens := by
    have hgroups := Chain.groups_cons_ampersand '&' (Line.length_filled t).symm
    rw [(Lexeme.stands_ampersand t).filled_append]
    exact fun token htoken => hgroups.symm ▸ htoken

theorem step_arrow (P : Token → Prop) {p : Tip} {t : Text}
    (h : p.label = none → EdgeLabel.read? t = none) : Step P (.arrow p) t where
  sound := fun _ _ h => .arrow h
  node := by simp
  tokens := by
    have hshows := Chain.shows_hide ((Line.shown t).map (·.labelSpan)) t
    have hgroups :=
      Chain.groups_arrow_append p (fun hnone => hshows.edgeLabel_read? (h hnone)) hshows
    rw [(Lexeme.stands_arrow h).filled_append]
    intro token htoken
    exact hgroups.symm ▸ List.mem_append_right [] htoken

theorem step_node {P : Token → Prop} {e : Token} {t : Text} (he : P e) (hends : Line.Ends t)
    (hchar : Text.Stops Identifier.isChar (Text.trimLeft t)) (hclosed : e.Closed t)
    (hnext : Chain.EndsToken (Line.filled t)) : Step P (.node e) t where
  sound := fun _ hrest h => .node h (endsNode_of_stops (hrest ▸ hchar)) (hrest ▸ hclosed)
  node := by
    rintro _ ⟨⟩
    exact he
  tokens := by
    have hshows : Chain.Shows t (Line.filled t) := Chain.shows_hide ..
    have hgroups :=
      Chain.groups_token_append e.tight_written e.and_not_mem_filled e.length_filled.symm
      (Chain.quiet_of_isQuiet e.isQuiet_of_mem_filled _) hshows hnext
    rw [(Lexeme.stands_node hends hclosed).filled_append]
    intro token htoken
    refine hgroups.symm ▸ ?_
    cases hg : Chain.groups t (Line.filled t) with
    | nil =>
      rw [hg] at htoken
      cases htoken
    | cons group more =>
      rw [hg] at htoken
      exact List.mem_cons_of_mem e.written htoken

/-- A text that begins with none of the other parts begins with a node, if its first token is
one. -/
theorem exists_step_node {P : Token → Prop} {c : Char} {cs : Text}
    (h : ∀ token ∈ (Chain.groups (c :: cs) (Line.filled (c :: cs))).flatten, ∃ e : Token,
    e.written = token ∧ P e)
    (hblank : Text.isBlank c = false) (hand : c ≠ '&') (harrow : Arrow.read? (c :: cs) = none) :
    ∃ p t, c :: cs = Lexeme.written p ++ t ∧ Step P p t := by
  have hshows := Chain.shows_hide ((Line.shown (c :: cs)).map (·.labelSpan)) (c :: cs)
  obtain ⟨l₁, l₂, m₁, m₂, hl, hm, hlength, hquiet, hends, htoken⟩ :=
    Chain.exists_first_token (Line.length_filled (c :: cs)).symm
  have hshown : Chain.Shows (l₁ ++ l₂) (m₁ ++ m₂) := by rwa [← hl, ← hm]
  obtain ⟨hends₁, hchar, hnext⟩ := (hshown.of_append hlength).2.ends hends
  have hne : l₁ ≠ [] := by
    rintro rfl
    obtain rfl : m₁ = [] := List.length_eq_zero_iff.1 hlength.symm
    rw [List.nil_append] at hl
    subst hl
    exact Chain.Shows.not_ends hshown hblank hand harrow hends
  have hfront : Text.Stops Text.isBlank l₁ := by
    obtain ⟨d, ds, rfl⟩ := List.exists_cons_of_ne_nil hne
    rw [← (List.cons.inj hl).1]
    exact Text.stops_cons.2 hblank
  obtain ⟨run, hl₁, hrun⟩ := Text.exists_append_eq_trim hfront
  obtain ⟨first, more, hgroups⟩ := htoken (Text.trim_ne_nil hfront hne)
  obtain ⟨e, he, hP⟩ :=
    h (Text.trim l₁) (by rw [hgroups]; exact List.mem_append_left _ List.mem_cons_self)
  rw [← he] at hl₁
  have hline : c :: cs = e.written ++ (run ++ l₂) := by rw [hl, hl₁, List.append_assoc]
  rw [hline] at hm
  have hclosed := Token.closed_of_first_token hm hrun (by rw [← hlength, hl₁]) hquiet hends
  have hfollows : Line.Ends (run ++ l₂) := by
    cases run with
    | nil => exact hends₁
    | cons d ds => exact Text.stops_cons.2 (by simp [hrun d List.mem_cons_self])
  have hm₂ : m₂ = Line.filled l₂ := by
    have hfilled := (Lexeme.stands_node hfollows hclosed).filled_append
    rw [Lexeme.written, Lexeme.filled, hm, Line.filled_blanks_append hrun,
      ← List.append_assoc] at hfilled
    refine (List.append_inj hfilled ?_).2
    rw [← hlength, hl₁, List.length_append, List.length_append, e.length_filled]
  rw [hm₂] at hnext
  refine ⟨.node e, run ++ l₂, hline, step_node hP hfollows ?_ hclosed ?_⟩
  · rw [Text.trimLeft, List.dropWhile_append_of_pos hrun]
    exact hchar
  · rw [Line.filled_blanks_append hrun]
    exact hnext.blanks_append hrun

/-- A text of which all tokens are nodes is a sound row of nodes like them. -/
theorem exists_row {l : Text} {P : Token → Prop}
    (h : ∀ token ∈ (Chain.groups l (Line.filled l)).flatten, ∃ e : Token, e.written = token ∧ P e) :
    ∃ r : Row, r.written = l ∧ Sound r ∧ ∀ e ∈ r.nodes, P e := by
  induction hn : l.length using Nat.strongRecOn generalizing l with
  | _ n ih =>
    cases l with
    | nil => exact ⟨[], rfl, .nil, fun _ he => by cases he⟩
    | cons c cs =>
      obtain ⟨p, t, heq, hstep⟩ : ∃ p t, c :: cs = Lexeme.written p ++ t ∧ Step P p t := by
        by_cases hblank : Text.isBlank c = true
        · exact ⟨.blank c hblank, cs, rfl, step_blank P hblank cs⟩
        by_cases hand : c = '&'
        · exact ⟨.ampersand, cs, by rw [hand]; rfl, step_ampersand P cs⟩
        cases harrow : Arrow.read? (c :: cs) with
        | none => exact exists_step_node h (Bool.eq_false_iff.2 hblank) hand harrow
        | some found =>
          obtain ⟨p, t, heq, hlabel⟩ := Tip.exists_of_read? harrow
          exact ⟨.arrow p, t, heq, step_arrow P hlabel⟩
      rw [heq] at h hn
      have hlt : t.length < n := by
        have hpos := List.length_pos_iff.2 p.blanked_ne_nil
        rw [p.length_blanked] at hpos
        rw [← hn, List.length_append]
        omega
      obtain ⟨rest, rfl, hsound, hnodes⟩ :=
        ih t.length hlt (fun token htoken => h token (hstep.tokens token htoken)) rfl
      refine ⟨p :: rest, by rw [heq, written_cons], hstep.sound rest rfl hsound, fun e he => ?_⟩
      cases p with
      | node e' =>
        rcases List.mem_cons.1 he with rfl | he
        · exact hstep.node _ rfl
        · exact hnodes e he
      | _ => exact hnodes e he

end Row
end Chartwright
