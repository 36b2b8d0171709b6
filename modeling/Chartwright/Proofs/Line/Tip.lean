import Chartwright.Line.Chain
import Chartwright.Proofs.Line.NodeEnd
/-!
Arrows with their labels.

The label of an arrow is blanked where it stands (`Tip.maskEdgeLabels_written`), and with the blanks
around it an arrow is read as a connector (`Tip.read?_append`). Behind an arrow without a label none
may begin.
-/
namespace Chartwright

/-- An arrow with its label. -/
structure Tip where
  spelling : Text
  label : Option EdgeLabel
  spelled : Arrow.Spelling spelling
  label_read : ∀ l, label = some l → (∀ c ∈ l.gap, Text.isBlank c = true) ∧ '|' ∉ l.text

namespace Connector

theorem read?_of_none {t : Text} (h : Arrow.read? (Text.trimLeft t) = none) : read? t = none := by
  simp only [read?, h, Option.bind_eq_bind, Option.bind_none]

theorem read?_of_stops {t : Text}
    (h : Text.Stops (fun c => c == '-' || c == '=') (Text.trimLeft t)) : read? t = none := by
  refine read?_of_none ?_
  cases ht : Text.trimLeft t with
  | nil => rfl
  | cons c cs =>
    rw [ht, Text.stops_cons, Bool.or_eq_false_iff, beq_eq_false_iff_ne, beq_eq_false_iff_ne] at h
    exact Arrow.read?_of_ne h.1 h.2

/-- The span of a connector at the front of a text, with its width. -/
def spanAt (t : Text) : Option (Span × Nat) :=
  (read? t).map fun (k, _) => (⟨0, k.written.length⟩, k.written.length)

theorem spans_eq (t : Text) : Chain.connectorSpans t = Text.spansOf spanAt t := by
  have hwidth := Text.spansOf_width (fun t => (read? t).map fun (k, _) => k.written.length) t
  simp only [Option.map_map] at hwidth
  have hread : spanAt = fun t => (read? t).map fun (k, _) =>
      ((⟨0, k.written.length⟩ : Span), k.written.length) := rfl
  rw [hread]
  exact hwidth

/-- A character before which no connector starts: no blank, and not the start of an arrow. -/
def isQuiet (c : Char) : Bool := !(Text.isBlank c || c == '-' || c == '=')

theorem read?_of_isQuiet {c : Char} {t : Text} (h : isQuiet c = true) : read? (c :: t) = none := by
  simp only [isQuiet, Bool.not_eq_true', Bool.or_eq_false_iff] at h
  obtain ⟨⟨hblank, hdash⟩, hequal⟩ := h
  refine read?_of_stops ?_
  rw [Text.trimLeft_of_stops (Text.stops_cons.2 hblank), Text.stops_cons, hdash, hequal]
  rfl

theorem isQuiet_of_isWord {c : Char} (h : Text.isWord c = true) : isQuiet c = true := by
  have hdash : c ≠ '-' := Text.ne_of_isWord h (by decide)
  have hequal : c ≠ '=' := Text.ne_of_isWord h (by decide)
  simp [isQuiet, Text.not_isBlank_of_isWord h, hdash, hequal]

end Connector

namespace Tip

/-- The label part of an arrow, with the bars and the text between them replaced by what `f` makes
of them. -/
def labelled (f : Text → Text) (p : Tip) : Text :=
  match p.label with
  | none => []
  | some l => l.gap ++ f (['|'] ++ l.text ++ ['|'])

def written (p : Tip) : Text := p.spelling ++ p.labelled fun t => t

/-- An arrow with its label blanked. -/
def blanked (p : Tip) : Text := p.spelling ++ p.labelled fun t => List.replicate t.length ' '

/-- The connector that an arrow is between blanks. -/
def connector (p : Tip) (gap space : Text) : Connector := ⟨gap, p.spelling, p.label, space⟩

variable (p : Tip) {t : Text}

theorem length_blanked : p.blanked.length = p.written.length := by
  simp only [blanked, written, labelled, List.length_append]
  split
  · rfl
  · simp [Nat.add_comm]

theorem ne_nil : p.written ≠ [] := by
  obtain ⟨c, cs, hspelling, -⟩ := p.spelled.head
  simp [written, hspelling]

theorem head (t : Text) : ∃ c cs, p.written ++ t = c :: cs ∧ (c = '-' ∨ c = '=') := by
  obtain ⟨c, cs, hspelling, hc⟩ := p.spelled.head
  refine ⟨c, cs ++ (p.labelled (fun t => t) ++ t), ?_, hc⟩
  rw [written, hspelling]
  simp

theorem stops_written {q : Char → Bool} (hdash : q '-' = false) (hequal : q '=' = false)
    (t : Text) : Text.Stops q (p.written ++ t) := by
  obtain ⟨c, cs, heq, hc⟩ := p.head t
  rw [heq, Text.stops_cons]
  rcases hc with rfl | rfl
  · exact hdash
  · exact hequal

theorem ends_written (t : Text) : Line.Ends (p.written ++ t) :=
  p.stops_written (by decide) (by decide) t

theorem not_isChar_of_mem_blanked : ∀ c ∈ p.blanked, Identifier.isChar c = false := by
  intro c hc
  rcases List.mem_append.1 hc with hc | hc
  · rcases p.spelled.mem hc with rfl | rfl | rfl | rfl <;> decide
  · unfold labelled at hc
    split at hc
    · cases hc
    · next l hlabel =>
      rcases List.mem_append.1 hc with hc | hc
      · exact Identifier.not_isChar_of_isBlank ((p.label_read l hlabel).1 c hc)
      · rw [(List.mem_replicate.1 hc).2]
        decide

/-! ## Masking -/

/-- The arrow alone has no label when what follows is none. -/
theorem edgeLabelAt_of_suffix {s : Text} (hs : s <:+ p.spelling) (hne : s ≠ [])
    (hlabel : EdgeLabel.read? t = none) : Line.edgeLabelAt (s ++ t) = none := by
  cases hread : Arrow.read? (s ++ t) with
  | none => exact Line.edgeLabelAt_of_none hread
  | some found =>
    obtain ⟨taken, rest⟩ := found
    obtain ⟨hspelling, heq⟩ := Arrow.read?_eq_some_iff.1 hread
    obtain ⟨shaft, hshaft, hpoint⟩ := p.spelled.eq_append_point
    obtain ⟨shaft', hshaft', hpoint'⟩ := hspelling.eq_append_point
    -- both end at the first point, so the arrow that is read ends where `s` does
    obtain ⟨front, hfront⟩ := hs
    rcases List.eq_nil_or_concat s with rfl | ⟨s', c, rfl⟩
    · exact absurd rfl hne
    · have hlast : front ++ s' = shaft ∧ c = '>' := by
        rw [hshaft, List.concat_eq_append, ← List.append_assoc] at hfront
        exact ⟨(List.append_inj' hfront rfl).1, by simpa using (List.append_inj' hfront rfl).2⟩
      obtain ⟨hs', rfl⟩ := hlast
      have hpoint'' : '>' ∉ s' := fun h => hpoint (hs' ▸ List.mem_append_right front h)
      rw [hshaft', List.concat_eq_append] at heq
      have hrest : t = rest :=
        (Text.eq_of_append_cons_eq hpoint'' hpoint' (by simpa using heq)).2
      exact Line.edgeLabelAt_of_read? hread (hrest ▸ hlabel)

theorem colon_not_mem_spelling : ':' ∉ p.spelling := p.spelled.not_mem (by decide)

theorem maskEdgeLabels_spelling (ht : EdgeLabel.read? t = none) :
    Line.maskEdgeLabels (p.spelling ++ t) = p.spelling ++ Line.maskEdgeLabels t := by
  -- nothing that the arrow or its end could be read as has a label
  have hlong := Text.spansOf_of_none fun s hs hne => p.edgeLabelAt_of_suffix hs hne ht
  have hshort := Text.spansOf_of_none fun s hs hne => p.edgeLabelAt_of_suffix (t := []) hs hne rfl
  rw [List.append_nil, Text.spansOf_nil, List.map_nil] at hshort
  have hself : Line.maskEdgeLabels p.spelling = p.spelling := by
    simp [Line.maskEdgeLabels, Line.edgeLabels_eq, Line.classSuffixes_eq, hshort,
      Line.spansOf_suffixAt p.colon_not_mem_spelling]
  rw [Line.maskEdgeLabels_append ⟨?_, ?_⟩, hself]
  · rw [hlong, hshort, List.nil_append]
  · rw [Line.spansOf_suffixAt_append p.colon_not_mem_spelling,
      Line.spansOf_suffixAt p.colon_not_mem_spelling, List.nil_append]

/-- A label between bars is blanked with its bars. -/
theorem maskEdgeLabels_bars {l : EdgeLabel} (hlabel : p.label = some l) (t : Text) :
    Line.maskEdgeLabels ((p.spelling ++ l.gap) ++ (['|'] ++ l.text ++ ['|']) ++ t) =
      (p.spelling ++ l.gap) ++ List.replicate (['|'] ++ l.text ++ ['|']).length ' ' ++
        Line.maskEdgeLabels t := by
  obtain ⟨hgap, hbar⟩ := p.label_read l hlabel
  have hcolon : ':' ∉ p.spelling ++ l.gap := by
    rw [List.mem_append, not_or]
    exact ⟨p.colon_not_mem_spelling, Text.not_mem_of_isBlank hgap (by decide)⟩
  -- the last bar is no part of a suffix, so suffixes end before it
  have hlast := Line.spansOf_suffixAt_append_of_last (c := '|') (by decide)
    ((p.spelling ++ l.gap) ++ (['|'] ++ l.text)) t
  rw [List.append_assoc (p.spelling ++ l.gap)] at hlast
  generalize hbox : ['|'] ++ l.text ++ ['|'] = box at hlast ⊢
  have hread : ∀ y, Line.edgeLabelAt ((p.spelling ++ l.gap) ++ box ++ y) =
      some (⟨(p.spelling ++ l.gap).length, (p.spelling ++ l.gap).length + box.length⟩,
        ((p.spelling ++ l.gap) ++ box).length) := by
    intro y
    have happend := Line.edgeLabelAt_append p.spelled hgap hbar y
    rw [hbox, ← List.append_assoc, ← List.append_assoc] at happend
    rw [happend, ← hbox]
    simp [Nat.add_assoc]
  have hne : (p.spelling ++ l.gap) ++ box ≠ [] := by simp [← hbox]
  have hlong := Text.spansOf_cons hne (hread t)
  have hshort := Text.spansOf_cons hne (hread [])
  rw [List.append_nil, Text.spansOf_nil, List.map_nil] at hshort
  have hself : Line.maskEdgeLabels ((p.spelling ++ l.gap) ++ box) =
      (p.spelling ++ l.gap) ++ List.replicate box.length ' ' := by
    rw [Line.maskEdgeLabels, Line.edgeLabels_eq, Line.classSuffixes_eq, hshort,
      Line.spansOf_suffixAt_append hcolon]
    apply Text.hide_box rfl
    intro s hs
    obtain ⟨s, -, rfl⟩ := List.mem_map.1 hs
    exact Nat.le_add_left _ _
  rw [Line.maskEdgeLabels_append ⟨?_, hlast⟩, hself]
  rw [hlong, hshort]
  rfl

/-- The label of an arrow is blanked where it stands; behind an arrow without a label none can be
read. -/
theorem maskEdgeLabels_written (ht : p.label = none → EdgeLabel.read? t = none) :
    Line.maskEdgeLabels (p.written ++ t) = p.blanked ++ Line.maskEdgeLabels t := by
  cases hlabel : p.label with
  | none => simpa [written, blanked, labelled, hlabel] using p.maskEdgeLabels_spelling (ht hlabel)
  | some l =>
    have hbars := p.maskEdgeLabels_bars hlabel t
    simp only [written, blanked, labelled, hlabel]
    generalize ['|'] ++ l.text ++ ['|'] = box at hbars ⊢
    simpa only [List.append_assoc] using hbars

/-! ## Connectors -/

theorem labelPart_connector (gap space : Text) :
    (p.connector gap space).labelPart = p.labelled fun t => t := by
  simp only [connector, Connector.labelPart, labelled]
  cases p.label <;> simp [EdgeLabel.written]

theorem written_connector (gap space : Text) :
    (p.connector gap space).written = gap ++ (p.written ++ space) := by
  rw [Connector.written, labelPart_connector, written]
  simp [connector]

theorem readLabel_labelled (ht : p.label = none → EdgeLabel.read? t = none) :
    Connector.readLabel (p.labelled (fun t => t) ++ t) = (p.label, t) := by
  cases hlabel : p.label with
  | none => simp [labelled, hlabel, Connector.readLabel, ht hlabel]
  | some l =>
    obtain ⟨hgap, hbar⟩ := p.label_read l hlabel
    have hstops : Text.Stops Text.isBlank (['|'] ++ (l.text ++ ['|'] ++ t)) :=
      Text.stops_cons.2 (by decide)
    have hshape : p.labelled (fun t => t) ++ t = l.gap ++ (['|'] ++ (l.text ++ ['|'] ++ t)) := by
      simp [labelled, hlabel]
    have hread : EdgeLabel.read? (p.labelled (fun t => t) ++ t) = some (l, t) := by
      simp only [hshape, EdgeLabel.read?, Text.trimLeft_append hgap hstops,
        Text.blanks_append hgap hstops, Text.after?_append, Option.bind_eq_bind, Option.bind_some,
        Text.cut?_of_not_mem t hbar]
      rfl
    simp [Connector.readLabel, hread]

/-- An arrow is read with the blanks around it. -/
theorem read?_append {gap m : Text} (hgap : ∀ c ∈ gap, Text.isBlank c = true)
    (hlabel : p.label = none → EdgeLabel.read? m = none) :
    Connector.read? (gap ++ (p.written ++ m)) =
      some (p.connector gap (Text.blanks m), Text.trimLeft m) := by
  have hstart : Text.Stops Text.isBlank (p.written ++ m) :=
    p.stops_written (by decide) (by decide) m
  have hread := p.readLabel_labelled hlabel
  rw [Connector.read?, Text.trimLeft_append hgap hstart, Text.blanks_append hgap hstart, written,
    List.append_assoc, p.spelled.read?_append]
  simp only [Option.bind_eq_bind, Option.bind_some, hread]
  rfl

theorem read?_between {gap space : Text} (hgap : ∀ c ∈ gap, Text.isBlank c = true)
    (hspace : ∀ c ∈ space, Text.isBlank c = true) (ht : Text.Stops Text.isBlank t)
    (hbar : Text.Stops (· == '|') t) :
    Connector.read? (gap ++ (p.written ++ (space ++ t))) = some (p.connector gap space, t) := by
  have hrest : Text.trimLeft (space ++ t) = t := Text.trimLeft_append hspace ht
  rw [p.read?_append hgap fun _ => EdgeLabel.read?_of_stops (by rwa [hrest]), hrest,
    Text.blanks_append hspace ht]

end Tip
end Chartwright
