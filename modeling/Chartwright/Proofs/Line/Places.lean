import Chartwright.Proofs.Line.LinkRead
import Chartwright.Proofs.Line.RowChain
import Chartwright.Proofs.Text.Distinct
/-!
Where identifiers stand on a line.

A link is looked up on the line as it is, up to the labels of its nodes, so its ends stand there as
whole identifiers (`Line.places_of_link?`). The identifiers of the line are looked up with the
labels of arrows and the class suffixes hidden too: a name is one of them unless it stands in one of
these, or is a keyword (`Line.mem_identifiers_of_place`).
-/
namespace Chartwright

namespace Line

variable {l name : Text} {n i : Nat}

theorem contains_bracketSpan {d : Declaration} :
    d.bracketSpan.contains i = true ↔
      d.labelStart ≤ i + d.bracket.opener.length ∧ i < d.labelStop + d.bracket.closer.length := by
  rw [Span.contains, Bool.and_eq_true, decide_eq_true_eq, decide_eq_true_eq, Declaration.labelStart,
    Nat.add_le_add_iff_right]
  rfl

/-- In the brackets of a declaration, but not in its label, the opener stands or the closer. -/
theorem mem_of_bracketSpan {d : Declaration} (hd : d ∈ declarations l)
    (hin : d.bracketSpan.contains i = true) (hout : d.labelSpan.contains i = false) {c : Char}
    (hc : l[i]? = some c) :
    i < d.labelStart ∧ c ∈ d.bracket.opener ∨ d.labelStop ≤ i ∧ c ∈ d.bracket.closer := by
  obtain ⟨front, back, rfl, hstart, -, -, -, -⟩ := exists_of_mem_declarations hd
  have hsplit : front ++ (d.written ++ back) =
      (front ++ d.id) ++ (d.bracket.opener ++ (d.label ++ (d.bracket.closer ++ back))) := by
    simp [Declaration.written]
  simp only [Span.contains, Declaration.bracketSpan, Declaration.labelSpan, Declaration.stop,
    Declaration.labelStop, Declaration.labelStart, Declaration.openerStart, hstart,
    Bool.and_eq_true, decide_eq_true_eq, Bool.and_eq_false_iff,
    decide_eq_false_iff_not] at hin hout ⊢
  rw [hsplit, List.getElem?_append_right (by simp; omega), List.length_append] at hc
  rcases Nat.lt_or_ge i (front.length + d.id.length + d.bracket.opener.length) with hlt | hge
  · rw [List.getElem?_append_left (by omega)] at hc
    exact .inl ⟨hlt, List.mem_of_getElem? hc⟩
  · rw [List.getElem?_append_right (by omega), List.getElem?_append_right (by omega),
      List.getElem?_append_left (by omega)] at hc
    exact .inr ⟨by omega, List.mem_of_getElem? hc⟩

theorem not_isChar_of_bracketSpan {d : Declaration} (hd : d ∈ declarations l)
    (hin : d.bracketSpan.contains i = true) (hout : d.labelSpan.contains i = false) {c : Char}
    (hc : l[i]? = some c) : Identifier.isChar c = false := by
  have hbrackets : d.bracket.opener.all (fun c => !Identifier.isChar c) = true ∧
      d.bracket.closer.all (fun c => !Identifier.isChar c) = true := by
    cases d.bracket <;> decide
  rcases mem_of_bracketSpan hd hin hout hc with ⟨-, hmem⟩ | ⟨-, hmem⟩
  · simpa using List.all_eq_true.1 hbrackets.1 c hmem
  · simpa using List.all_eq_true.1 hbrackets.2 c hmem

theorem not_isChar_of_masked {d : Declaration} (hd : d ∈ declarations l)
    (hin : d.bracketSpan.contains i = true) (hout : d.labelSpan.contains i = false) {c : Char}
    (hc : (maskEdgeLabels l)[i]? = some c) : Identifier.isChar c = false := by
  refine Bool.eq_false_iff.2 fun hchar => ?_
  have hplain := getElem?_of_maskEdgeLabels hc (by rintro rfl; cases hchar)
  rw [not_isChar_of_bracketSpan hd hin hout hplain] at hchar
  cases hchar

/-- A character of an identifier that the filled line shows stands outside of labels. -/
theorem getElem?_of_maskLabels {c : Char} (h : (maskLabels l)[i]? = some c)
    (hc : Identifier.isChar c = true) :
    l[i]? = some c ∧ ∀ d ∈ declarations l, d.bracketSpan.contains i = false := by
  have hplain := h
  rw [getElem?_maskLabels, Option.map_eq_some_iff] at hplain
  obtain ⟨c', hc', heq⟩ := hplain
  split at heq
  · subst heq
    exact absurd hc (by decide)
  · next hlabels =>
    subst heq
    refine ⟨hc', fun d hd => Bool.eq_false_iff.2 fun hin => ?_⟩
    have hout : d.labelSpan.contains i = false :=
      Bool.eq_false_iff.2 fun hlabel =>
        hlabels (List.any_eq_true.2 ⟨_, List.mem_map_of_mem hd, hlabel⟩)
    rw [not_isChar_of_bracketSpan hd hin hout hc'] at hc
    cases hc

/-- What the filled line does not show as it is lies in a label, and an identifier beside it would
touch the brackets. -/
theorem not_isChar_beside {k m : Nat} {c d : Char} (hk : l[k]? = some c)
    (hm : (maskLabels l)[m]? = some d) (hd : Identifier.isChar d = true)
    (hbeside : m = k + 1 ∨ k = m + 1)
    (hshown : ∀ c, (maskLabels l)[k]? = some c → Identifier.isChar c = false) :
    Identifier.isChar c = false := by
  obtain ⟨-, houtside⟩ := getElem?_of_maskLabels hm hd
  have hmask := getElem?_maskLabels l k
  rw [hk, Option.map_some] at hmask
  split at hmask
  · next hany =>
    obtain ⟨span, hspan, hin⟩ := List.any_eq_true.1 hany
    obtain ⟨x, hx, rfl⟩ := List.mem_map.1 hspan
    obtain ⟨hopener, hcloser⟩ := x.bracket.length_pos
    rw [Declaration.contains_labelSpan] at hin
    have hout := Bool.eq_false_iff.1 (houtside x hx)
    rw [ne_eq, contains_bracketSpan] at hout
    omega
  · exact hshown c hmask

theorem place_of_maskLabels (h : Identifier.Place (maskLabels l) n name) :
    Identifier.Place l n name where
  valid := h.valid
  shown i hi := by
    have hchar := h.shown i hi
    rw [List.getElem?_eq_getElem hi] at hchar ⊢
    exact (getElem?_of_maskLabels hchar (h.isChar_of_shown hi hchar)).1
  before k c hk hc := by
    obtain ⟨d, hd, hchar⟩ := h.exists_getElem?
    exact not_isChar_beside hc hd hchar (.inl hk) fun c => h.before k c hk
  behind c hc := by
    have hlast : name.length - 1 < name.length := Nat.sub_lt h.length_pos Nat.one_pos
    have hd := h.shown _ hlast
    rw [List.getElem?_eq_getElem hlast] at hd
    exact not_isChar_beside hc hd (h.isChar_of_shown hlast hd)
      (.inr (by have := h.length_pos; omega)) h.behind

/-- The columns at which no identifier is looked for: the labels of arrows and the class
suffixes. -/
def hidesAt (l : Line) (n : Nat) : Bool := (edgeLabels l ++ classSuffixes l).any (·.contains n)

/-- Labels of arrows start with a bar, and class suffixes with a colon. -/
theorem eq_of_start {s : Span} (hs : s ∈ edgeLabels l ++ classSuffixes l) {c : Char}
    (hc : l[s.start]? = some c) : c = '|' ∨ c = ':' := by
  rw [edgeLabels_eq, classSuffixes_eq] at hs
  rcases List.mem_append.1 hs with hs | hs
  · left
    obtain ⟨x, y, found, rfl, hread, rfl⟩ := Text.exists_of_mem_spansOf hs
    obtain ⟨arrow, gap, text, rest, -, -, -, rfl, rfl⟩ := edgeLabelAt_eq_some_iff.1 hread
    have hplace : arrow.length + gap.length + x.length = (x ++ (arrow ++ gap)).length := by
      simp; omega
    rw [Span.shift, ← List.append_assoc arrow, ← List.append_assoc x,
      Text.getElem?_length_append _ hplace] at hc
    exact (Option.some.inj hc).symm
  · right
    obtain ⟨x, y, found, rfl, hread, rfl⟩ := Text.exists_of_mem_spansOf hs
    obtain ⟨⟨suffix, rest⟩, hsuffix, rfl⟩ := Option.map_eq_some_iff.1 hread
    simp only [classSuffix?, Option.bind_eq_bind, Option.bind_eq_some_iff] at hsuffix
    obtain ⟨after, hcolons, -⟩ := hsuffix
    rw [Span.shift, Text.after?_eq_some_iff.1 hcolons,
      Text.getElem?_length_append _ (Nat.zero_add _)] at hc
    exact (Option.some.inj hc).symm

theorem not_isChar_of_start {s : Span} (hs : s ∈ edgeLabels l ++ classSuffixes l) {c : Char}
    (hc : l[s.start]? = some c) : Identifier.isChar c = false := by
  rcases eq_of_start hs hc with rfl | rfl <;> decide

/-- A name that is not hidden and lies in no brackets is seen by the scan for identifiers. -/
theorem place_bared (h : Identifier.Place l n name) (hshown : hidesAt l n = false)
    (hout : ∀ d ∈ declarations l, d.bracketSpan.contains n = false) :
    Identifier.Place (Text.hide ' ' ((declarations l).map (·.bracketSpan)) (maskEdgeLabels l)) n
      name := by
  have hmasked : Identifier.Place (maskEdgeLabels l) n name :=
    h.hide (by decide) hshown fun s hs c => not_isChar_of_start hs
  refine hmasked.hide (by decide) ?_ ?_
  · rw [List.any_map]
    exact List.any_eq_false.2 fun d hd => Bool.eq_false_iff.1 (hout d hd)
  · intro s hs c hc
    obtain ⟨d, hd, rfl⟩ := List.mem_map.1 hs
    obtain ⟨hopener, hcloser⟩ := d.bracket.length_pos
    have hstart : d.labelStart = d.bracketSpan.start + d.bracket.opener.length := rfl
    have hstop : d.labelStart ≤ d.labelStop := Nat.le_add_right ..
    refine not_isChar_of_masked hd (contains_bracketSpan.2 (by omega)) ?_ hc
    rw [Bool.eq_false_iff, ne_eq, Declaration.contains_labelSpan]
    omega

/-- A name that the filled line shows is one of the line's identifiers unless it is hidden or a
keyword. -/
theorem mem_identifiers_of_place (hline : isDirective l = false)
    (h : Identifier.Place (maskLabels l) n name) (hshown : hidesAt l n = false)
    (hname : Keyword.isKeyword name = false) : name ∈ identifiers l := by
  obtain ⟨c, hc, hchar⟩ := h.exists_getElem?
  have hbare := place_bared (place_of_maskLabels h) hshown (getElem?_of_maskLabels hc hchar).2
  rw [identifiers, if_neg (by simp [hline])]
  refine mem_distinct
    (List.mem_filter.2 ⟨List.mem_map.2 ⟨_, Identifier.mem_tokens_of_place hbare, rfl⟩, ?_⟩)
  simp [hname]

end Line

/-! ## The ends of a link -/

/-- The offset of the target from the start of the link. -/
def Link.targetStart (l : Link) : Nat := (l.source ++ l.inline ++ l.connector.written).length

namespace Line

variable {line : Line} {column : Nat} {l : Link}

/-- The ends of a link stand on the filled line as whole identifiers, and there is an arrow between
them. -/
theorem places_of_link? (h : link? line = some (column, l)) :
    Identifier.Place (maskLabels line) column l.source ∧
      Identifier.Place (maskLabels line) (column + l.targetStart) l.target ∧
        hasArrow line = true := by
  obtain ⟨front, rest, hmask, rfl, hbefore, hread, -⟩ := Link.exists_of_first? h
  obtain ⟨⟨s, hsource⟩, t, after, hsplit, hconnector, htarget⟩ := Link.parts_of_read? hread
  refine ⟨?_, ?_, ?_⟩
  · rw [hmask, Identifier.eq_append_of_read? hsource]
    exact Identifier.place_append (Identifier.valid_of_read? hsource) hbefore
      (Identifier.stops_of_read? hsource)
  · obtain ⟨written, c, hwritten, hc⟩ := Connector.exists_written_eq hconnector
    have hend : Identifier.apart
        (Text.endOf none (front ++ (l.source ++ l.inline ++ l.connector.written))) = true := by
      rw [hwritten, ← List.append_assoc, ← List.append_assoc, Text.endOf_append]
      have hnot : Identifier.isChar c = false := by
        rcases hc with hblank | rfl | ⟨rfl, -⟩
        · exact Identifier.not_isChar_of_isBlank hblank
        · decide
        · decide
      simp [Text.endOf, Identifier.apart, hnot]
    have hline : maskLabels line =
        front ++ (l.source ++ l.inline ++ l.connector.written) ++ (l.target ++ rest) := by
      rw [hmask, Link.written]
      simp
    rw [hline, Link.targetStart, ← List.length_append]
    exact Identifier.place_append (Identifier.valid_of_read? htarget) hend
      (Identifier.stops_of_read? htarget)
  · have hline : maskLabels line = front ++ (l.source ++ l.inline) ++ t := by
      rw [hmask, hsplit, ← List.append_assoc]
    exact hasArrow_of_connector hline (by rw [hconnector]; rfl)

end Line
end Chartwright
