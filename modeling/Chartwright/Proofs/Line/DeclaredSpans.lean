import Chartwright.Proofs.Line.Mentions
/-!
The places of the declarations on a line.

Declarations are looked for on a copy of the line that hides the labels of arrows and the class
suffixes, and their labels are cut from the line itself. Both have the same offsets, and nothing of
a declaration but its label can be hidden: so each stands on the line as it says
(`Line.standsOn_of_mem`), one behind the other. The opener is the longest one on the line itself,
too, since a label that begins with something hidden begins with a colon there
(`Bracket.Holds.stops_label`). No arrow is left in a label once it is filled (`Line.arrowsOutside`).

Main statement: `Line.declared_spans`, for every line.
-/
namespace Chartwright

/-! ## Openers -/

namespace Bracket

variable {b : Bracket} {label : Text}

theorem closer_eq_of_opener_eq {a b : Bracket} (h : a.opener = b.opener) : a.closer = b.closer := by
  revert h
  cases a <;> cases b <;> decide

theorem not_isExtension_of_start (b : Bracket) {c : Char} (h : c = '|' ∨ c = ':') :
    b.isExtension c = false := by
  rcases h with rfl | rfl <;> cases b <;> rfl

/-- A label that does not prolong the opener on the masked line does not on the line itself. -/
theorem Holds.stops_label (h : b.Holds label) (t : Text) :
    Text.Stops b.isExtension (label ++ (b.closer ++ t)) := by
  have hmasked := h.stops
  cases label with
  | nil =>
    apply (stops_isExtension_append [] t []).2
    rwa [List.append_nil]
  | cons c cs =>
    apply Text.stops_cons.2
    by_cases hhidden :
      (Line.edgeLabels (c :: cs) ++ Line.classSuffixes (c :: cs)).any (·.contains 0) = true
    · obtain ⟨s, hs, hin⟩ := List.any_eq_true.1 hhidden
      simp only [Span.contains, Bool.and_eq_true, decide_eq_true_eq] at hin
      have hstart : s.start = 0 := Nat.le_zero.1 hin.1
      exact b.not_isExtension_of_start (Line.eq_of_start hs (by rw [hstart]; rfl))
    · apply hmasked c
      rw [Option.mem_def, List.head?_eq_getElem?, List.getElem?_append_left (by simp),
        Line.maskEdgeLabels, Text.getElem?_hide]
      simp only [if_neg hhidden, List.getElem?_cons_zero, Option.map_some]

end Bracket

/-! ## Declarations on their line -/

/-- A declaration stands on a line where its offsets say: the identifier, the longest opener behind
it, the label and the closer of that opener. -/
structure Declaration.StandsOn (l : Line) (d : Declaration) : Prop where
  ordered : d.start < d.openerStart ∧ d.openerStart < d.labelStart ∧ d.labelStart ≤ d.labelStop ∧
      d.labelStop < d.stop
  inside : d.stop ≤ l.length
  cut : (⟨d.start, d.stop⟩ : Span).cut l = d.id ++ d.bracket.opener ++ d.label ++ d.bracket.closer
  cut_label : d.labelSpan.cut l = d.label
  opened : Bracket.read? (l.drop d.openerStart) = some (d.bracket, l.drop d.labelStart)
  paired : ∀ b : Bracket, b.opener = d.bracket.opener → b.closer = d.bracket.closer
  valid : Identifier.valid d.id = true
  not_keyword : Keyword.isKeyword d.id = false
  apart : ∀ k c, d.start = k + 1 → l[k]? = some c → Identifier.isChar c = false

namespace Line

variable {l : Line} {d : Declaration} {i : Nat}

theorem standsOn_of_mem (hd : d ∈ declarations l) : d.StandsOn l := by
  have hplace : Identifier.Place l d.start d.id :=
    place_of_maskLabels (place_of_mem_declarations hd)
  obtain ⟨front, back, hline, hstart, hvalid, hkeyword, hholds, -⟩ := exists_of_mem_declarations hd
  obtain ⟨hopener, hcloser⟩ := d.bracket.length_pos
  have hwritten : d.stop = front.length + d.written.length := by
    rw [d.length_written, hstart]
    have hparts := d.parts_le
    omega
  have hname : l = (front ++ d.id) ++
      (d.bracket.opener ++ (d.label ++ (d.bracket.closer ++ back))) := by
    rw [hline, Declaration.written]
    simp
  have hlabel : l = (front ++ (d.id ++ d.bracket.opener)) ++
      (d.label ++ (d.bracket.closer ++ back)) := by
    rw [hname]
    simp
  constructor
  case ordered =>
    have hid := hplace.length_pos
    refine ⟨?_, ?_, ?_, ?_⟩
    · show d.start < d.start + d.id.length
      omega
    · show d.openerStart < d.openerStart + d.bracket.opener.length
      omega
    · exact d.parts_le.2.1
    · show d.labelStop < d.labelStop + d.bracket.closer.length
      omega
  case inside =>
    rw [hwritten, hline, List.length_append, List.length_append]
    omega
  case cut =>
    rw [hwritten, hstart, hline]
    exact Span.cut_append front d.written back
  case cut_label =>
    rw [Declaration.labelSpan_eq hstart, hlabel]
    exact Span.cut_append (front ++ (d.id ++ d.bracket.opener)) d.label (d.bracket.closer ++ back)
  case opened =>
    have hbehindName :
        l.drop d.openerStart = d.bracket.opener ++ (d.label ++ (d.bracket.closer ++ back)) := by
      rw [Declaration.openerStart, hstart, ← List.length_append, hname]
      exact List.drop_left
    have hbehindOpener : l.drop d.labelStart = d.label ++ (d.bracket.closer ++ back) := by
      rw [Declaration.labelStart, ← List.drop_drop, hbehindName]
      exact List.drop_left
    rw [hbehindName, hbehindOpener]
    exact Bracket.read?_opener_append.2 (hholds.stops_label back)
  case paired => exact fun b => Bracket.closer_eq_of_opener_eq
  case valid => exact hvalid
  case not_keyword => exact hkeyword
  case apart => exact hplace.before

/-! ## Filled labels -/

/-- No label covers a column. -/
def unlabelled (l : Line) (i : Nat) : Bool := (declarations l).all fun d => !d.labelSpan.contains i

theorem unlabelled_iff :
    unlabelled l i = true ↔ ∀ d ∈ declarations l, d.labelSpan.contains i = false := by
  simp [unlabelled]

theorem getElem?_maskLabels_eq (l : Line) (i : Nat) :
    (maskLabels l)[i]? = l[i]?.map fun c => if unlabelled l i then c else '\x00' := by
  have hany : ((declarations l).map (·.labelSpan)).any (·.contains i) = !unlabelled l i := by
    rw [List.any_map, unlabelled, List.not_all_eq_any_not]
    simp only [Bool.not_not, Function.comp_def]
  rw [getElem?_maskLabels, hany]
  cases unlabelled l i <;> rfl

/-- Where an arrow can be read once the labels are filled, it covers no column of a label. -/
def ArrowsOutside (l : Line) : Prop :=
  ∀ front back arrow rest, maskLabels l = front ++ back → Arrow.read? back = some (arrow, rest) →
    ∀ d ∈ declarations l, ∀ i,
      (⟨front.length, front.length + arrow.length⟩ : Span).contains i = true →
        d.labelSpan.contains i = false

theorem arrowsOutside (l : Line) : ArrowsOutside l := by
  intro front back arrow rest hmask hread d hd i hin
  obtain ⟨hspelling, rfl⟩ := Arrow.read?_eq_some_iff.1 hread
  simp only [Span.contains, Bool.and_eq_true, decide_eq_true_eq] at hin
  have hi : i - front.length < arrow.length := by omega
  have hshown : (maskLabels l)[i]? = some arrow[i - front.length] := by
    rw [hmask, List.getElem?_append_right hin.1, List.getElem?_append_left hi,
      List.getElem?_eq_getElem hi]
  refine Bool.eq_false_iff.2 fun hlabel => ?_
  obtain ⟨hstart, hstop⟩ := Declaration.contains_labelSpan.1 hlabel
  -- the filler would be a character of the arrow
  have hfiller : arrow[i - front.length] = '\x00' := getElem?_filled hd hstart hstop hshown
  exact hspelling.not_mem (by decide) (hfiller ▸ List.getElem_mem hi)

theorem getElem?_maskLabels_of_outside (h : ∀ d ∈ declarations l, d.labelSpan.contains i = false) :
    (maskLabels l)[i]? = l[i]? := by
  rw [getElem?_maskLabels_eq, unlabelled_iff.2 h]
  simp only [if_true, Option.map_id']

/-- The declarations of a line stand on it one behind the other, and filling their labels changes
nothing else and leaves no arrow in them. -/
theorem declared_spans (l : Line) :
    (declarations l).Pairwise (fun d e => d.stop ≤ e.start) ∧ (∀ d ∈ declarations l, d.StandsOn l) ∧
      (maskLabels l).length = l.length ∧
      (∀ i, (∀ d ∈ declarations l, d.labelSpan.contains i = false) → (maskLabels l)[i]? = l[i]?) ∧
      ArrowsOutside l := by
  refine ⟨pairwise_declarations l, fun d => standsOn_of_mem, length_maskLabels l,
    fun i => ?_, arrowsOutside l⟩
  exact getElem?_maskLabels_of_outside

end Line
end Chartwright
