import Chartwright.Proofs.Line.Places
import Chartwright.Proofs.Line.Slot
/-!
What a line names is mentioned on it.

The identifiers of a line are read with the labels of arrows, the class suffixes and the brackets of
declarations hidden; a mention is looked for with nothing hidden but the labels of declarations. The
two agree on what a line names, because no identifier runs across an end of what is hidden
(`Line.separates_of_mem`, `Line.separates_bracketSpan`): what is seen as an identifier is one on the
line itself. So each identifier of a line, and each declared one, is found where it stands
(`Line.exists_place_of_mem_identifiers`, `Line.place_of_mem_declarations`).
-/
namespace Chartwright

namespace Line

variable {l name : Text} {n i : Nat} {d : Declaration}

/-! ## What is hidden -/

/-- Labels of arrows stand between bars, and class suffixes begin with a colon and run on as long as
they can. -/
theorem separates_of_mem {s : Span} (hs : s ∈ edgeLabels l ++ classSuffixes l) :
    Identifier.Separates l s where
  start k c d hk _ hd _ := not_isChar_of_start hs (hk ▸ hd)
  stop k c d hk hc hd hchar := by
    rw [edgeLabels_eq, classSuffixes_eq] at hs
    rcases List.mem_append.1 hs with hs | hs
    · obtain ⟨x, y, found, rfl, hread, rfl⟩ := Text.exists_of_mem_spansOf hs
      obtain ⟨arrow, gap, text, rest, -, -, -, rfl, rfl⟩ := edgeLabelAt_eq_some_iff.1 hread
      have hsplit : x ++ (arrow ++ (gap ++ (['|'] ++ text ++ ['|'] ++ rest))) =
          (x ++ (arrow ++ (gap ++ (['|'] ++ text)))) ++ (['|'] ++ rest) := by simp
      have hplace : k = (x ++ (arrow ++ (gap ++ (['|'] ++ text)))).length := by
        simp only [Span.shift, List.length_append, List.length_singleton] at hk ⊢
        omega
      rw [hsplit, Text.getElem?_length_append _ hplace] at hc
      obtain rfl : '|' = c := Option.some.inj hc
      exact absurd hchar (by decide)
    · obtain ⟨x, y, found, rfl, hread, rfl⟩ := Text.exists_of_mem_spansOf hs
      obtain ⟨⟨suffix, rest⟩, hsuffix, rfl⟩ := Option.map_eq_some_iff.1 hread
      simp only [classSuffix?, Option.bind_eq_bind, Option.bind_eq_some_iff,
        Option.ite_none_left_eq_some, Option.some.injEq, Prod.mk.injEq] at hsuffix
      obtain ⟨after, hcolons, -, rfl, rfl⟩ := hsuffix
      have hsplit : x ++ y = (x ++ ([':', ':', ':'] ++ after.takeWhile Text.isWord)) ++
          after.dropWhile Text.isWord := by
        rw [Text.after?_eq_some_iff.1 hcolons, List.append_assoc, List.append_assoc,
          List.takeWhile_append_dropWhile]
      have hplace : k + 1 = (x ++ ([':', ':', ':'] ++ after.takeWhile Text.isWord)).length := by
        simp only [Span.shift, List.length_append] at hk ⊢
        omega
      rw [hsplit, Text.getElem?_length_append _ hplace] at hd
      have hnot := List.head?_dropWhile_not Text.isWord after
      rw [hd] at hnot
      refine Bool.eq_false_iff.2 fun hword => ?_
      simp [Text.isWord_of_isChar hword] at hnot

theorem separates_bracketSpan (hd : d ∈ declarations l) :
    Identifier.Separates (maskEdgeLabels l) d.bracketSpan := by
  obtain ⟨hopener, hcloser⟩ := d.bracket.length_pos
  have hstart : d.labelStart = d.bracketSpan.start + d.bracket.opener.length := rfl
  have hstop : d.bracketSpan.stop = d.labelStop + d.bracket.closer.length := rfl
  have hlabel : d.labelStart ≤ d.labelStop := Nat.le_add_right ..
  constructor
  case start =>
    intro k c e hk _ he _
    refine not_isChar_of_masked hd (contains_bracketSpan.2 (by omega)) ?_ he
    rw [Bool.eq_false_iff, ne_eq, Declaration.contains_labelSpan]
    omega
  case stop =>
    intro k c e hk hc _ hchar
    rw [not_isChar_of_masked hd (contains_bracketSpan.2 (by omega)) ?_ hc] at hchar
    · cases hchar
    · rw [Bool.eq_false_iff, ne_eq, Declaration.contains_labelSpan]
      omega

/-! ## Declarations one behind the other -/

theorem pairwise_declarations (l : Line) :
    (declarations l).Pairwise fun d e => d.stop ≤ e.start := by
  rw [declarations]
  split
  · exact .nil
  · refine List.pairwise_map.2
      (((Declaration.pairwise_readFrom none 0 0 _).filter _).imp_of_mem fun hd _ hle => ?_)
    have hspan :=
      Declaration.labelSpan_withLabelOf (labelStop_le_of_mem_readFrom (List.mem_filter.1 hd).1)
    have hstop : (Declaration.withLabelOf l _).labelStop = _ := congrArg Span.stop hspan
    rw [Declaration.stop, hstop]
    exact hle

theorem eq_or_stop_le {e : Declaration} (hd : d ∈ declarations l) (he : e ∈ declarations l) :
    d = e ∨ d.stop ≤ e.start ∨ e.stop ≤ d.start := by
  have hpairs := List.pairwise_iff_getElem.1 (pairwise_declarations l)
  obtain ⟨i, hi, rfl⟩ := List.getElem_of_mem hd
  obtain ⟨j, hj, rfl⟩ := List.getElem_of_mem he
  rcases Nat.lt_trichotomy i j with hlt | rfl | hlt
  · exact .inr (.inl (hpairs i j hi hj hlt))
  · exact .inl rfl
  · exact .inr (.inr (hpairs j i hj hi hlt))

/-- The first of some declarations that is found starts before the others. -/
theorem start_le_of_find? {e : Declaration} {p : Declaration → Bool}
    (h : (declarations l).find? p = some d) (he : e ∈ declarations l) (hp : p e = true) :
    d.start ≤ e.start := by
  obtain ⟨-, front, back, hsplit, hnone⟩ := List.find?_eq_some_iff_append.1 h
  rw [hsplit] at he
  rcases List.mem_append.1 he with hbefore | hrest
  · have hnot := hnone e hbefore
    rw [hp] at hnot
    cases hnot
  rcases List.mem_cons.1 hrest with rfl | hbehind
  · exact Nat.le_refl _
  · have hpairs := pairwise_declarations l
    rw [hsplit] at hpairs
    have hstop : d.stop ≤ e.start :=
      (List.pairwise_cons.1 (List.pairwise_append.1 hpairs).2.1).1 e hbehind
    have hparts := d.parts_le
    omega

theorem not_contains_labelSpan {e : Declaration} (hd : d ∈ declarations l) (he : e ∈ declarations l)
    (hi : i < d.id.length) : e.labelSpan.contains (d.start + i) = false := by
  have hparts := d.parts_le
  have hothers := e.parts_le
  rw [Bool.eq_false_iff, ne_eq, Declaration.contains_labelSpan]
  rcases eq_or_stop_le hd he with rfl | hbefore | hbehind <;> omega

/-! ## Names -/

/-- What is seen as an identifier with all of this hidden stands on the line, outside of labels. -/
theorem place_of_bared
    (h : Identifier.Place (Text.hide ' ' ((declarations l).map (·.bracketSpan)) (maskEdgeLabels l))
    n name) : Identifier.Place (maskLabels l) n name := by
  have hmasked : Identifier.Place (maskEdgeLabels l) n name := by
    refine h.of_hide (by decide) fun s hs => ?_
    obtain ⟨d, hd, rfl⟩ := List.mem_map.1 hs
    exact separates_bracketSpan hd
  have hplain : Identifier.Place l n name := hmasked.of_hide (by decide) fun s => separates_of_mem
  refine hplain.hide_of_outside (by decide) fun i hi => List.any_eq_false.2 fun s hs hin => ?_
  obtain ⟨d, hd, rfl⟩ := List.mem_map.1 hs
  have hout := List.any_eq_false.1 (h.outside_of_hide (by decide) i hi) _ (List.mem_map_of_mem hd)
  rw [Declaration.contains_labelSpan] at hin
  rw [contains_bracketSpan] at hout
  omega

theorem exists_place_of_mem_identifiers (h : name ∈ identifiers l) :
    isDirective l = false ∧ ∃ n, Identifier.Place (maskLabels l) n name := by
  rw [identifiers] at h
  split at h
  · cases h
  · next hline =>
    obtain ⟨htoken, -⟩ := List.mem_filter.1 (mem_distinctBy h)
    obtain ⟨⟨n, found⟩, hfound, rfl⟩ := List.mem_map.1 htoken
    exact ⟨Bool.eq_false_iff.2 hline, n, place_of_bared (Identifier.place_of_mem_tokens hfound)⟩

/-- A declared name stands where the declaration starts, outside of labels. -/
theorem place_of_mem_declarations (h : d ∈ declarations l) :
    Identifier.Place (maskLabels l) d.start d.id := by
  have hmasked : Identifier.Place (maskEdgeLabels l) d.start d.id := by
    obtain ⟨-, masked, hread, -, rfl⟩ := mem_declarations.1 h
    obtain ⟨front, back, hat, hstart, -⟩ := Declaration.exists_readAt hread
    rw [Nat.zero_add] at hstart
    obtain ⟨c, cs, hopener⟩ := List.exists_cons_of_length_pos masked.bracket.length_pos.1
    show Identifier.Place (maskEdgeLabels l) masked.start masked.id
    rw [hat.split, hstart, Declaration.written, List.append_assoc, List.append_assoc,
      List.append_assoc, hopener]
    exact Identifier.place_append hat.valid hat.apart
      (Text.stops_cons.2 (Bracket.not_isChar_of_mem_opener (hopener ▸ List.mem_cons_self)))
  have hplain : Identifier.Place l d.start d.id :=
    hmasked.of_hide (by decide) fun s => separates_of_mem
  refine hplain.hide_of_outside (by decide) fun i hi => ?_
  rw [List.any_map]
  exact List.any_eq_false.2 fun e he => Bool.eq_false_iff.1 (not_contains_labelSpan h he hi)

end Line
end Chartwright
