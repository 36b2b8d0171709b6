import Chartwright.Proofs.Line.Row
/-!
Lines with a place for a label.

A slot is a line without the label of one of its declarations. Up to the start of that declaration
the line is read the same whatever follows (`Declaration.readFrom_append_of_mem`), and a label that
the brackets take keeps to its place (`Slot.Takes`): no label of an arrow runs over an end of it. So
with any such label the line declares the same before and behind it (`Slot.Takes.shown_fill`).
-/
namespace Chartwright

/-! ## Reading up to a declaration -/

/-- A name that is read before a border is read the same whatever begins behind it. -/
theorem Identifier.read?_append_of_apart {before : Option Char} {x : Text} (hx : x ≠ [])
    (happart : apart (Text.endOf before x) = true) (y : Text) :
    read? (x ++ y) = (read? x).map fun found => (found.1, found.2 ++ y) := by
  obtain ⟨c, cs, rfl⟩ := List.exists_cons_of_ne_nil hx
  rw [List.cons_append, read?, read?]
  split
  · next hstart =>
    -- a name that ran up to the border would touch the one behind it
    obtain ⟨e, he, hnot⟩ : ∃ e ∈ cs, isChar e = false := by
      refine Classical.byContradiction fun hall => ?_
      obtain ⟨e, he, hend⟩ := Text.endOf_of_ne_nil before hx
      rw [hend, apart, Option.any_some, Bool.not_eq_true'] at happart
      rcases List.mem_cons.1 he with rfl | he
      · rw [isChar_of_isStart hstart] at happart
        cases happart
      · exact hall ⟨e, he, happart⟩
    have hdrop : cs.dropWhile isChar ≠ [] := by
      intro hnil
      have hsplit := List.takeWhile_append_dropWhile (p := isChar) (l := cs)
      rw [hnil, List.append_nil] at hsplit
      have hchar : isChar e = true := List.all_eq_true.1 List.all_takeWhile e (hsplit.symm ▸ he)
      rw [hnot] at hchar
      cases hchar
    have htake : (cs.takeWhile isChar).length ≠ cs.length := by
      intro hlength
      have := congrArg List.length (List.takeWhile_append_dropWhile (p := isChar) (l := cs))
      rw [List.length_append, hlength] at this
      exact hdrop (List.length_eq_zero_iff.1 (by omega))
    rw [List.takeWhile_append, List.dropWhile_append, if_neg htake, if_neg (by simpa using hdrop),
      Option.map_some]
  · rfl

namespace Declaration

variable {before : Option Char} {skip offset : Nat} {x y : Text} {d : Declaration}

theorem opening?_append_of_apart (hx : x ≠ [])
    (happart : Identifier.apart (Text.endOf before x) = true)
    (hy : ∃ c ∈ y.head?, Identifier.isChar c = true) :
    opening? before (x ++ y) = (opening? before x).map fun (id, b, rest) => (id, b, rest ++ y) := by
  obtain ⟨d, hd, hchar⟩ := hy
  refine opening?_append (Identifier.read?_append_of_apart hx happart y) (fun c hc => ?_) before
  obtain rfl : d = c := Option.some.inj (hd.symm.trans hc)
  refine Bool.eq_false_iff.2 fun hopener => ?_
  obtain ⟨b, -, hmem⟩ := List.any_eq_true.1 hopener
  have hnot := Bracket.not_isChar_of_mem_opener (b := b) (c := d) (by simpa using hmem)
  rw [hchar] at hnot
  cases hnot

theorem exists_of_cut? {id label rest after : Text} {b : Bracket}
    (h : opening? before x = some (id, b, rest))
    (hcut : Text.cut? b.closer (rest ++ y) = some (label, after))
    (hwidth : (⟨id, b, label, offset⟩ : Declaration).written.length ≤ x.length) :
    ∃ r, rest = label ++ b.closer ++ r ∧
      Text.cut? b.closer (label ++ b.closer) = some (label, []) := by
  have hself := opening?_eq_some h
  have hsplit := Text.eq_append_of_cut? hcut
  have hclosed : label ++ b.closer <+: rest := by
    refine List.prefix_of_prefix_length_le ⟨after, hsplit.symm⟩ ⟨y, rfl⟩ ?_
    simp only [hself, written, List.length_append] at hwidth ⊢
    omega
  obtain ⟨r, rfl⟩ := hclosed
  rw [hsplit] at hcut
  exact ⟨r, rfl, Text.cut?_shorten hcut⟩

/-- Up to a declaration a text is read the same whatever identifier begins there. -/
theorem readFrom_append_of_apart {c : Char} {cs z : Text} (hchar : Identifier.isChar c = true)
    (happart : Identifier.apart (Text.endOf before x) = true) (hz : z.head? = some c)
    (h : d ∈ readFrom before skip offset (x ++ c :: cs)) (hstart : d.start = offset + x.length) :
    readFrom before skip offset (x ++ z) =
      readFrom before skip offset x ++ readFrom (Text.endOf before x) 0 (offset + x.length) z := by
  induction x generalizing before skip offset with
  | nil =>
    have hskip := le_start_of_mem_readFrom h
    rw [hstart, List.length_nil] at hskip
    obtain rfl : skip = 0 := by omega
    rfl
  | cons e es ih =>
    have hnext : d.start = offset + 1 + es.length := by rw [hstart, List.length_cons]; omega
    have hlater : ∀ {skip}, d ∈ readFrom (some e) skip (offset + 1) (es ++ c :: cs) →
        readFrom (some e) skip (offset + 1) (es ++ z) = readFrom (some e) skip (offset + 1) es ++
          readFrom (Text.endOf before (e :: es)) 0 (offset + (e :: es).length) z := by
      intro skip hmem
      have := ih happart hmem hnext
      rwa [Nat.add_assoc, Nat.add_comm 1] at this
    cases skip with
    | succ k => exact hlater h
    | zero =>
      have hreadY :=
        opening?_append_of_apart (List.cons_ne_nil e es) happart (y := c :: cs) ⟨c, rfl, hchar⟩
      have hreadZ :=
        opening?_append_of_apart (List.cons_ne_nil e es) happart (y := z) ⟨c, hz, hchar⟩
      rw [List.cons_append] at hreadY hreadZ
      rw [List.cons_append, readFrom, hreadY] at h
      rw [List.cons_append, readFrom, hreadZ, readFrom]
      cases hhere : opening? before (e :: es) with
      | none =>
        rw [hhere] at h
        exact hlater h
      | some found =>
        obtain ⟨id, b, rest⟩ := found
        rw [hhere] at h
        dsimp only [Option.map_some] at h ⊢
        cases hcut : Text.cut? b.closer (rest ++ c :: cs) with
        | none =>
          rw [hcut] at h
          cases h
        | some closed =>
          obtain ⟨label, after⟩ := closed
          rw [hcut] at h
          rcases List.mem_cons.1 h with rfl | h
          · rw [List.length_cons] at hstart
            exact absurd hstart (by simp)
          · -- the declaration closes before the border, since another one starts there
            have hfit := le_start_of_mem_readFrom h
            have hwidth : (⟨id, b, label, offset⟩ : Declaration).written.length ≤
                (e :: es).length := by
              rw [hstart, List.length_cons] at hfit
              rw [List.length_cons]
              omega
            obtain ⟨r, rfl, hshort⟩ := exists_of_cut? hhere hcut hwidth
            have hcutZ := Text.cut?_append (r ++ z) hshort
            have hcutSelf := Text.cut?_append r hshort
            rw [← List.append_assoc] at hcutZ
            simp only [hcutZ, hcutSelf]
            rw [hlater h]
            rfl

/-- Up to a declaration a text is read the same whatever begins there as the declaration does. -/
theorem readFrom_append_of_mem {z : Text} (h : d ∈ readFrom before skip offset (x ++ y))
    (hstart : d.start = offset + x.length) (hz : z.head? = y.head?) :
    readFrom before skip offset (x ++ z) =
      readFrom before skip offset x ++ readFrom (Text.endOf before x) 0 (offset + x.length) z := by
  obtain ⟨back, hat⟩ := exists_readAt_of_start h hstart
  obtain ⟨c, cs, hid⟩ := List.exists_cons_of_ne_nil (Identifier.ne_nil_of_valid hat.valid)
  have hchar : Identifier.isChar c = true :=
    Identifier.isChar_of_valid hat.valid c (hid ▸ List.mem_cons_self)
  obtain ⟨rest, rfl⟩ : ∃ rest, y = c :: rest := by
    rw [List.append_cancel_left hat.split, written, hid]
    exact ⟨_, rfl⟩
  exact readFrom_append_of_apart hchar hat.apart hz h hstart

end Declaration

/-! ## Labels that fit -/

namespace Bracket

variable {b : Bracket} {label : Text}

/-- A label that fits between a pair of brackets: it stands on one line and holds no bar, no longer
opener is read before it, and the closer is first read behind it. -/
structure Admits (b : Bracket) (label : Text) : Prop where
  lineFeed_not_mem : '\n' ∉ label
  bar_not_mem : '|' ∉ label
  opens : Bracket.read? (b.opener ++ label) = some (b, label)
  closes : Text.cut? b.closer (label ++ b.closer) = some (label, [])

/-- A label that is read back between its brackets, whatever arrows it holds. -/
structure Suits (b : Bracket) (label : Text) : Prop where
  lineFeed_not_mem : '\n' ∉ label
  opens : Bracket.read? (b.opener ++ label) = some (b, label)
  closes : Text.cut? b.closer (label ++ b.closer) = some (label, [])

theorem read?_opener_closer (h : Bracket.read? (b.opener ++ label) = some (b, label)) :
    Bracket.read? (b.opener ++ (label ++ b.closer)) = some (b, label ++ b.closer) := by
  have hstops := read?_opener_append.1 h
  apply read?_opener_append.2
  cases label with
  | nil => cases b <;> exact Text.stops_cons.2 (by decide)
  | cons c cs => exact Text.stops_cons.2 (Text.stops_cons.1 hstops)

theorem holds_of_read?
    (opens : Bracket.read? (b.opener ++ (label ++ b.closer)) = some (b, label ++ b.closer))
    (closes : Text.cut? b.closer (label ++ b.closer) = some (label, [])) : b.Holds label where
  opens := by
    have hfiller : b.isExtension ' ' = false := by cases b <;> rfl
    have hread := read?_hide hfiller (Line.edgeLabels label ++ Line.classSuffixes label) opens []
    rwa [List.append_nil] at hread
  closes := Text.cut?_hide b.space_not_mem_closer closes

theorem Suits.holds (h : b.Suits label) : b.Holds label :=
  holds_of_read? (read?_opener_closer h.opens) h.closes

theorem Admits.holds (h : b.Admits label) : b.Holds label :=
  holds_of_read? (read?_opener_closer h.opens) h.closes

end Bracket

theorem Line.confined_of_bar_not_mem {x y : Text} (hy : Text.Stops (fun c => !isFirm c) y)
    (hbar : '|' ∉ y) : Text.Confined edgeLabelAt y 0 x := by
  apply Classical.byContradiction
  intro hnot
  obtain ⟨front, back, found, -, -, -, hfound, hcross⟩ :=
    Text.exists_of_not_confined (Nat.zero_le _) hnot
  obtain ⟨-, -, -, -, -, -, -, hmem, -⟩ := exists_open_of_edgeLabelAt hy hfound hcross
  exact hbar hmem

theorem Line.confined_of_no_bar {x y : Text} (hx : '|' ∉ x)
    (hy : Text.Stops (fun c => !isFirm c) y) : Text.Confined edgeLabelAt y 0 x := by
  refine Text.confined_of_none fun s hs _ => Option.eq_none_iff_forall_ne_some.2 fun found hfound =>
    ?_
  have hbar : '|' ∉ s := fun hmem => hx (hs.subset hmem)
  rcases Nat.lt_or_ge s.length found.2 with hcross | hin
  · obtain ⟨arrow, gap, text, -, -, -, rfl, -, -⟩ := exists_open_of_edgeLabelAt hy hfound hcross
    simp at hbar
  · obtain ⟨arrow, gap, text, rest, -, -, -, rfl, -⟩ :=
      edgeLabelAt_eq_some_iff.1 (edgeLabelAt_isLocal.cut hfound hin)
    simp at hbar

/-! ## Slots -/

/-- A line around a label: what stands before the declaration, its name and brackets, and what
stands behind it. -/
structure Slot where
  front : Text
  id : Text
  bracket : Bracket
  back : Text
  id_valid : Identifier.valid id = true

namespace Slot

/-- The line up to the label. -/
def head (s : Slot) : Text := s.front ++ (s.id ++ s.bracket.opener)

/-- The line behind the label. -/
def tail (s : Slot) : Text := s.bracket.closer ++ s.back

/-- The line with a label in place. -/
def fill (s : Slot) (label : Text) : Line := s.head ++ (label ++ s.tail)

def declared (s : Slot) (label : Text) : Declaration := ⟨s.id, s.bracket, label, s.front.length⟩

/-- The slot on the masked line. -/
def blanked (s : Slot) : Slot :=
  { s with
    front := (Line.maskEdgeLabels s.head).take s.front.length
    back := Line.maskEdgeLabels s.back }

/-- A label keeps to its place: the brackets hold it, and no label of an arrow runs over the name or
over the closer. The name and the opener are shown on the masked line, and reading gets there,
whatever follows. -/
structure Takes (s : Slot) (label : Text) : Prop where
  holds : s.bracket.Holds label
  closed : Text.Confined Line.edgeLabelAt s.tail 0 label
  opened : Text.Confined Line.edgeLabelAt (s.id ++ s.bracket.opener ++ (label ++ s.tail)) 0 s.front
  shown : Line.maskEdgeLabels s.head = s.blanked.head
  apart : Identifier.apart (Text.endOf none s.blanked.front) = true
  reached : ∀ rest, Declaration.readFrom none 0 0 (s.blanked.front ++ (s.id ++ rest)) =
    Declaration.readFrom none 0 0 s.blanked.front ++
      Declaration.readFrom (Text.endOf none s.blanked.front) 0 s.front.length (s.id ++ rest)

variable {s : Slot} {label other : Text}

theorem maskEdgeLabels_fill_of_confined
    (hopened : Text.Confined Line.edgeLabelAt (s.id ++ s.bracket.opener ++ (label ++ s.tail)) 0
    s.front)
    (hclosed : Text.Confined Line.edgeLabelAt s.tail 0 label)
    (hshown : Line.maskEdgeLabels s.head = s.blanked.head) :
    Line.maskEdgeLabels (s.fill label) = s.blanked.fill (Line.maskEdgeLabels label) := by
  rw [fill, head, Line.maskEdgeLabels_append (Line.parts_of_opened s.id_valid hopened), tail,
    Bracket.maskEdgeLabels_label hclosed, ← head, hshown]
  rfl

theorem Takes.maskEdgeLabels_fill (h : s.Takes label) :
    Line.maskEdgeLabels (s.fill label) = s.blanked.fill (Line.maskEdgeLabels label) :=
  maskEdgeLabels_fill_of_confined h.opened h.closed h.shown

theorem length_front_blanked (s : Slot) : s.blanked.front.length = s.front.length := by
  rw [blanked, List.length_take, Line.length_maskEdgeLabels, head, List.length_append]
  omega

/-- A declaration of a line leaves a slot that takes its label. -/
theorem exists_fill_of_mem_declarations {l : Line} {d : Declaration}
    (hd : d ∈ Line.declarations l) :
    ∃ s : Slot, l = s.fill d.label ∧ s.declared d.label = d ∧ s.Takes d.label ∧
      Keyword.isKeyword s.id = false := by
  obtain ⟨-, masked, hread, hkeyword, rfl⟩ := Line.mem_declarations.1 hd
  obtain ⟨front, label, back, hl, hstart, hvalid, hlabel, hholds, hclosed, hopened, shown, hlength,
    hshown⟩ :=
    Line.exists_open_of_mem_readFrom hread
  rw [Line.withLabelOf_eq hl hstart (by rw [hlabel, Line.length_maskEdgeLabels])]
  let s : Slot := ⟨front, masked.id, masked.bracket, back, hvalid⟩
  have hfill : l = s.fill label := by
    rw [hl]
    simp [s, fill, head, tail]
  have hhead : Line.maskEdgeLabels s.head = s.blanked.head := by
    have htake : (Line.maskEdgeLabels s.head).take s.front.length = shown := by
      rw [head, hshown, List.take_left' hlength]
    rw [head, blanked, htake]
    exact hshown
  have hmask : Line.maskEdgeLabels l = s.blanked.fill (Line.maskEdgeLabels label) :=
    hfill ▸ @maskEdgeLabels_fill_of_confined s label hopened hclosed hhead
  have hwritten : s.blanked.fill (Line.maskEdgeLabels label) =
      s.blanked.front ++ (s.id ++ (s.bracket.opener ++
      (Line.maskEdgeLabels label ++ (s.bracket.closer ++ Line.maskEdgeLabels s.back)))) := by
    simp [fill, head, tail, blanked]
  rw [hmask, hwritten] at hread
  have hplace : masked.start = 0 + s.blanked.front.length := by
    rw [s.length_front_blanked, hstart, Nat.zero_add]
  obtain ⟨c, cs, hc⟩ := List.exists_cons_of_ne_nil (Identifier.ne_nil_of_valid hvalid)
  refine ⟨s, hfill, by rw [declared, ← hstart],
    ⟨hholds, hclosed, hopened, hhead, ?_, fun rest => ?_⟩,
    hkeyword⟩
  · exact (Declaration.exists_readAt_of_start hread hplace).elim fun _ hat => hat.apart
  · have hsame := Declaration.readFrom_append_of_mem (z := s.id ++ rest) hread hplace (by
      simp only [s, hc, List.cons_append, List.head?_cons])
    rwa [Nat.zero_add, s.length_front_blanked] at hsame

/-- What the line shows before the declaration. -/
def before (s : Slot) : List Declaration :=
  ((Declaration.readFrom none 0 0 s.blanked.front).filter fun d => !Keyword.isKeyword d.id).map
    (Declaration.withLabelOf s.front)

/-- The masked line is read up to the declaration, then the declaration, and then what stands behind
it. -/
theorem Takes.readFrom_fill (h : s.Takes label) :
    Declaration.readFrom none 0 0 (Line.maskEdgeLabels (s.fill label)) =
      Declaration.readFrom none 0 0 s.blanked.front ++
        s.declared (Line.maskEdgeLabels label) ::
          (Declaration.readFrom none 0 0 (Line.maskEdgeLabels s.back)).map
            (Declaration.shift (s.head ++ (label ++ s.bracket.closer)).length) := by
  have hwritten : s.blanked.fill (Line.maskEdgeLabels label) =
      s.blanked.front ++ ((⟨s.id, s.bracket, Line.maskEdgeLabels label, 0⟩ : Declaration).written ++
        Line.maskEdgeLabels s.back) := by
    simp [fill, head, tail, blanked, Declaration.written]
  have hreached := h.reached (s.bracket.opener ++ (Line.maskEdgeLabels label ++ s.bracket.closer) ++
    Line.maskEdgeLabels s.back)
  have hopening : Declaration.opening? (Text.endOf none s.blanked.front)
      ((⟨s.id, s.bracket, Line.maskEdgeLabels label, 0⟩ : Declaration).written ++
        Line.maskEdgeLabels s.back) =
      some (s.id, s.bracket,
        Line.maskEdgeLabels label ++ (s.bracket.closer ++ Line.maskEdgeLabels s.back)) := by
    have hread := Identifier.read?_append s.id_valid (s.bracket.stops_isChar_opener
      (Line.maskEdgeLabels label ++ (s.bracket.closer ++ Line.maskEdgeLabels s.back)))
    simp only [Declaration.opening?, Identifier.token?, h.apart, if_true, Declaration.written,
      List.append_assoc, hread, Option.bind_eq_bind, Option.bind_some, h.holds.read?]
    rfl
  have hends : Identifier.apart (Text.endOf (Text.endOf none s.blanked.front)
      (⟨s.id, s.bracket, Line.maskEdgeLabels label, 0⟩ : Declaration).written) =
        Identifier.apart none := by
    have hcloser : ∀ before, Identifier.apart (Text.endOf before s.bracket.closer) = true := by
      intro before
      cases s.bracket <;> rfl
    rw [Declaration.written, Text.endOf_append, hcloser]
    rfl
  have hne : (⟨s.id, s.bracket, Line.maskEdgeLabels label, 0⟩ : Declaration).written ≠ [] := by
    simp [Declaration.written, Identifier.ne_nil_of_valid s.id_valid]
  have hhere := Declaration.readFrom_cons hopening (h.holds.cut? _) rfl hne s.front.length
  rw [Declaration.readFrom_before hends, Declaration.readFrom_offset none 0 (_ + _)] at hhere
  have hshape : (⟨s.id, s.bracket, Line.maskEdgeLabels label, 0⟩ : Declaration).written ++
      Line.maskEdgeLabels s.back =
      s.id ++ (s.bracket.opener ++ (Line.maskEdgeLabels label ++ s.bracket.closer) ++
        Line.maskEdgeLabels s.back) := by
    simp [Declaration.written]
  rw [h.maskEdgeLabels_fill, hwritten, hshape, hreached, ← hshape, hhere]
  have hplace : s.front.length +
      (⟨s.id, s.bracket, Line.maskEdgeLabels label, 0⟩ : Declaration).written.length =
      (s.head ++ (label ++ s.bracket.closer)).length := by
    simp [head, Declaration.written]
  rw [hplace]
  rfl

/-- A line shows the same before and behind a declaration, whatever label it has. -/
theorem Takes.shown_fill (h : s.Takes label) (hname : Keyword.isKeyword s.id = false) :
    Line.shown (s.fill label) = s.before ++ s.declared label ::
      (Line.shown s.back).map
        (Declaration.shift (s.head ++ (label ++ s.bracket.closer)).length) := by
  have hback : s.fill label = s.head ++ (label ++ s.bracket.closer) ++ s.back := by
    simp [fill, tail]
  rw [Line.shown, h.readFrom_fill, List.filter_append,
    List.filter_cons_of_pos (by simpa [declared] using hname), List.map_append, List.map_cons,
    List.filter_map, List.map_map, Line.shown, List.map_map]
  congr 1
  · refine List.map_congr_left fun d hd => ?_
    have hstop := Declaration.stop_le_of_mem_readFrom (List.mem_filter.1 hd).1
    rw [s.length_front_blanked] at hstop
    rw [fill, head, List.append_assoc,
      Declaration.withLabelOf_append (Nat.le_trans d.labelStop_le_stop hstop)]
  congr 1
  · have hline : s.fill label = s.front ++
        ((s.declared label).id ++ ((s.declared label).bracket.opener ++ (label ++ s.tail))) := by
      simp [fill, head, declared]
    exact Line.withLabelOf_eq hline rfl (by simp [declared])
  · refine List.map_congr_left fun d _ => ?_
    rw [Function.comp_apply, Function.comp_apply, Declaration.withLabelOf,
      Declaration.labelSpan_shift, hback, Span.cut_shift]
    rfl

end Slot
end Chartwright
