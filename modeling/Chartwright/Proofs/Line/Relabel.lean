import Chartwright.Proofs.Line.Slot
/-!
A line with another label.

Another label that fits the brackets keeps to its place too (`Slot.Takes.of_admits`). The line is
then filled with as many NUL as the label has characters, and no differently
(`Slot.Takes.filled_fill`), and it has the same identifiers (`Slot.Takes.identifiers_fill`).
-/
namespace Chartwright

namespace Identifier

/-- Spaces between two texts keep the tokens of the one apart from those of the other. -/
theorem tokens_append_spaces (x y : Text) {n : Nat} (hn : n ≠ 0) :
    (tokens (x ++ (List.replicate n ' ' ++ y))).map (·.2) =
      (tokens x).map (·.2) ++ (tokens y).map (·.2) := by
  obtain ⟨n, rfl⟩ := Nat.exists_eq_succ_of_ne_zero hn
  have hspaces : ∀ s, s <:+ List.replicate (n + 1) ' ' → s ≠ [] →
      ∀ before, tokenAt before (s ++ y) = none := by
    intro s hs hne before
    obtain ⟨c, cs, rfl⟩ := List.exists_cons_of_ne_nil hne
    obtain rfl : c = ' ' := List.eq_of_mem_replicate (hs.subset List.mem_cons_self)
    exact tokenAt_of_not_isStart (by decide) before _
  have hend : ∀ before, apart (Text.endOf before (List.replicate (n + 1) ' ')) = true := by
    intro before
    obtain ⟨c, hc, hend⟩ := Text.endOf_of_ne_nil before (x := List.replicate (n + 1) ' ') (by simp)
    rw [hend, List.eq_of_mem_replicate hc]
    rfl
  have hwithin : Text.Within tokenAt x (List.replicate (n + 1) ' ' ++ y) :=
    within_tokenAt (Text.stops_cons.2 (by decide))
  rw [tokens_eq, Text.occurrencesFrom_append hwithin none 0 0 (Nat.zero_le _),
    Text.occurrencesFrom_of_none hspaces, List.map_append, map_tokensFrom (hend _), ← tokens_eq]

end Identifier

namespace Slot

variable {s : Slot} {label other : Text}

/-- Another label that fits the brackets keeps to its place too. -/
theorem Takes.of_admits (h : s.Takes label) (hother : s.bracket.Admits other) : s.Takes other where
  holds := hother.holds
  closed := Line.confined_of_no_bar hother.bar_not_mem (s.bracket.firm_closer s.back)
  opened := by
    refine Line.confined_of_bars ?_ (fun hbar => ?_) h.opened
    · obtain ⟨c, cs, hc⟩ := List.exists_cons_of_ne_nil (Identifier.ne_nil_of_valid s.id_valid)
      have hchar : Identifier.isChar c = true :=
        Identifier.isChar_of_valid s.id_valid c (hc ▸ List.mem_cons_self)
      rw [hc]
      exact Text.stops_cons.2 (by simp [Line.isFirm_of_isChar hchar])
    · rcases List.mem_append.1 hbar with hbar | hbar
      · exact List.mem_append_left _ hbar
      · rcases List.mem_append.1 hbar with hbar | hbar
        · exact absurd hbar hother.bar_not_mem
        · exact List.mem_append_right _ (List.mem_append_right _ hbar)
  shown := h.shown
  apart := h.apart
  reached := h.reached

/-! ## Hiding -/

/-- One part of a text is hidden whole, with spans before it and behind it. -/
theorem hide_between {filler : Char} {spans others : List Span} {x p y q : Text}
    (h : ∀ s ∈ spans, s.stop ≤ x.length) (z : Text) :
    Text.hide filler (spans ++ ⟨(x ++ p).length, (x ++ p).length + y.length⟩ ::
        others.map (Span.shift (x ++ (p ++ (y ++ q))).length)) (x ++ (p ++ (y ++ (q ++ z)))) =
      Text.hide filler spans x ++
        (p ++ (List.replicate y.length filler ++ (q ++ Text.hide filler others z))) := by
  have hbox : Text.hide filler
      ([⟨p.length, p.length + y.length⟩] ++ ([] : List Span).map (Span.shift (p ++ y).length))
      (p ++ y ++ q) = p ++ List.replicate y.length filler ++ q := by
    rw [Text.hide_parts, Text.hide_nil, ← List.append_nil [_],
      Text.hide_box rfl (List.forall_mem_nil _)]
    simp
  have hsplit : x ++ (p ++ (y ++ (q ++ z))) = x ++ (p ++ y ++ q ++ z) := by simp
  have hspans : (⟨(x ++ p).length, (x ++ p).length + y.length⟩ : Span) ::
      others.map (Span.shift (x ++ (p ++ (y ++ q))).length) =
      ([(⟨p.length, p.length + y.length⟩ : Span)] ++
        others.map (Span.shift (p ++ y ++ q).length)).map (Span.shift x.length) := by
    simp [Span.shift, Function.comp_def, Nat.add_comm, Nat.add_left_comm]
    omega
  rw [hsplit, hspans, Text.hide_parts h, Text.hide_parts]
  · rw [List.map_nil, List.append_nil] at hbox
    rw [hbox]
    simp
  · simp

theorem stop_le_of_mem_before {d : Declaration} (hd : d ∈ s.before) : d.stop ≤ s.front.length := by
  obtain ⟨masked, hmasked, rfl⟩ := List.mem_map.1 hd
  have hstop := Declaration.stop_le_of_mem_readFrom (List.mem_filter.1 hmasked).1
  rw [s.length_front_blanked] at hstop
  have hspan := Declaration.labelSpan_withLabelOf (Nat.le_trans masked.labelStop_le_stop hstop)
  have hlabel : (masked.withLabelOf s.front).labelStop = masked.labelStop :=
    congrArg Span.stop hspan
  rw [Declaration.stop, hlabel]
  exact hstop

theorem bracketSpan_shift (k : Nat) (d : Declaration) :
    (d.shift k).bracketSpan = d.bracketSpan.shift k := by
  simp only [Declaration.bracketSpan, Declaration.stop, Declaration.labelStop,
    Declaration.labelStart, Declaration.openerStart, Declaration.shift, Span.shift, Span.mk.injEq]
  omega

/-- The slot on the filled line. -/
def filled (s : Slot) : Slot :=
  { s with
    front := Text.hide '\x00' (s.before.map (·.labelSpan)) s.front
    back := Line.filled s.back }

/-- The line is filled part by part. -/
theorem Takes.filled_fill (h : s.Takes label) (hname : Keyword.isKeyword s.id = false) :
    Line.filled (s.fill label) = s.filled.fill (List.replicate label.length '\x00') := by
  have hfill : s.fill label =
      s.front ++ ((s.id ++ s.bracket.opener) ++ (label ++ (s.bracket.closer ++ s.back))) := by
    simp [fill, head, tail]
  have hbox : (s.declared label).labelSpan = ⟨(s.front ++ (s.id ++ s.bracket.opener)).length,
      (s.front ++ (s.id ++ s.bracket.opener)).length + label.length⟩ := Declaration.labelSpan_eq rfl
  have hlength : (s.head ++ (label ++ s.bracket.closer)).length =
      (s.front ++ ((s.id ++ s.bracket.opener) ++ (label ++ s.bracket.closer))).length := by
    simp [head]
  rw [Line.filled, h.shown_fill hname, List.map_append, List.map_cons, List.map_map, hbox, hfill,
    hlength]
  have hshift : ((·.labelSpan) ∘ Declaration.shift
      (s.front ++ ((s.id ++ s.bracket.opener) ++ (label ++ s.bracket.closer))).length) =
      Span.shift (s.front ++ ((s.id ++ s.bracket.opener) ++ (label ++ s.bracket.closer))).length ∘
        (·.labelSpan) :=
    funext fun d => Declaration.labelSpan_shift _ d
  rw [hshift, ← List.map_map, hide_between fun span hspan => ?_]
  · simp [fill, head, tail, filled, Line.filled]
  · obtain ⟨d, hd, rfl⟩ := List.mem_map.1 hspan
    exact Nat.le_trans d.labelStop_le_stop (stop_le_of_mem_before hd)

/-- The identifiers on the line, outside of labels. -/
def names (s : Slot) : List Text :=
  distinct
    (((Identifier.tokens (Text.hide ' ' (s.before.map (·.bracketSpan)) s.blanked.front ++ s.id)).map
    (·.2) ++
    (Identifier.tokens (Text.hide ' ' ((Line.shown s.back).map (·.bracketSpan)) s.blanked.back)).map
      (·.2)).filter fun name => !Keyword.isKeyword name)

/-- The identifiers on the line do not depend on the label. -/
theorem Takes.identifiers_fill (h : s.Takes label) (hname : Keyword.isKeyword s.id = false)
    (hline : Line.isDirective (s.fill label) = false) :
    Line.identifiers (s.fill label) = s.names := by
  have hmask : s.blanked.fill (Line.maskEdgeLabels label) = s.blanked.front ++ (s.id ++
      ((s.bracket.opener ++ (Line.maskEdgeLabels label ++ s.bracket.closer)) ++
        ([] ++ s.blanked.back))) := by
    simp [fill, head, tail, blanked]
  have hbox : (s.declared label).bracketSpan =
      ⟨(s.blanked.front ++ s.id).length, (s.blanked.front ++ s.id).length +
      (s.bracket.opener ++ (Line.maskEdgeLabels label ++ s.bracket.closer)).length⟩ := by
    simp [declared, Declaration.bracketSpan, Declaration.stop, Declaration.labelStop,
      Declaration.labelStart, Declaration.openerStart, Nat.add_assoc, s.length_front_blanked]
  have hlength : (s.head ++ (label ++ s.bracket.closer)).length = (s.blanked.front ++ (s.id ++
      ((s.bracket.opener ++ (Line.maskEdgeLabels label ++ s.bracket.closer)) ++ []))).length := by
    simp [head, s.length_front_blanked]
  have hshift : ∀ k, ((·.bracketSpan) ∘ Declaration.shift k) = Span.shift k ∘ (·.bracketSpan) :=
    fun k => funext fun d => bracketSpan_shift k d
  have hwide : (s.bracket.opener ++ (Line.maskEdgeLabels label ++ s.bracket.closer)).length ≠
      0 := by
    have := s.bracket.length_pos
    simp only [List.length_append]
    omega
  rw [Line.identifiers, hline, if_neg Bool.false_ne_true, Line.declarations_eq_shown hline,
    h.shown_fill hname, h.maskEdgeLabels_fill, List.map_append, List.map_cons, List.map_map, hshift,
    ← List.map_map, hbox, hlength, hmask, hide_between fun span hspan => ?_]
  · dsimp only
    rw [List.nil_append, ← List.append_assoc (Text.hide _ _ _),
      Identifier.tokens_append_spaces _ _ hwide, names]
  · obtain ⟨d, hd, rfl⟩ := List.mem_map.1 hspan
    rw [s.length_front_blanked]
    exact stop_le_of_mem_before hd

end Slot
end Chartwright
