import Chartwright.Proofs.Line.Groups
import Chartwright.Proofs.Line.RowNames
import Chartwright.Proofs.Line.StyleText
import Chartwright.Proofs.Line.TrailingBlanks
import Chartwright.Proofs.Line.View
/-!
Blanks at both ends of a line.

Blanks at the front of a line move what it shows, and change nothing else
(`Line.view_blanks_append`). Blanks at the end change nothing of a line that is no directive
(`Line.view_append_blanks`); the pairs of a style line can end in them.
-/
namespace Chartwright

/-! ## At the front -/

section Front

variable {x : Text} (hx : ∀ c ∈ x, Text.isBlank c = true)

include hx

theorem Text.trimLeft_blanks_append (t : Text) : trimLeft (x ++ t) = trimLeft t :=
  List.dropWhile_append_of_pos hx

namespace Line

theorem isDirective_blanks_append (t : Line) : isDirective (x ++ t) = isDirective t := by
  rw [isDirective, isDirective, firstWord, firstWord, Text.trim_append_left hx]

theorem shown_blanks_append (t : Line) :
    shown (x ++ t) = (shown t).map (Declaration.shift x.length) := by
  induction x with
  | nil => exact (List.map_id _).symm
  | cons c cs ih =>
    have hstands := (Lexeme.stands_blank (hx c List.mem_cons_self) (cs ++ t)).shown_append
    rw [ih fun d hd => hx d (List.mem_cons_of_mem c hd), List.map_map] at hstands
    refine hstands.trans (List.map_congr_left fun d _ => ?_)
    simp [Declaration.shift, Lexeme.written, Nat.add_assoc]

theorem bared_blanks_append (t : Line) :
    Text.hide ' ' ((shown (x ++ t)).map (·.bracketSpan)) (maskEdgeLabels (x ++ t)) =
      x ++ Text.hide ' ' ((shown t).map (·.bracketSpan)) (maskEdgeLabels t) := by
  induction x with
  | nil => rfl
  | cons c cs ih =>
    have hstands := (Lexeme.stands_blank (hx c List.mem_cons_self) (cs ++ t)).bared_append
    rw [ih fun d hd => hx d (List.mem_cons_of_mem c hd)] at hstands
    exact hstands

theorem declarations_blanks_append (t : Line) :
    declarations (x ++ t) = (declarations t).map (Declaration.shift x.length) := by
  cases h : isDirective t with
  | true =>
    rw [declarations, declarations, isDirective_blanks_append hx, h, if_pos rfl, if_pos rfl,
      List.map_nil]
  | false =>
    rw [declarations_eq_shown h, declarations_eq_shown ((isDirective_blanks_append hx t).trans h),
      shown_blanks_append hx]

theorem identifiers_blanks_append (t : Line) : identifiers (x ++ t) = identifiers t := by
  have hchar : ∀ c ∈ x, Identifier.isChar c = false :=
    fun c hc => Identifier.not_isChar_of_isBlank (hx c hc)
  cases h : isDirective t with
  | true => rw [identifiers, identifiers, isDirective_blanks_append hx, h, if_pos rfl, if_pos rfl]
  | false =>
    have hlong := (isDirective_blanks_append hx t).trans h
    rw [identifiers, identifiers, h, hlong, if_neg Bool.false_ne_true, if_neg Bool.false_ne_true,
      declarations_eq_shown h, declarations_eq_shown hlong]
    dsimp only
    rw [bared_blanks_append hx, Identifier.tokens_append_of_not_isChar hchar]

theorem hasArrow_blanks_append (t : Line) : hasArrow (x ++ t) = hasArrow t := by
  induction x with
  | nil => rfl
  | cons c cs ih =>
    obtain ⟨hdash, hequal⟩ := Text.noArrow_of_isBlank hx c List.mem_cons_self
    rw [hasArrow, List.cons_append, Arrow.occursIn, Arrow.read?_of_ne hdash hequal]
    exact ih fun d hd => hx d (List.mem_cons_of_mem c hd)

theorem edgeOn?_blanks_append (t : Line) (i : Nat) :
    Buffer.edgeOn? (x ++ t) i = Buffer.edgeOn? t i := by
  have hstart : ∀ c ∈ x, Identifier.isStart c = false := fun c hc =>
    Identifier.not_isStart_of_not_isChar (Identifier.not_isChar_of_isBlank (hx c hc))
  have hend : Identifier.apart (Text.endOf none x) = Identifier.apart none := by
    by_cases hnil : x = []
    · rw [hnil]
      rfl
    · obtain ⟨c, hc, hend⟩ := Text.endOf_of_ne_nil none hnil
      simp [hend, Identifier.apart, Identifier.not_isChar_of_isBlank (hx c hc)]
  cases h : isDirective t with
  | true =>
    rw [Buffer.edgeOn?, Buffer.edgeOn?, isDirective_blanks_append hx, h, if_pos rfl, if_pos rfl]
  | false =>
    have hlong := (isDirective_blanks_append hx t).trans h
    rw [Buffer.edgeOn?_eq h, Buffer.edgeOn?_eq hlong, link?, link?, Link.ends_first?,
      Link.ends_first?, maskLabels_eq_filled h, maskLabels_eq_filled hlong, filled_blanks_append hx,
      Link.firstEnds?_append_of_not_isStart hstart, Link.firstEnds?_before hend]

/-- Blanks at the front of a line do not change its view. -/
theorem view_blanks_append (t : Line) : view (x ++ t) = view t := by
  have htrim := Text.trimLeft_blanks_append hx t
  have hdeclared : (declarations (x ++ t)).map Declaration.content =
      (declarations t).map Declaration.content := by
    rw [declarations_blanks_append hx, List.map_map]
    rfl
  have hrefers : refers (x ++ t) = refers t := by
    rw [refers, refers, hasArrow_blanks_append hx, identifiers_blanks_append hx]
  have hstyle : StyleLine.read (x ++ t) = StyleLine.read t := by
    have hparts : StyleLine.parts? (x ++ t) = StyleLine.parts? t := by
      rw [StyleLine.parts?, StyleLine.parts?, StyleLine.afterWord?, StyleLine.afterWord?, htrim]
      cases Text.after? "style".toList (Text.trimLeft t) <;> rfl
    rw [StyleLine.read, StyleLine.read, hparts]
  have hheading : (view (x ++ t)).heading = (view t).heading := by
    show (Opening.read? (x ++ t)).map _ = (Opening.read? t).map _
    rw [Opening.read?, Opening.read?, htrim]
    cases Text.after? "subgraph".toList (Text.trimLeft t) with
    | none => rfl
    | some rest =>
      simp only [Option.bind_eq_bind, Option.bind_some]
      cases Identifier.read? (Text.trimLeft rest) with
      | none => rfl
      | some found =>
        simp only [Option.bind_some]
        split <;> rfl
  rw [view, view, hdeclared, hrefers, identifiers_blanks_append hx, edgeOn?_blanks_append hx,
    hstyle, opensSubgraph, opensSubgraph, htrim, closesSubgraph, closesSubgraph,
    Text.trim_append_left hx]
  exact congrArg (View.mk _ _ _ _ _ _ _) hheading

end Line

end Front

/-! ## At the end -/

section Back

variable {y : Text} (hy : ∀ c ∈ y, Text.isBlank c = true)

include hy

theorem Identifier.tokens_append_blanks (t : Text) :
    (tokens (t ++ y)).map (·.2) = (tokens t).map (·.2) := by
  have hstart : ∀ s, s <:+ y → s ≠ [] → ∀ before, tokenAt before (s ++ []) = none := by
    intro s hs hne before
    obtain ⟨c, cs, rfl⟩ := List.exists_cons_of_ne_nil hne
    have hc := not_isChar_of_isBlank (hy c (hs.subset List.mem_cons_self))
    exact tokenAt_of_not_isStart (not_isStart_of_not_isChar hc) before _
  have hwithin : Text.Within tokenAt t y :=
    within_tokenAt (Text.stops_of_isBlank hy fun _ => not_isChar_of_isBlank)
  have hnone : ∀ before offset, Text.occurrencesFrom tokenAt before 0 offset y = [] := by
    intro before offset
    have hskip := Text.occurrencesFrom_of_none hstart before offset
    rwa [List.append_nil] at hskip
  rw [tokens_eq, Text.occurrencesFrom_append hwithin none 0 0 (Nat.zero_le _), hnone,
    List.append_nil]
  rfl

namespace Line

theorem hasArrow_append_blanks (t : Line) : hasArrow (t ++ y) = hasArrow t := by
  induction t with
  | nil =>
    have hskip := hasArrow_blanks_append hy []
    rwa [List.append_nil] at hskip
  | cons c cs ih =>
    have hread := Arrow.read?_append_blanks hy (c :: cs)
    rw [List.cons_append] at hread
    rw [hasArrow, List.cons_append, Arrow.occursIn, hread, Option.isSome_map, hasArrow,
      Arrow.occursIn]
    exact congrArg _ ih

theorem opensSubgraph_append_blanks (t : Line) : opensSubgraph (t ++ y) = opensSubgraph t := by
  have hword : ∀ c ∈ "subgraph".toList, Text.isBlank c = false := Text.forall_mem_of_all (by decide)
  have hends : ∀ rest : Text, Text.endsWord (rest ++ y) = Text.endsWord rest := by
    intro rest
    cases rest with
    | cons c cs => rfl
    | nil =>
      cases y with
      | nil => rfl
      | cons c cs => simp [Text.endsWord, Text.not_isWord_of_isBlank (hy c List.mem_cons_self)]
  rw [opensSubgraph, opensSubgraph]
  rcases Text.trimLeft_append_blanks hy t with ⟨hnil, hlong⟩ | ⟨hlong, -⟩
  · rw [hnil, hlong]
  · rw [hlong, Text.after?_append_blanks hy hword]
    cases Text.after? "subgraph".toList (Text.trimLeft t) with
    | none => rfl
    | some rest => exact hends rest

theorem identifiers_append_blanks (line : Line) : identifiers (line ++ y) = identifiers line := by
  have hinside : ∀ s ∈ (declarations line).map (·.bracketSpan),
      s.stop ≤ (maskEdgeLabels line).length := by
    intro s hs
    obtain ⟨d, hd, rfl⟩ := List.mem_map.1 hs
    rw [length_maskEdgeLabels]
    exact stop_le_length_of_mem_declarations hd
  have hbare : Text.hide ' '
      ((declarations line).map (·.bracketSpan) ++ ([] : List Span).map (Span.shift _))
      (maskEdgeLabels line ++ y) = _ ++ Text.hide ' ' [] y := Text.hide_parts hinside
  rw [List.map_nil, List.append_nil, Text.hide_nil] at hbare
  rw [identifiers, identifiers, isDirective_append_blanks hy, declarations_append_blanks hy,
    maskEdgeLabels_append_blanks hy]
  dsimp only
  rw [hbare, Identifier.tokens_append_blanks hy]

/-- Blanks at the end of a line that is no directive do not change its view. -/
theorem view_append_blanks {line : Line} (h : isDirective line = false) :
    view (line ++ y) = view line := by
  have hlong := (isDirective_append_blanks hy line).trans h
  have hheading : ∀ {l : Line}, isDirective l = false → Opening.read? l = none := by
    intro l hl
    refine Option.eq_none_iff_forall_ne_some.2 fun found hfound => ?_
    rw [isDirective_of_opening hfound] at hl
    cases hl
  rw [view, view, refers, refers, declarations_append_blanks hy, identifiers_append_blanks hy,
    hasArrow_append_blanks hy, Buffer.edgeOn?_append_blanks hy, opensSubgraph_append_blanks hy,
    closesSubgraph, closesSubgraph, Text.trim_append_blanks hy, StyleLine.read_of_not_isDirective h,
    StyleLine.read_of_not_isDirective hlong, hheading h, hheading hlong]

end Line

end Back

namespace Line

theorem exists_eq_append_trim (line : Line) : ∃ x y, line = x ++ (Text.trim line ++ y) ∧
    (∀ c ∈ x, Text.isBlank c = true) ∧ ∀ c ∈ y, Text.isBlank c = true := by
  obtain ⟨y, hy, hblank⟩ := Text.exists_append_eq_trimRight (Text.trimLeft line)
  refine ⟨Text.blanks line, y, ?_, fun c hc => Text.isBlank_of_mem_blanks hc, hblank⟩
  rw [Text.trim, ← hy, Text.blanks_append_trimLeft]

/-- A line that is no directive, put behind another indent and without the blanks at its end. -/
theorem view_reindent {indent line : Line} (hindent : ∀ c ∈ indent, Text.isBlank c = true)
    (h : isDirective line = false) : view (indent ++ Text.trim line) = view line := by
  obtain ⟨x, y, hline, hx, hy⟩ := exists_eq_append_trim line
  have htrim : isDirective (Text.trim line) = false := by
    rw [hline, isDirective_blanks_append hx, isDirective_append_blanks hy] at h
    exact h
  rw [view_blanks_append hindent]
  conv => rhs; rw [hline, view_blanks_append hx, view_append_blanks hy htrim]

end Line

end Chartwright
