import Chartwright.Proofs.Line.Reboxed
import Chartwright.Proofs.Line.Relabel
/-!
A line with other brackets around a label.

A label without a bracket or a slash is held by any pair of brackets (`Bracket.holds_of_free`), and
with other brackets it keeps to its place (`Slot.Takes.rebracket`). What the line shows before the
declaration and behind it, and its identifiers, are the same (`Slot.Takes.before_rebracket`,
`Slot.Takes.names_rebracket`), and so is the kind of the line (`Slot.Takes.isDirective_rebracket`,
`Slot.opensSubgraph_rebracket`). Its link has the same ends (`Slot.firstEnds?_rebracket`).
-/
namespace Chartwright

/-! ## Labels that any brackets hold -/

theorem Text.cut?_of_head_not_mem {c : Char} {word t : Text} (h : c ∉ t) :
    cut? (c :: word) (t ++ c :: word) = some (t, []) := by
  induction t with
  | nil =>
    have hafter : after? (c :: word) (c :: word) = some [] :=
      after?_eq_some_iff.2 (List.append_nil _).symm
    rw [List.nil_append, cut?, hafter]
  | cons d ds ih =>
    rw [List.mem_cons, not_or] at h
    have hafter : after? (c :: word) (d :: (ds ++ c :: word)) = none := by
      rw [after?, if_neg h.1]
    rw [List.cons_append, cut?, hafter, ih h.2]
    rfl

namespace Bracket

/-- The characters of brackets, except for the mark of a flag. -/
def marks : Text := ['[', ']', '(', ')', '{', '}', '/', '\\']

variable {label : Text}

theorem read?_of_free (b : Bracket) (h : ∀ c ∈ label, c ∉ marks) :
    read? (b.opener ++ (label ++ b.closer)) = some (b, label ++ b.closer) := by
  apply read?_opener_append.2
  cases label with
  | nil => cases b <;> exact Text.stops_cons.2 (by decide)
  | cons c cs =>
    apply Text.stops_cons.2
    rw [Bool.eq_false_iff]
    intro hextension
    apply h c List.mem_cons_self
    have hmarks : c = '(' ∨ c = '[' ∨ c = '/' ∨ c = '\\' ∨ c = '{' := by
      cases b <;> simp [isExtension] at hextension <;> grind
    rcases hmarks with rfl | rfl | rfl | rfl | rfl <;> decide

theorem cut?_of_free (b : Bracket) (h : ∀ c ∈ label, c ∉ marks) :
    Text.cut? b.closer (label ++ b.closer) = some (label, []) := by
  obtain ⟨c, cs, hcloser, hmem⟩ := b.head_closer
  have hmarks : c ∈ marks := by rcases hmem with rfl | rfl | rfl | rfl | rfl <;> decide
  rw [hcloser]
  exact Text.cut?_of_head_not_mem fun hlabel => h c hlabel hmarks

theorem holds_of_free (b : Bracket) (h : ∀ c ∈ label, c ∉ marks) : b.Holds label :=
  holds_of_read? (b.read?_of_free h) (b.cut?_of_free h)

theorem head_opener (b : Bracket) : ∃ c cs, b.opener = c :: cs ∧ c ≠ '%' ∧ Text.isBlank c = false ∧
    Keyword.isLetter c = false ∧ c ∉ "subgraph".toList ∧ Text.endsWord [c] = true := by
  cases b
  all_goals exact ⟨_, _, rfl, by decide, by decide, by decide, by decide, by decide⟩

end Bracket

/-! ## Keywords -/

namespace Keyword

theorem isKeyword_of_kelvin {u id : Text} {c : Char} (hc : c.toNat = 0x212A) (hne : id ≠ [])
    (h : isKeyword (u ++ c :: id) = true) : isKeyword id = true := by
  have hall : (all.all fun word => (List.range word.length).all fun i =>
      word[i]? != some 'k' || (word.drop (i + 1)).isEmpty ||
        all.contains (word.drop (i + 1))) = true := by decide
  have hlower : lower c = 'k' := by rw [lower, if_pos hc]
  have hmem : u.map lower ++ 'k' :: id.map lower ∈ all := by simpa [isKeyword, hlower] using h
  have hword := List.all_eq_true.1 (List.all_eq_true.1 hall _ hmem) (u.map lower).length (by simp)
  rw [List.getElem?_append_right (Nat.le_refl _), Nat.sub_self,
    List.drop_length_add_append] at hword
  simpa [hne, isKeyword] using hword

end Keyword

namespace Slot

variable {s : Slot} {label other : Text} {b : Bracket}

/-- The line around the same label with other brackets. -/
def rebracket (s : Slot) (b : Bracket) : Slot := { s with bracket := b }

/-! ## The masked line -/

/-- Up to the brackets the line is masked whatever they are. -/
theorem Takes.maskEdgeLabels_head (h : s.Takes label) (b : Bracket) :
    Line.maskEdgeLabels (s.rebracket b).head = s.blanked.front ++ (s.id ++ b.opener) := by
  have hparts : ∀ b : Bracket, Line.maskEdgeLabels (s.front ++ (s.id ++ b.opener)) =
      Line.maskEdgeLabels (s.front ++ s.id) ++ b.opener := by
    intro b
    have hstart : Text.Stops (fun c => !Line.isFirm c) (s.id ++ b.opener) :=
      Identifier.stops_append s.id_valid (fun c hc => by simp [Line.isFirm_of_isChar hc]) _
    have hbar : '|' ∉ s.id ++ b.opener := by
      rw [List.mem_append, not_or]
      exact ⟨Identifier.not_mem_of_valid s.id_valid (by decide), by cases b <;> decide⟩
    have hfront : Text.Confined Line.edgeLabelAt (s.id ++ b.opener) 0 s.front :=
      Line.confined_of_bars hstart (fun hmem => absurd hmem hbar) h.opened
    have hname : Text.Confined Line.edgeLabelAt b.opener 0 (s.front ++ s.id) :=
      hfront.append (Nat.zero_le _)
        (Line.confined_of_noArrow (Identifier.noArrow_of_valid s.id_valid) _)
    have hself := Line.maskEdgeLabels_append_of_free b.noArrow_opener b.colon_not_mem_opener []
    have hstops : Text.Stops Line.isSuffixChar b.opener := by
      cases b <;> exact Text.stops_cons.2 (by decide)
    rw [List.append_nil] at hself
    rw [← List.append_assoc, Line.maskEdgeLabels_append (Line.Parts.of_confined hname hstops),
      hself]
    exact congrArg _ (List.append_nil _)
  have hshown : Line.maskEdgeLabels (s.front ++ (s.id ++ s.bracket.opener)) =
      s.blanked.front ++ s.id ++ s.bracket.opener := by
    rw [List.append_assoc]
    exact h.shown
  rw [hparts s.bracket] at hshown
  show Line.maskEdgeLabels (s.front ++ (s.id ++ b.opener)) = _
  rw [hparts b, List.append_cancel_right hshown, List.append_assoc]

theorem Takes.blanked_rebracket (h : s.Takes label) (b : Bracket) :
    (s.rebracket b).blanked = s.blanked.rebracket b := by
  have hfront : (Line.maskEdgeLabels (s.rebracket b).head).take (s.rebracket b).front.length =
      s.blanked.front := by
    rw [h.maskEdgeLabels_head b]
    exact List.take_left' s.length_front_blanked
  rw [blanked, hfront]
  rfl

/-- The label keeps to its place between other brackets that hold it. -/
theorem Takes.rebracket (h : s.Takes label) (hholds : b.Holds label) :
    (s.rebracket b).Takes label := by
  have hblanked : (s.rebracket b).blanked.front = s.blanked.front := by
    rw [h.blanked_rebracket b]
    rfl
  have hnobar : ∀ b : Bracket, '|' ∉ b.opener ∧ '|' ∉ b.closer := by
    intro b
    cases b <;> decide
  constructor
  case holds => exact hholds
  case closed =>
    -- a bar behind the closer stands behind the other closer too
    refine Line.confined_of_bars (b.firm_closer s.back) (fun hbar => ?_) h.closed
    rcases List.mem_append.1 hbar with hbar | hbar
    · exact absurd hbar (hnobar b).2
    · exact List.mem_append_right _ hbar
  case opened =>
    refine Line.confined_of_bars ?_ (fun hbar => ?_) h.opened
    · rw [List.append_assoc]
      exact Identifier.stops_append s.id_valid (fun c hc => by simp [Line.isFirm_of_isChar hc]) _
    · simp only [Slot.rebracket, tail, List.mem_append, hnobar b, or_false, false_or] at hbar
      simp only [tail, List.mem_append]
      rcases hbar with hbar | hbar | hbar
      · exact .inl (.inl hbar)
      · exact .inr (.inl hbar)
      · exact .inr (.inr (.inr hbar))
  case shown =>
    rw [h.maskEdgeLabels_head b, h.blanked_rebracket b]
    rfl
  case apart =>
    rw [hblanked]
    exact h.apart
  case reached =>
    rw [hblanked]
    exact h.reached

theorem Takes.before_rebracket (h : s.Takes label) (b : Bracket) :
    (s.rebracket b).before = s.before := by
  rw [before, before, h.blanked_rebracket b]
  rfl

theorem Takes.names_rebracket (h : s.Takes label) (b : Bracket) :
    (s.rebracket b).names = s.names := by
  rw [names, names, h.before_rebracket b, h.blanked_rebracket b]
  rfl

theorem Takes.filled_rebracket (h : s.Takes label) (b : Bracket) :
    (s.rebracket b).filled = s.filled.rebracket b := by
  rw [filled, h.before_rebracket b]
  rfl

/-! ## The kind of the line -/

theorem trimLeft_name (s : Slot) :
    Text.trimLeft (s.front ++ s.id) = Text.trimLeft s.front ++ s.id := by
  have hstops := Identifier.stops_isBlank_append s.id_valid []
  rw [List.append_nil] at hstops
  exact Text.dropWhile_append_of_stops s.front hstops

theorem trimLeft_name_ne_nil (s : Slot) : Text.trimLeft (s.front ++ s.id) ≠ [] := by
  rw [s.trimLeft_name]
  exact List.append_ne_nil_of_right_ne_nil _ (Identifier.ne_nil_of_valid s.id_valid)

theorem front_blanked_of_free (hfree : Line.NoArrow s.front) (hcolon : ':' ∉ s.front) :
    s.blanked.front = s.front := by
  have hmask := Line.maskEdgeLabels_append_of_free hfree hcolon (s.id ++ s.bracket.opener)
  rw [blanked, head, hmask]
  exact List.take_left

/-- What stands before the brackets is no keyword, if it is one word. -/
theorem Takes.isKeyword_name (h : s.Takes label) (hname : Keyword.isKeyword s.id = false) :
    Keyword.isKeyword (Text.trimLeft (s.front ++ s.id)) = false := by
  rw [s.trimLeft_name, Bool.eq_false_iff]
  intro hkeyword
  rcases List.eq_nil_or_concat' (Text.trimLeft s.front) with hnil | ⟨u, c, hfront⟩
  · rw [hnil, List.nil_append, hname] at hkeyword
    cases hkeyword
  -- a word in which every character is one of a keyword is not masked, so the name is apart from
  -- what stands before it
  have hletter : ∀ c ∈ Text.trimLeft s.front, Keyword.isLetter c = true := fun c hc =>
    Keyword.isLetter_of_isKeyword hkeyword (List.mem_append_left _ hc)
  have hplain : ∀ c ∈ s.front, c ≠ '-' ∧ c ≠ '=' ∧ c ≠ ':' := by
    intro c hc
    rw [← Text.blanks_append_trimLeft s.front, List.mem_append] at hc
    have hother : Text.isBlank c = true ∨ Keyword.isLetter c = true :=
      hc.imp Text.isBlank_of_mem_blanks (hletter c)
    refine ⟨?_, ?_, ?_⟩ <;> (rintro rfl; exact absurd hother (by decide))
  have hblanked : s.blanked.front = s.front := by
    apply front_blanked_of_free
    · intro c hc
      exact ⟨(hplain c hc).1, (hplain c hc).2.1⟩
    · intro hc
      exact (hplain ':' hc).2.2 rfl
  have hline : s.front = Text.blanks s.front ++ u ++ [c] := by
    conv_lhs => rw [← Text.blanks_append_trimLeft s.front, hfront, ← List.append_assoc]
  -- before the name only a Kelvin sign is a character of a keyword and of no identifier
  have happart := h.apart
  rw [hblanked, hline, Text.endOf_append, Text.endOf, Text.endOf, Identifier.apart, Option.any_some,
    Bool.not_eq_true'] at happart
  have hkelvin : c.toNat = 0x212A := by
    have hc := hletter c (hfront ▸ List.mem_concat_self)
    rwa [Keyword.isLetter, happart, Bool.false_or, beq_iff_eq] at hc
  rw [hfront, List.append_assoc, List.singleton_append] at hkeyword
  rw [Keyword.isKeyword_of_kelvin hkelvin (Identifier.ne_nil_of_valid s.id_valid) hkeyword] at hname
  cases hname

/-- Whether the line is a directive is told from what stands before the brackets. -/
theorem isDirective_fill (s : Slot)
    (hname : Keyword.isKeyword (Text.trimLeft (s.front ++ s.id)) = false) (label : Text) :
    Line.isDirective (s.fill label) = Line.beginsDirective (Text.trimLeft (s.front ++ s.id)) := by
  obtain ⟨c, cs, hopener, hpercent, hblank, hletter, -, -⟩ := s.bracket.head_opener
  have hfill : s.fill label = s.front ++ s.id ++ c :: (cs ++ (label ++ s.tail)) := by
    simp [fill, head, hopener]
  rw [hfill]
  exact Line.isDirective_append_cons s.trimLeft_name_ne_nil hpercent hblank hletter
    (fun _ => hname) _

theorem Takes.isDirective_rebracket (h : s.Takes label) (hname : Keyword.isKeyword s.id = false)
    (b : Bracket) (other : Text) :
    Line.isDirective ((s.rebracket b).fill other) = Line.isDirective (s.fill label) := by
  have hword := h.isKeyword_name hname
  rw [s.isDirective_fill hword]
  exact (s.rebracket b).isDirective_fill hword other

theorem opensSubgraph_fill (s : Slot) (label : Text) : Line.opensSubgraph (s.fill label) =
    ((Text.after? "subgraph".toList (Text.trimLeft (s.front ++ s.id))).map Text.endsWord).getD
      false := by
  obtain ⟨c, cs, hopener, -, -, -, hword, hends⟩ := s.bracket.head_opener
  have hfill : s.fill label = s.front ++ s.id ++ c :: (cs ++ (label ++ s.tail)) := by
    simp [fill, head, hopener]
  rw [hfill, Line.opensSubgraph_append_cons s.trimLeft_name_ne_nil hword]
  congr 2
  funext rest
  cases rest with
  | nil => exact hends
  | cons d ds => rfl

theorem opensSubgraph_rebracket (s : Slot) (b : Bracket) (label other : Text) :
    Line.opensSubgraph ((s.rebracket b).fill other) = Line.opensSubgraph (s.fill label) := by
  rw [s.opensSubgraph_fill]
  exact (s.rebracket b).opensSubgraph_fill other

/-! ## The link on the filled line -/

theorem fill_filler (s : Slot) (n : Nat) :
    s.fill (Text.filler n) = s.front ++ s.id ++ (s.bracket.box n ++ s.back) := by
  simp [fill, head, tail, Bracket.box]

theorem endsName (s : Slot) : Text.EndsName (s.front ++ s.id) := by
  intro c hc
  obtain ⟨w, d, hid⟩ :=
    (List.eq_nil_or_concat' s.id).resolve_left (Identifier.ne_nil_of_valid s.id_valid)
  have hlast : (s.front ++ s.id).getLast? = some d := by
    rw [hid, ← List.append_assoc, List.getLast?_concat]
  obtain rfl : d = c := Option.some.inj (hlast.symm.trans hc)
  exact Identifier.isChar_of_valid s.id_valid d (hid ▸ List.mem_concat_self)

/-- A line shows a link with the same ends whatever the brackets and however long the filler. -/
theorem firstEnds?_rebracket (s : Slot) (b : Bracket) (m n : Nat) :
    Option.Rel (Link.EndsReboxed s.bracket b m n) (Link.firstEnds? none (s.fill (Text.filler m)))
      (Link.firstEnds? none ((s.rebracket b).fill (Text.filler n))) := by
  rw [fill_filler, fill_filler]
  exact Link.firstEnds?_reboxed s.endsName s.back none

end Slot
end Chartwright
