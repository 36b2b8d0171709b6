import Chartwright.Line.Link
import Chartwright.Proofs.Markup.Token
import Chartwright.Proofs.Text.Scan
/-!
Masking a line part by part.

The labels of arrows and the class suffixes of a line are found where an arrow or three colons
stand. A part of a line without either is masked as it is (`maskEdgeLabels_append_of_free`), and in
general the mask of a line is the mask of its parts wherever no label and no suffix runs across
(`maskEdgeLabels_append`).
-/
namespace Chartwright

theorem EdgeLabel.read?_of_stops {t : Text} (h : Text.Stops (· == '|') (Text.trimLeft t)) :
    read? t = none := by
  simp [read?, Text.after?_of_stops h]

namespace Line

variable {x y : Text}

/-! ## Class suffixes -/

/-- The span of a class suffix at the front of a text, with its width. -/
def suffixAt (t : Text) : Option (Span × Nat) :=
  (classSuffix? t).map fun (suffix, _) => (⟨0, suffix.length⟩, suffix.length)

/-- A character that a class suffix can hold. -/
def isSuffixChar (c : Char) : Bool := c == ':' || Text.isWord c

theorem stops_isWord (h : Text.Stops isSuffixChar y) : Text.Stops Text.isWord y := by
  intro c hc
  have := h c hc
  simp only [isSuffixChar, Bool.or_eq_false_iff] at this
  exact this.2

/-- A suffix ends before a character that no suffix can hold. -/
theorem classSuffix?_append (x : Text) (h : Text.Stops isSuffixChar y) :
    classSuffix? (x ++ y) = (classSuffix? x).map fun found => (found.1, found.2 ++ y) := by
  have hcolon : ∀ w ∈ [':', ':', ':'], Text.Stops (· == w) y := by
    intro w hw c hc
    have := h c hc
    simp only [isSuffixChar, Bool.or_eq_false_iff] at this
    simp only [List.mem_cons, List.not_mem_nil, or_false, or_self] at hw
    exact hw ▸ this.1
  simp only [classSuffix?, Text.after?_append_of_stops x hcolon]
  cases Text.after? [':', ':', ':'] x with
  | none => rfl
  | some r =>
    simp only [Option.map_some, Option.bind_eq_bind, Option.bind_some,
      Text.takeWhile_append_of_stops r (stops_isWord h),
      Text.dropWhile_append_of_stops r (stops_isWord h)]
    split <;> rfl

theorem suffixAt_append (x : Text) (h : Text.Stops isSuffixChar y) :
    suffixAt (x ++ y) = suffixAt x := by
  simp only [suffixAt, classSuffix?_append x h, Option.map_map]
  rfl

theorem suffixAt_of_ne {c : Char} (h : c ≠ ':') : suffixAt (c :: x) = none := by
  simp [suffixAt, classSuffix?, Text.after?, Ne.symm h]

theorem le_length_of_suffixAt {found : Span × Nat} (h : suffixAt x = some found) :
    found.1.stop ≤ x.length ∧ found.2 = found.1.stop := by
  simp only [suffixAt, classSuffix?, Option.map_eq_some_iff, Option.bind_eq_bind,
    Option.bind_eq_some_iff, Option.ite_none_left_eq_some, Option.some.injEq] at h
  obtain ⟨-, ⟨r, hr, -, rfl⟩, rfl⟩ := h
  rw [Text.after?_eq_some_iff.1 hr]
  have hlength : (r.takeWhile Text.isWord).length ≤ r.length := (List.takeWhile_sublist _).length_le
  simp only [List.length_append, and_true]
  omega

/-! ## Labels of arrows -/

theorem edgeLabelAt_of_ne {c : Char} (hdash : c ≠ '-') (hequal : c ≠ '=') :
    edgeLabelAt (c :: x) = none := by
  simp [edgeLabelAt, Arrow.read?_of_ne hdash hequal]

theorem edgeLabelAt_of_read? {arrow rest : Text} (h : Arrow.read? x = some (arrow, rest))
    (hlabel : EdgeLabel.read? rest = none) : edgeLabelAt x = none := by
  simp only [EdgeLabel.read?, Option.bind_eq_bind, Option.bind_eq_none_iff] at hlabel
  simp only [edgeLabelAt, h, Option.bind_eq_bind, Option.bind_some, Option.bind_eq_none_iff]
  intro inside hinside found hfound
  exact absurd (hlabel inside hinside found hfound) (by simp)

theorem edgeLabelAt_of_none (h : Arrow.read? x = none) : edgeLabelAt x = none := by
  simp [edgeLabelAt, h]

theorem edgeLabelAt_append {arrow gap text : Text} (h : Arrow.Spelling arrow)
    (hgap : ∀ c ∈ gap, Text.isBlank c = true) (hbar : '|' ∉ text) (rest : Text) :
    edgeLabelAt (arrow ++ (gap ++ (['|'] ++ text ++ ['|'] ++ rest))) =
      some (⟨arrow.length + gap.length, arrow.length + gap.length + text.length + 2⟩,
        arrow.length + gap.length + text.length + 2) := by
  have hstops : Text.Stops Text.isBlank (['|'] ++ (text ++ ['|'] ++ rest)) :=
    Text.stops_cons.2 (by decide)
  have hshape : ['|'] ++ text ++ ['|'] ++ rest = ['|'] ++ (text ++ ['|'] ++ rest) := by simp
  simp only [edgeLabelAt, h.read?_append, Option.bind_eq_bind, Option.bind_some, hshape,
    Text.trimLeft_append hgap hstops, Text.blanks_append hgap hstops, Text.after?_append,
    Text.cut?_of_not_mem rest hbar]
  rfl

theorem le_length_of_edgeLabelAt {found : Span × Nat} (h : edgeLabelAt x = some found) :
    found.1.stop ≤ x.length ∧ found.2 = found.1.stop := by
  simp only [edgeLabelAt, Option.bind_eq_bind, Option.bind_eq_some_iff, Prod.exists,
    Option.pure_def, Option.some.injEq] at h
  obtain ⟨arrow, rest, harrow, inside, hbar, label, after, hcut, rfl⟩ := h
  refine ⟨?_, rfl⟩
  have hrest : rest.length = (Text.blanks rest).length + (Text.trimLeft rest).length := by
    rw [← List.length_append, Text.blanks_append_trimLeft]
  have hinside := congrArg List.length (Text.after?_eq_some_iff.1 hbar)
  have hlabel := congrArg List.length (Text.eq_append_of_cut? hcut)
  have hx := congrArg List.length (Arrow.eq_append_of_read? harrow)
  -- the arrow, the blanks, the label and its two bars are all of them parts of `x`
  simp only [List.length_append, List.length_cons, List.length_nil] at hinside hlabel hx
  show arrow.length + (Text.blanks rest).length + label.length + 2 ≤ x.length
  omega

/-! ## Parts of a line -/

theorem edgeLabels_eq (line : Line) : edgeLabels line = Text.spansOf edgeLabelAt line := by
  rw [edgeLabels, Text.spansOf]
  apply List.map_congr_left
  intro found _
  simp [Span.shift, Nat.add_comm]

theorem classSuffixes_eq (line : Line) : classSuffixes line = Text.spansOf suffixAt line := by
  have hwidth :=
    Text.spansOf_width (fun t => (classSuffix? t).map fun (suffix, _) => suffix.length) line
  simp only [Option.map_map] at hwidth
  have hread : suffixAt = fun t =>
      (classSuffix? t).map fun (suffix, _) => ((⟨0, suffix.length⟩ : Span), suffix.length) := rfl
  rw [hread]
  exact hwidth

/-- No label of an arrow and no class suffix runs across the border of two parts. -/
structure Parts (x y : Text) : Prop where
  labels : Text.spansOf edgeLabelAt (x ++ y) =
    Text.spansOf edgeLabelAt x ++ (Text.spansOf edgeLabelAt y).map (Span.shift x.length)
  suffixes : Text.spansOf suffixAt (x ++ y) =
    Text.spansOf suffixAt x ++ (Text.spansOf suffixAt y).map (Span.shift x.length)

/-- Parts are masked one by one. -/
theorem maskEdgeLabels_append (h : Parts x y) :
    maskEdgeLabels (x ++ y) = maskEdgeLabels x ++ maskEdgeLabels y := by
  have hlabel : ∀ s ∈ Text.spansOf edgeLabelAt x, s.stop ≤ x.length := fun s hs =>
    Text.stop_le_of_mem_spansOf (fun t found hf => (le_length_of_edgeLabelAt hf).1) hs
  have hsuffix : ∀ s ∈ Text.spansOf suffixAt x, s.stop ≤ x.length := fun s hs =>
    Text.stop_le_of_mem_spansOf (fun t found hf => (le_length_of_suffixAt hf).1) hs
  -- the spans of both kinds, those in `x` first
  have horder : Text.hide ' ' (edgeLabels (x ++ y) ++ classSuffixes (x ++ y)) (x ++ y) =
      Text.hide ' ' ((edgeLabels x ++ classSuffixes x) ++
        (edgeLabels y ++ classSuffixes y).map (Span.shift x.length)) (x ++ y) := by
    apply Text.hide_congr
    intro i _
    simp only [edgeLabels_eq, classSuffixes_eq, h.labels, h.suffixes, List.any_append,
      List.map_append]
    ac_rfl
  rw [maskEdgeLabels, horder, Text.hide_parts]
  · rfl
  · rw [edgeLabels_eq, classSuffixes_eq]
    intro s hs
    exact (List.mem_append.1 hs).elim (hlabel s) (hsuffix s)

/-- A part in which no arrow can stand, whatever follows. -/
def NoArrow (x : Text) : Prop := ∀ c ∈ x, c ≠ '-' ∧ c ≠ '='

theorem spansOf_edgeLabelAt_append (h : NoArrow x) (y : Text) :
    Text.spansOf edgeLabelAt (x ++ y) = (Text.spansOf edgeLabelAt y).map (Span.shift x.length) := by
  apply Text.spansOf_of_none
  intro s hs hne
  cases s with
  | nil => exact absurd rfl hne
  | cons c cs =>
    obtain ⟨hdash, hequal⟩ := h c (hs.subset List.mem_cons_self)
    exact edgeLabelAt_of_ne hdash hequal

theorem spansOf_edgeLabelAt (h : NoArrow x) : Text.spansOf edgeLabelAt x = [] := by
  simpa using spansOf_edgeLabelAt_append h []

theorem spansOf_suffixAt_append (h : ':' ∉ x) (y : Text) :
    Text.spansOf suffixAt (x ++ y) = (Text.spansOf suffixAt y).map (Span.shift x.length) := by
  apply Text.spansOf_of_none
  intro s hs hne
  cases s with
  | nil => exact absurd rfl hne
  | cons c cs => exact suffixAt_of_ne fun e => h (e ▸ hs.subset List.mem_cons_self)

theorem spansOf_suffixAt (h : ':' ∉ x) : Text.spansOf suffixAt x = [] := by
  simpa using spansOf_suffixAt_append h []

/-- A part in which neither an arrow nor a suffix can stand is left as it is, whatever follows. -/
theorem maskEdgeLabels_append_of_free (harrow : NoArrow x) (hcolon : ':' ∉ x) (y : Text) :
    maskEdgeLabels (x ++ y) = x ++ maskEdgeLabels y := by
  have hself : maskEdgeLabels x = x := by
    simp [maskEdgeLabels, edgeLabels_eq, classSuffixes_eq, spansOf_edgeLabelAt harrow,
      spansOf_suffixAt hcolon]
  rw [maskEdgeLabels_append ⟨?_, ?_⟩, hself]
  · rw [spansOf_edgeLabelAt_append harrow, spansOf_edgeLabelAt harrow, List.nil_append]
  · rw [spansOf_suffixAt_append hcolon, spansOf_suffixAt hcolon, List.nil_append]

theorem spansOf_suffixAt_append_of_stops (x : Text) (h : Text.Stops isSuffixChar y) :
    Text.spansOf suffixAt (x ++ y) =
      Text.spansOf suffixAt x ++ (Text.spansOf suffixAt y).map (Span.shift x.length) := by
  refine Text.spansOf_append fun s _ _ _ => ⟨suffixAt_append s h, fun found hf => ?_⟩
  obtain ⟨hstop, hwidth⟩ := le_length_of_suffixAt hf
  omega

theorem spansOf_suffixAt_append_of_last {c : Char} (h : isSuffixChar c = false) (x y : Text) :
    Text.spansOf suffixAt (x ++ [c] ++ y) =
      Text.spansOf suffixAt (x ++ [c]) ++
        (Text.spansOf suffixAt y).map (Span.shift (x ++ [c]).length) := by
  have hcolon : ':' ∉ [c] := by
    rw [List.mem_singleton]
    rintro rfl
    exact absurd h (by decide)
  have hstops : ∀ z, Text.Stops isSuffixChar ([c] ++ z) := fun z => Text.stops_cons.2 h
  have hnil : Text.spansOf suffixAt (x ++ [c]) = Text.spansOf suffixAt x := by
    have hlast := spansOf_suffixAt_append_of_stops x (hstops [])
    simpa [spansOf_suffixAt hcolon] using hlast
  rw [List.append_assoc, spansOf_suffixAt_append_of_stops x (hstops y),
    spansOf_suffixAt_append hcolon y, hnil, Span.map_shift_shift, List.length_append]

end Line
end Chartwright
