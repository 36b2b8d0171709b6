import Chartwright.Proofs.Line.LinkEnds
/-!
Blanks at the end of a line.

Every reader finds in a line with more blanks at its end what it finds without them, and leaves the
blanks behind. So the blanks change neither the labels that are filled (`maskLabels_append_blanks`)
nor the edge that the line shows (`edgeOn?_append_blanks`).
-/
namespace Chartwright

namespace Text

variable {y : Text}

theorem stops_of_isBlank (hy : ∀ c ∈ y, isBlank c = true) {p : Char → Bool}
    (hp : ∀ c, isBlank c = true → p c = false) : Stops p y :=
  fun c hc => hp c (hy c (List.mem_of_mem_head? hc))

/-- A run of blanks reaches into the blanks behind a text only if the text holds nothing else. -/
theorem trimLeft_append_blanks (hy : ∀ c ∈ y, isBlank c = true) (t : Text) :
    (trimLeft t = [] ∧ trimLeft (t ++ y) = []) ∨
      (trimLeft (t ++ y) = trimLeft t ++ y ∧ blanks (t ++ y) = blanks t) := by
  induction t with
  | nil =>
    refine .inl ⟨rfl, ?_⟩
    have hall := trimLeft_append hy (stops_nil _)
    rwa [List.append_nil] at hall
  | cons c cs ih =>
    cases hc : isBlank c with
    | true =>
      rcases ih with ⟨hnil, hlong⟩ | ⟨hlong, hblanks⟩
      · exact .inl ⟨by simpa [trimLeft, hc] using hnil, by simpa [trimLeft, hc] using hlong⟩
      · exact .inr ⟨by simpa [trimLeft, hc] using hlong, by simpa [blanks, hc] using hblanks⟩
    | false => exact .inr ⟨by simp [trimLeft, hc], by simp [blanks, hc]⟩

theorem trimRight_append_blanks (hy : ∀ c ∈ y, isBlank c = true) (t : Text) :
    trimRight (t ++ y) = trimRight t := by
  have hback : ∀ c ∈ y.reverse, isBlank c = true := fun c hc => hy c (List.mem_reverse.1 hc)
  rw [trimRight, List.reverse_append, List.dropWhile_append_of_pos hback, trimRight]

theorem trim_append_blanks (hy : ∀ c ∈ y, isBlank c = true) (t : Text) :
    trim (t ++ y) = trim t := by
  rw [trim, trim]
  rcases trimLeft_append_blanks hy t with ⟨hnil, hlong⟩ | ⟨hlong, -⟩
  · rw [hnil, hlong]
  · rw [hlong, trimRight_append_blanks hy]

theorem after?_append_blanks (hy : ∀ c ∈ y, isBlank c = true) {word : Text}
    (hword : ∀ w ∈ word, isBlank w = false) (t : Text) :
    after? word (t ++ y) = (after? word t).map (· ++ y) := by
  refine after?_append_of_stops t fun w hw => stops_of_isBlank hy fun c hc => ?_
  rw [beq_eq_false_iff_ne]
  rintro rfl
  rw [hword _ hw] at hc
  cases hc

theorem cut?_append_blanks (hy : ∀ c ∈ y, isBlank c = true) {word : Text} (hne : word ≠ [])
    (hword : ∀ w ∈ word, isBlank w = false) (t : Text) :
    cut? word (t ++ y) = (cut? word t).map fun found => (found.1, found.2 ++ y) := by
  have hdisjoint : ∀ w ∈ word, w ∉ y := by
    intro w hw hmem
    have hblank := hword w hw
    rw [hy w hmem] at hblank
    cases hblank
  by_cases hnil : y = []
  · simp [hnil]
  · have hfront := cut?_append_or hne hnil hdisjoint t []
    obtain ⟨w, ws, rfl⟩ := List.exists_cons_of_ne_nil hne
    rwa [List.append_nil, cut?_nil_of_ne hne, Option.map_none, Option.or_none] at hfront

end Text

variable {y : Text}

theorem Identifier.read?_append_blanks (hy : ∀ c ∈ y, Text.isBlank c = true) (t : Text) :
    read? (t ++ y) = (read? t).map fun found => (found.1, found.2 ++ y) :=
  read?_append_of_stops (Text.stops_of_isBlank hy fun _ => not_isChar_of_isBlank) t

namespace Bracket

theorem not_isBlank_of_mem_closer {b : Bracket} : ∀ c ∈ b.closer, Text.isBlank c = false := by
  cases b <;> simp [closer] <;> decide

theorem closer_ne_nil (b : Bracket) : b.closer ≠ [] := by cases b <;> simp [closer]

theorem stops_inOpener_of_isBlank (hy : ∀ c ∈ y, Text.isBlank c = true) :
    Text.Stops inOpener y := by
  refine Text.stops_of_isBlank hy fun c hc => Bool.eq_false_iff.2 fun hopener => ?_
  have hall : ∀ b ∈ all, (b.opener.all fun c => !Text.isBlank c) = true := by decide
  obtain ⟨b, hb, hmem⟩ := List.any_eq_true.1 hopener
  have hnot := List.all_eq_true.1 (hall b hb) c (by simpa using hmem)
  simp [hc] at hnot

theorem read?_append_blanks (hy : ∀ c ∈ y, Text.isBlank c = true) (t : Text) :
    read? (t ++ y) = (read? t).map fun found => (found.1, found.2 ++ y) :=
  read?_append_of_stops (stops_inOpener_of_isBlank hy) t

end Bracket

theorem Arrow.read?_append_blanks (hy : ∀ c ∈ y, Text.isBlank c = true) (t : Text) :
    read? (t ++ y) = (read? t).map fun found => (found.1, found.2 ++ y) := by
  apply read?_append_of_stops
  apply Text.stops_of_isBlank hy
  intro c hc
  have hne : ∀ d : Char, Text.isBlank d = false → (c == d) = false := by
    intro d hd
    rw [beq_eq_false_iff_ne]
    rintro rfl
    rw [hd] at hc
    cases hc
  rw [hne '-' (by decide), hne '=' (by decide), hne '.' (by decide), hne '>' (by decide)]
  rfl

namespace Line

/-! ## What is filled -/

theorem edgeLabelAt_append_blanks (hy : ∀ c ∈ y, Text.isBlank c = true) (t : Text) :
    edgeLabelAt (t ++ y) = edgeLabelAt t := by
  have hbar : ∀ c ∈ ['|'], Text.isBlank c = false := List.forall_mem_singleton.2 (by decide)
  unfold edgeLabelAt
  rw [Arrow.read?_append_blanks hy]
  cases Arrow.read? t with
  | none => rfl
  | some found =>
    obtain ⟨arrow, rest⟩ := found
    simp only [Option.map_some, Option.bind_eq_bind, Option.bind_some]
    rcases Text.trimLeft_append_blanks hy rest with ⟨hnil, hlong⟩ | ⟨hlong, hblanks⟩
    · rw [hnil, hlong]
      rfl
    · rw [hlong, hblanks, Text.after?_append_blanks hy hbar]
      cases Text.after? ['|'] (Text.trimLeft rest) with
      | none => rfl
      | some inside =>
        simp only [Option.map_some, Option.bind_some,
          Text.cut?_append_blanks hy (List.cons_ne_nil _ _) hbar]
        cases Text.cut? ['|'] inside <;> rfl

theorem maskEdgeLabels_append_blanks (hy : ∀ c ∈ y, Text.isBlank c = true) (line : Line) :
    maskEdgeLabels (line ++ y) = maskEdgeLabels line ++ y := by
  have hself : maskEdgeLabels y = y := by
    have hfree := maskEdgeLabels_append_of_free (Text.noArrow_of_isBlank hy)
      (Text.not_mem_of_isBlank hy (by decide)) []
    rwa [List.append_nil, show maskEdgeLabels [] = [] from rfl, List.append_nil] at hfree
  have hsuffix : Text.Stops isSuffixChar y := by
    refine Text.stops_of_isBlank hy fun c hc => ?_
    have hcolon : c ≠ ':' := by
      rintro rfl
      exact absurd hc (by decide)
    simp [isSuffixChar, Text.not_isWord_of_isBlank hc, hcolon]
  rw [maskEdgeLabels_append ⟨?_, spansOf_suffixAt_append_of_stops line hsuffix⟩, hself]
  apply Text.spansOf_append
  intro s _ _ _
  refine ⟨edgeLabelAt_append_blanks hy s, fun found hfound => ?_⟩
  obtain ⟨hstop, hwidth⟩ := le_length_of_edgeLabelAt hfound
  omega

theorem isDirective_append_blanks (hy : ∀ c ∈ y, Text.isBlank c = true) (line : Line) :
    isDirective (line ++ y) = isDirective line := by
  simp only [isDirective, firstWord, Text.trim_append_blanks hy]

end Line

namespace Declaration

theorem opening?_append_blanks (hy : ∀ c ∈ y, Text.isBlank c = true) (before : Option Char)
    (t : Text) :
    opening? before (t ++ y) = (opening? before t).map fun (id, b, rest) => (id, b, rest ++ y) :=
  opening?_append (Identifier.read?_append_blanks hy t)
    (Bracket.stops_inOpener_of_isBlank hy) before

theorem readFrom_blanks (hy : ∀ c ∈ y, Text.isBlank c = true) (before : Option Char)
    (skip offset : Nat) : readFrom before skip offset y = [] := by
  induction y generalizing before skip offset with
  | nil => rfl
  | cons c cs ih =>
    have hlater :=
      fun before skip offset => ih (fun d hd => hy d (List.mem_cons_of_mem c hd)) before skip offset
    cases skip with
    | succ k => exact hlater ..
    | zero =>
      have hstart := Identifier.not_isStart_of_not_isChar
        (Identifier.not_isChar_of_isBlank (hy c List.mem_cons_self))
      rw [readFrom, opening?_of_not_isStart hstart]
      exact hlater ..

theorem readFrom_append_blanks (hy : ∀ c ∈ y, Text.isBlank c = true) (before : Option Char)
    (skip offset : Nat) (t : Text) :
    readFrom before skip offset (t ++ y) = readFrom before skip offset t := by
  induction t generalizing before skip offset with
  | nil => exact readFrom_blanks hy before skip offset
  | cons c cs ih =>
    cases skip with
    | succ k => exact ih ..
    | zero =>
      have hopening := opening?_append_blanks hy before (c :: cs)
      rw [List.cons_append] at hopening
      rw [List.cons_append, readFrom, readFrom, hopening]
      cases opening? before (c :: cs) with
      | none => exact ih ..
      | some opened =>
        obtain ⟨id, b, rest⟩ := opened
        simp only [Option.map_some,
          Text.cut?_append_blanks hy b.closer_ne_nil Bracket.not_isBlank_of_mem_closer]
        cases Text.cut? b.closer rest with
        | none => rfl
        | some found => simp only [Option.map_some, ih]

end Declaration

namespace Line

theorem declarations_append_blanks (hy : ∀ c ∈ y, Text.isBlank c = true) (line : Line) :
    declarations (line ++ y) = declarations line := by
  rw [declarations, declarations, isDirective_append_blanks hy, maskEdgeLabels_append_blanks hy,
    Declaration.readFrom_append_blanks hy]
  split
  · rfl
  · apply List.map_congr_left
    intro d hd
    exact Declaration.withLabelOf_append (labelStop_le_of_mem_readFrom (List.mem_filter.1 hd).1) y

/-- Blanks at the end of a line are no label. -/
theorem maskLabels_append_blanks (hy : ∀ c ∈ y, Text.isBlank c = true) (line : Line) :
    maskLabels (line ++ y) = maskLabels line ++ y := by
  have hinside : ∀ s ∈ (declarations line).map (·.labelSpan), s.stop ≤ line.length := by
    intro s hs
    obtain ⟨d, hd, rfl⟩ := List.mem_map.1 hs
    exact stop_le_of_mem_declarations hd
  have hspans : (declarations line).map (·.labelSpan) =
      (declarations line).map (·.labelSpan) ++ ([] : List Span).map (Span.shift line.length) := by
    simp
  rw [maskLabels, declarations_append_blanks hy, hspans, Text.hide_parts hinside, Text.hide_nil]
  rfl

end Line

/-! ## The link -/

theorem EdgeLabel.read?_append_blanks (hy : ∀ c ∈ y, Text.isBlank c = true) (t : Text) :
    read? (t ++ y) = (read? t).map fun found => (found.1, found.2 ++ y) := by
  have hbar : ∀ c ∈ ['|'], Text.isBlank c = false := List.forall_mem_singleton.2 (by decide)
  unfold read?
  rcases Text.trimLeft_append_blanks hy t with ⟨hnil, hlong⟩ | ⟨hlong, hblanks⟩
  · rw [hnil, hlong]
    rfl
  · rw [hlong, hblanks, Text.after?_append_blanks hy hbar]
    cases Text.after? ['|'] (Text.trimLeft t) with
    | none => rfl
    | some inside =>
      simp only [Option.map_some, Option.bind_eq_bind, Option.bind_some,
        Text.cut?_append_blanks hy (List.cons_ne_nil _ _) hbar]
      cases Text.cut? ['|'] inside <;> rfl

theorem Connector.readLabel_append_blanks (hy : ∀ c ∈ y, Text.isBlank c = true) (t : Text) :
    readLabel (t ++ y) = ((readLabel t).1, (readLabel t).2 ++ y) := by
  unfold readLabel
  rw [EdgeLabel.read?_append_blanks hy]
  cases EdgeLabel.read? t <;> rfl

namespace Link

/-- A connector and its target are found as before: an identifier ends the blanks before it. -/
theorem tail?_append_blanks (hy : ∀ c ∈ y, Text.isBlank c = true) (t : Text) :
    tail? (t ++ y) = tail? t := by
  unfold tail? readTail? Connector.read?
  rcases Text.trimLeft_append_blanks hy t with ⟨hnil, hlong⟩ | ⟨hlong, hblanks⟩
  · rw [hnil, hlong]
    rfl
  · rw [hlong, hblanks, Arrow.read?_append_blanks hy]
    cases Arrow.read? (Text.trimLeft t) with
    | none => rfl
    | some found =>
      obtain ⟨arrow, rest⟩ := found
      simp only [Option.map_some, Option.bind_eq_bind, Option.bind_some,
        Connector.readLabel_append_blanks hy]
      rcases Text.trimLeft_append_blanks hy (Connector.readLabel rest).2 with ⟨hnil', hlong'⟩
        | ⟨hlong', hblanks'⟩
      · rw [hnil', hlong']
        rfl
      · simp only [hlong', hblanks', Option.pure_def, Option.bind_some,
          Identifier.read?_append_blanks hy]
        cases Identifier.read? (Text.trimLeft (Connector.readLabel rest).2) <;> rfl

theorem readClass_append_blanks (hy : ∀ c ∈ y, Text.isBlank c = true) (t : Text) :
    (readClass (t ++ y)).2 = (readClass t).2 ++ y := by
  refine readClass_append (Text.stops_of_isBlank hy fun c hc => ?_)
  have hcolon : c ≠ ':' := by
    rintro rfl
    exact absurd hc (by decide)
  simp [Line.isSuffixChar, Text.not_isWord_of_isBlank hc, hcolon]

theorem inline?_of_blanks (hy : ∀ c ∈ y, Text.isBlank c = true) : inline? y = none := by
  induction y with
  | nil => rfl
  | cons c cs ih =>
    by_cases hline : c = '\n'
    · rw [inline?, readInline?, if_pos hline]
      rfl
    · rw [inline?_cons hline, Bracket.not_isClosing_of_isBlank (hy c List.mem_cons_self),
        ih fun d hd => hy d (List.mem_cons_of_mem c hd)]
      rfl

theorem inline?_append_blanks (hy : ∀ c ∈ y, Text.isBlank c = true) (t : Text) :
    inline? (t ++ y) = inline? t := by
  induction t with
  | nil => exact inline?_of_blanks hy
  | cons c cs ih =>
    rw [List.cons_append]
    by_cases hline : c = '\n'
    · rw [inline?, inline?, readInline?, readInline?, if_pos hline, if_pos hline]
    · rw [inline?_cons hline, inline?_cons hline, ih, readClass_append_blanks hy,
        tail?_append_blanks hy]

/-- A link that starts at a name, told by what is read behind the name. -/
theorem ends?_eq (t : Text) :
    ends? t = (Identifier.read? t).bind fun (source, rest) =>
      (match Bracket.read? rest with
        | some (_, inside) => inline? inside
        | none => tail? rest).map fun (k, target) => (source, k, target) := by
  unfold ends? read? afterSource? inline? tail?
  cases Identifier.read? t with
  | none => rfl
  | some found =>
    obtain ⟨source, rest⟩ := found
    simp only [Option.bind_eq_bind, Option.bind_some]
    cases Bracket.read? rest with
    | none => cases readTail? rest <;> rfl
    | some opened =>
      simp only []
      cases readInline? readTail? opened.2 <;> rfl

theorem ends?_append_blanks (hy : ∀ c ∈ y, Text.isBlank c = true) (t : Text) :
    ends? (t ++ y) = ends? t := by
  rw [ends?_eq, ends?_eq, Identifier.read?_append_blanks hy]
  cases Identifier.read? t with
  | none => rfl
  | some found =>
    obtain ⟨source, rest⟩ := found
    simp only [Option.map_some, Option.bind_some, Bracket.read?_append_blanks hy]
    cases Bracket.read? rest with
    | none => simp only [Option.map_none, tail?_append_blanks hy]
    | some opened => simp only [Option.map_some, inline?_append_blanks hy]

theorem firstEnds?_append_blanks (hy : ∀ c ∈ y, Text.isBlank c = true) (before : Option Char)
    (t : Text) : firstEnds? before (t ++ y) = firstEnds? before t := by
  induction t generalizing before with
  | nil =>
    have hstart : ∀ c ∈ y, Identifier.isStart c = false := fun c hc =>
      Identifier.not_isStart_of_not_isChar (Identifier.not_isChar_of_isBlank (hy c hc))
    have hskip : firstEnds? before (y ++ []) = _ := firstEnds?_append_of_not_isStart hstart
    rw [List.append_nil] at hskip
    rw [List.nil_append, hskip, firstEnds?_nil, firstEnds?_nil]
  | cons c cs ih =>
    have hends := ends?_append_blanks hy (c :: cs)
    rw [List.cons_append] at hends
    rw [List.cons_append, firstEnds?_cons, firstEnds?_cons, hends, ih]

end Link

namespace Buffer

/-- Blanks at the end of a line do not change its edge. -/
theorem edgeOn?_append_blanks (hy : ∀ c ∈ y, Text.isBlank c = true) (line : Line) (i : Nat) :
    edgeOn? (line ++ y) i = edgeOn? line i := by
  cases hdirective : Line.isDirective line with
  | true =>
    have hlong := Line.isDirective_append_blanks hy line
    rw [hdirective] at hlong
    rw [edgeOn?, edgeOn?, if_pos hdirective, if_pos hlong]
  | false =>
    have hlong := Line.isDirective_append_blanks hy line
    rw [hdirective] at hlong
    -- the edge is a function of the link's ends, and those are read off the masked line
    rw [edgeOn?_eq hlong, edgeOn?_eq hdirective, Line.link?, Line.link?,
      Line.maskLabels_append_blanks hy]
    rw [Link.ends_first?, Link.ends_first?, Link.firstEnds?_append_blanks hy]

end Buffer

end Chartwright
