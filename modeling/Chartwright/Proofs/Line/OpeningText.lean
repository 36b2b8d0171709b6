import Chartwright.Proofs.Line.View
/-!
Opening lines of subgraphs, written and read back.

What stands before and at the identifier of an opening is read back wherever it is written
(`Opening.read?_head`), and so is a title without a closing bracket right behind it
(`Opening.readTitle_written`). So a line that has been given another title opens the same subgraph
under that title (`Opening.read?_retitle`). Of an opening line no scan reads more than its
identifier and its caption (`Line.view_of_opening`).
-/
namespace Chartwright

namespace Opening

variable {o : Opening} {line rest after title gap : Text}

/-- The parts of an opening up to its identifier are blanks, as far as they are no words, and the
word for a subgraph ends before the identifier. -/
structure Sound (o : Opening) : Prop where
  indent_blank : ∀ c ∈ o.indent, Text.isBlank c = true
  gap_blank : ∀ c ∈ o.gap, Text.isBlank c = true
  gap_ne_nil : o.gap ≠ []
  id_valid : Identifier.valid o.id = true

/-- What is read as an opening is one. -/
theorem sound_of_read? (h : read? line = some (o, rest)) : o.Sound ∧
    ∃ after, line = o.head ++ after ∧ Text.Stops Identifier.isChar after ∧
      readTitle after = (o.title, rest) := by
  have hline := eq_of_read? h
  simp only [read?, Option.bind_eq_bind, Option.bind_eq_some_iff, Prod.exists] at h
  obtain ⟨r, hword, id, after, hid, h⟩ := h
  split at h
  · cases h
  · next hgap =>
    simp only [Option.pure_def, Option.some.injEq, Prod.mk.injEq] at h
    obtain ⟨rfl, rfl⟩ := h
    refine ⟨⟨fun c hc => Text.isBlank_of_mem_blanks hc, fun c hc =>
      Text.isBlank_of_mem_blanks hc, ?_,
      Identifier.valid_of_read? hid⟩, after, ?_, Identifier.stops_of_read? hid, rfl⟩
    · simpa using hgap
    · conv => rhs; rw [eq_of_readTitle after]
      rwa [List.append_assoc] at hline

/-- An opening is read back up to its identifier, and a title behind it is read as it stands. -/
theorem read?_head (h : o.Sound) (hafter : Text.Stops Identifier.isChar after) :
    read? (o.head ++ after) =
      some ({ o with title := (readTitle after).1 }, (readTitle after).2) := by
  have hword : Text.Stops Text.isBlank ("subgraph".toList ++ (o.gap ++ (o.id ++ after))) :=
    Text.stops_cons.2 (by decide)
  have hid := Identifier.stops_isBlank_append h.id_valid after
  have hsplit : o.head ++ after =
      o.indent ++ ("subgraph".toList ++ (o.gap ++ (o.id ++ after))) := by
    simp [head]
  have hgap : o.gap.isEmpty = false := by simpa using h.gap_ne_nil
  rw [hsplit, read?, Text.trimLeft_append h.indent_blank hword,
    Text.blanks_append h.indent_blank hword, Text.after?_append]
  simp only [Option.bind_eq_bind, Option.bind_some]
  rw [Text.trimLeft_append h.gap_blank hid, Text.blanks_append h.gap_blank hid,
    Identifier.read?_append h.id_valid hafter, Option.bind_some, hgap]
  rfl

/-- A title is read back unless a closing bracket stands in it. -/
theorem readTitle_written (hgap : ∀ c ∈ gap, Text.isBlank c = true) (htitle : ']' ∉ title)
    (rest : Text) :
    readTitle ((⟨gap, title⟩ : TitlePart).written ++ rest) = (some ⟨gap, title⟩, rest) := by
  have hopen : Text.Stops Text.isBlank (['['] ++ (title ++ [']'] ++ rest)) :=
    Text.stops_cons.2 (by decide)
  have hsplit : (⟨gap, title⟩ : TitlePart).written ++ rest =
      gap ++ (['['] ++ (title ++ [']'] ++ rest)) := by
    simp [TitlePart.written]
  rw [readTitle, TitlePart.read?, hsplit, Text.trimLeft_append hgap hopen,
    Text.blanks_append hgap hopen, Text.after?_append]
  simp only [Option.bind_eq_bind, Option.bind_some]
  rw [Text.cut?_of_not_mem rest htitle]
  rfl

theorem stops_titlePart (hgap : ∀ c ∈ gap, Text.isBlank c = true) (title rest : Text) :
    Text.Stops Identifier.isChar ((⟨gap, title⟩ : TitlePart).written ++ rest) := by
  cases gap with
  | nil => exact Text.stops_cons.2 (by decide)
  | cons c cs =>
    exact Text.stops_cons.2 (Identifier.not_isChar_of_isBlank (hgap c List.mem_cons_self))

theorem read?_titled (h : o.Sound) (hgap : ∀ c ∈ gap, Text.isBlank c = true) (htitle : ']' ∉ title)
    (rest : Text) :
    read? (o.head ++ ((⟨gap, title⟩ : TitlePart).written ++ rest)) =
      some ({ o with title := some ⟨gap, title⟩ }, rest) := by
  rw [read?_head h (stops_titlePart hgap title rest), readTitle_written hgap htitle]

theorem gap_blank_of_readTitle {p : TitlePart} (h : readTitle after = (some p, rest)) :
    ∀ c ∈ p.gap, Text.isBlank c = true := by
  rw [readTitle] at h
  split at h
  · next found rest' hread =>
    cases h
    simp only [TitlePart.read?, Option.bind_eq_bind, Option.bind_eq_some_iff, Prod.exists,
      Option.pure_def, Option.some.injEq, Prod.mk.injEq] at hread
    obtain ⟨inside, -, label, r, -, rfl, -⟩ := hread
    exact fun c hc => Text.isBlank_of_mem_blanks hc
  · cases h

/-! ## Another title -/

/-- A title takes the place of the one that was there, or stands right behind the identifier. -/
theorem retitle_eq (h : read? line = some (o, rest)) (title : Text) :
    o.retitle title line =
      o.head ++ ((⟨(o.title.map (·.gap)).getD [], title⟩ : TitlePart).written ++ rest) := by
  have hline := eq_of_read? h
  rw [titlePart] at hline
  rw [retitle]
  cases htitle : o.title with
  | none =>
    have hsplit : line = o.head ++ ([] ++ rest) := by simpa [htitle] using hline
    have hsplice := Span.splice_append o.head [] (['['] ++ title ++ [']']) rest
    rw [List.length_nil, Nat.add_zero, ← hsplit] at hsplice
    exact hsplice
  | some p =>
    have hsplit : line = o.head ++ p.gap ++ ['['] ++ (p.title ++ ([']'] ++ rest)) := by
      simpa [htitle, TitlePart.written] using hline
    have hlength : o.head.length + p.gap.length + 1 = (o.head ++ p.gap ++ ['[']).length := by
      rw [List.length_append, List.length_append, List.length_singleton]
    show Span.splice ⟨o.head.length + p.gap.length + 1,
        o.head.length + p.gap.length + 1 + p.title.length⟩ title line = _
    rw [hlength, hsplit, Span.splice_append]
    simp [TitlePart.written]

/-- A line with another title opens the same subgraph under that title. -/
theorem read?_retitle (h : read? line = some (o, rest)) (htitle : ']' ∉ title) :
    ∃ o', read? (o.retitle title line) = some (o', rest) ∧ o'.id = o.id ∧ o'.caption = title := by
  obtain ⟨hsound, after, -, -, hread⟩ := sound_of_read? h
  have hgap : ∀ c ∈ (o.title.map (·.gap)).getD [], Text.isBlank c = true := by
    cases hp : o.title with
    | none => exact List.forall_mem_nil _
    | some p => exact gap_blank_of_readTitle (hp ▸ hread)
  rw [retitle_eq h, read?_titled hsound hgap htitle]
  exact ⟨_, rfl, rfl, rfl⟩

theorem lineFeed_not_mem_retitle (h : read? line = some (o, rest)) (hline : '\n' ∉ line)
    (htitle : '\n' ∉ title) :
    '\n' ∉ o.retitle title line := by
  have hsplit := eq_of_read? h
  rw [retitle_eq h]
  rw [hsplit, titlePart] at hline
  cases hp : o.title with
  | none => simp_all [TitlePart.written]
  | some p => simp_all [TitlePart.written]

end Opening

namespace Line

variable {line rest : Text} {o : Opening}

theorem opensSubgraph_of_opening (h : Opening.read? line = some (o, rest)) :
    opensSubgraph line = true := by
  obtain ⟨hsound, after, rfl, -, -⟩ := Opening.sound_of_read? h
  obtain ⟨c, cs, hgap⟩ := List.exists_cons_of_ne_nil hsound.gap_ne_nil
  have hblank := hsound.gap_blank c (by rw [hgap]; exact List.mem_cons_self)
  have hsplit : o.head ++ after =
      o.indent ++ ("subgraph".toList ++ (c :: (cs ++ (o.id ++ after)))) := by
    simp [Opening.head, hgap]
  have hword : Text.Stops Text.isBlank ("subgraph".toList ++ (c :: (cs ++ (o.id ++ after)))) :=
    Text.stops_cons.2 (by decide)
  rw [opensSubgraph, hsplit, Text.trimLeft_append hsound.indent_blank hword, Text.after?_append]
  show Text.endsWord (c :: _) = true
  simp [Text.endsWord, Text.not_isWord_of_isBlank hblank]

/-- A line that opens a subgraph shows nothing else. -/
theorem view_of_opening (h : Opening.read? line = some (o, rest)) :
    view line = ⟨[], [], [], none, .ok none, true, false, some (o.id, o.caption)⟩ := by
  have hopens := opensSubgraph_of_opening h
  have hdirective := isDirective_of_opening h
  obtain ⟨-, hrefers, hedge⟩ := shows_nothing_of_isDirective hdirective
  have hcloses : closesSubgraph line = false := by
    refine Bool.eq_false_iff.2 fun hcloses => ?_
    rw [not_opensSubgraph_of_closesSubgraph hcloses] at hopens
    cases hopens
  rw [view, declarations_of_isDirective hdirective, hrefers,
    identifiers_of_isDirective hdirective, hedge, StyleLine.read_of_opensSubgraph hopens, hopens,
    hcloses, h]
  rfl

end Line

end Chartwright
