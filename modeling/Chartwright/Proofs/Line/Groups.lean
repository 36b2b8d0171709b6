import Chartwright.Proofs.Line.Held
/-!
The groups of a line, found from left to right.

A line is taken apart at the connectors that a masked copy of it shows, and each part at its
ampersands. Told from the left, the first part reaches to the first connector and the rest is taken
apart by itself (`groups_append`). So a character is passed over, opens a group, or belongs to a
token, and what it does to the groups of the rest does not depend on the rest.
-/
namespace Chartwright

/-! ## Tokens -/

namespace Text

theorem piecesBy_append_right {α : Type} {stops : α → Bool} (x : List α) {run : List α}
    (hrun : ∀ c ∈ run, stops c = false) :
    ∃ ps p, piecesBy stops x = ps ++ [p] ∧ piecesBy stops (x ++ run) = ps ++ [p ++ run] := by
  induction x with
  | nil => exact ⟨[], [], rfl, piecesBy_of_forall hrun⟩
  | cons c cs ih =>
    obtain ⟨ps, p, hcs, hlong⟩ := ih
    rw [List.cons_append, piecesBy, piecesBy, hcs, hlong]
    split
    · exact ⟨[] :: ps, p, rfl, rfl⟩
    · cases ps with
      | nil => exact ⟨[], c :: p, rfl, rfl⟩
      | cons q qs => exact ⟨(c :: q) :: qs, p, rfl, rfl⟩

theorem trim_append_left {x : Text} (hx : ∀ c ∈ x, isBlank c = true) (t : Text) :
    trim (x ++ t) = trim t := by
  rw [trim, trim, trimLeft, List.dropWhile_append_of_pos hx]
  rfl

end Text

namespace Segment

variable {l l' m m' : Text}

theorem not_ampersand_of_mem_zip (l : Text) (hm : '&' ∉ m) :
    ∀ c ∈ l.zip m, (c.2 == '&') = false := by
  intro c hc
  rw [beq_eq_false_iff_ne]
  intro heq
  exact hm (heq ▸ (List.of_mem_zip hc).2)

theorem tokensOf_of_not_mem (hm : '&' ∉ m) (hlength : l.length = m.length) :
    tokensOf l m = [Text.trim l].filter fun token => !token.isEmpty := by
  have hnone := not_ampersand_of_mem_zip l hm
  rw [tokensOf, Text.piecesBy_of_forall hnone, List.map_singleton,
    List.map_fst_zip (Nat.le_of_eq hlength)]

theorem tokensOf_append_cons (hm : '&' ∉ m) (hlength : l.length = m.length) (c : Char) :
    tokensOf (l ++ c :: l') (m ++ '&' :: m') = tokensOf l m ++ tokensOf l' m' := by
  have hnone := not_ampersand_of_mem_zip l hm
  rw [tokensOf_of_not_mem hm hlength, tokensOf, List.zip_append hlength, List.zip_cons_cons,
    Text.piecesBy_append_cons _ hnone (by rfl), List.map_cons,
    List.map_fst_zip (Nat.le_of_eq hlength), ← List.singleton_append, List.filter_append]
  rfl

theorem tokensOf_blanks_append (hl : ∀ c ∈ l, Text.isBlank c = true) (hm : '&' ∉ m)
    (hlength : l.length = m.length) : tokensOf (l ++ l') (m ++ m') = tokensOf l' m' := by
  have hnone := not_ampersand_of_mem_zip l hm
  obtain ⟨p, ps, hrest, hlong⟩ := Text.piecesBy_append (l.zip m) (l'.zip m') hnone
  rw [tokensOf, tokensOf, List.zip_append hlength, hlong, hrest, List.map_cons, List.map_cons,
    List.map_append, List.map_fst_zip (Nat.le_of_eq hlength), Text.trim_append_left hl]

theorem tokensOf_append_blanks (hl : ∀ c ∈ l', Text.isBlank c = true) (hm : '&' ∉ m')
    (hlength : l.length = m.length) (hlength' : l'.length = m'.length) :
    tokensOf (l ++ l') (m ++ m') = tokensOf l m := by
  have hnone := not_ampersand_of_mem_zip l' hm
  obtain ⟨ps, p, hshort, hlong⟩ := Text.piecesBy_append_right (l.zip m) hnone
  rw [tokensOf, tokensOf, List.zip_append hlength, hlong, hshort, List.map_append, List.map_append,
    List.map_singleton, List.map_singleton, List.map_append,
    List.map_fst_zip (Nat.le_of_eq hlength'), Text.trim_append_blanks hl]

end Segment

/-! ## Connectors -/

namespace Chain

/-- No connector begins in a text when `y` follows. -/
def Quiet (y : Text) : Text → Prop
  | [] => True
  | c :: cs => Connector.read? (c :: cs ++ y) = none ∧ Quiet y cs

section Quiet

variable {x y z : Text}

theorem Quiet.append (hx : Quiet (y ++ z) x) (hy : Quiet z y) : Quiet z (x ++ y) := by
  induction x with
  | nil => exact hy
  | cons c cs ih =>
    have hread : Connector.read? (c :: cs ++ (y ++ z)) = none := hx.1
    rw [← List.append_assoc] at hread
    exact ⟨hread, ih hx.2⟩

theorem Quiet.left (h : Quiet z (x ++ y)) : Quiet (y ++ z) x := by
  induction x with
  | nil => exact trivial
  | cons c cs ih =>
    have hread : Connector.read? (c :: (cs ++ y) ++ z) = none := h.1
    rw [List.cons_append, List.append_assoc] at hread
    exact ⟨hread, ih h.2⟩

theorem Quiet.right (h : Quiet z (x ++ y)) : Quiet z y := by
  induction x with
  | nil => exact h
  | cons c cs ih => exact ih h.2

theorem quiet_of_isQuiet (h : ∀ c ∈ x, Connector.isQuiet c = true) (y : Text) : Quiet y x := by
  induction x with
  | nil => exact trivial
  | cons c cs ih =>
    exact ⟨Connector.read?_of_isQuiet (h c List.mem_cons_self), ih fun d hd =>
      h d (List.mem_cons_of_mem _ hd)⟩

theorem Quiet.read?_eq_none (h : Quiet y x) {s : Text} (hs : s <:+ x) (hne : s ≠ []) :
    Connector.read? (s ++ y) = none := by
  obtain ⟨front, rfl⟩ := hs
  cases s with
  | nil => exact absurd rfl hne
  | cons c cs => exact h.right.1

theorem connectorSpans_quiet_append (h : Quiet y x) :
    connectorSpans (x ++ y) = (connectorSpans y).map (Span.shift x.length) := by
  rw [Connector.spans_eq, Connector.spans_eq]
  refine Text.spansOf_of_none fun s hs hne => ?_
  rw [Connector.spanAt, h.read?_eq_none hs hne]
  rfl

theorem connectorSpans_of_quiet (h : Quiet [] x) : connectorSpans x = [] := by
  have hspans := connectorSpans_quiet_append h
  rwa [List.append_nil] at hspans

/-- The first connector of a text. -/
theorem exists_first (m : Text) : Quiet [] m ∨ ∃ front k after, m = front ++ (k.written ++ after) ∧
    Quiet (k.written ++ after) front ∧ Connector.read? (k.written ++ after) = some (k, after) := by
  induction m with
  | nil => exact .inl trivial
  | cons c cs ih =>
    cases hread : Connector.read? (c :: cs) with
    | some found =>
      have heq := Connector.eq_of_read? hread
      rw [heq] at hread
      exact .inr ⟨[], found.1, found.2, heq, trivial, hread⟩
    | none =>
      rcases ih with hquiet | ⟨front, k, after, rfl, hquiet, hk⟩
      · exact .inl ⟨by rwa [List.append_nil], hquiet⟩
      · exact .inr ⟨c :: front, k, after, rfl, ⟨hread, hquiet⟩, hk⟩

end Quiet

theorem written_ne_nil_of_read? {t rest : Text} {k : Connector}
    (h : Connector.read? t = some (k, rest)) : k.written ≠ [] := by
  simp only [Connector.read?, Option.bind_eq_bind, Option.bind_eq_some_iff, Prod.exists,
    Option.pure_def, Option.some.injEq, Prod.mk.injEq] at h
  obtain ⟨arrow, r, harrow, rfl, -⟩ := h
  obtain ⟨c, cs, hspelling, -⟩ := (Arrow.read?_eq_some_iff.1 harrow).1.head
  simp [Connector.written, hspelling]

theorem connectorSpans_append {front after : Text} {k : Connector}
    (hquiet : Quiet (k.written ++ after) front)
    (hk : Connector.read? (k.written ++ after) = some (k, after)) :
    connectorSpans (front ++ (k.written ++ after)) =
      ⟨front.length, front.length + k.written.length⟩ ::
        (connectorSpans after).map (Span.shift (front.length + k.written.length)) := by
  have hspan : Connector.spanAt (k.written ++ after) =
      some (⟨0, k.written.length⟩, k.written.length) := by
    rw [Connector.spanAt, hk]
    rfl
  have hfirst : connectorSpans (k.written ++ after) =
      ⟨0, k.written.length⟩ :: (connectorSpans after).map (Span.shift k.written.length) := by
    rw [Connector.spans_eq, Connector.spans_eq]
    exact Text.spansOf_cons (written_ne_nil_of_read? hk) hspan
  rw [connectorSpans_quiet_append hquiet, hfirst, List.map_cons, Span.map_shift_shift]
  simp [Span.shift, Nat.add_comm]

theorem quiet_of_connectorSpans {m : Text} (h : connectorSpans m = []) : Quiet [] m := by
  rcases exists_first m with hquiet | ⟨front, k, after, rfl, hquiet, hread⟩
  · exact hquiet
  · rw [connectorSpans_append hquiet hread] at h
    cases h

/-! ## Groups -/

theorem gaps_shift (n start stop : Nat) (spans : List Span) :
    gaps (start + n) (stop + n) (spans.map (Span.shift n)) =
      (gaps start stop spans).map (Span.shift n) := by
  induction spans generalizing start with
  | nil => rfl
  | cons s rest ih =>
    have hrest := ih s.stop
    simp only [List.map_cons, gaps, Span.shift] at hrest ⊢
    rw [hrest]

/-- The segments between the connectors that a masked copy of a line shows, indent and end of the
line included. -/
def segmentsOf (line masked : Text) : List Segment :=
  (gaps 0 line.length (connectorSpans masked)).map (Segment.ofSpan line masked)

/-- The connectors that a masked copy of a line shows, as the line has them. -/
def connectorsOf (line masked : Text) : List Text := (connectorSpans masked).map (·.cut line)

/-- The tokens of the groups on a line. -/
def groups (line masked : Text) : List (List Text) := (segmentsOf line masked).map (·.tokens)

section Append

variable {l m front after : Text} {k : Connector}

theorem ofSpan_shift {x x' : Text} (hlength : x.length = x'.length) (y y' : Text) (s : Span) :
    Segment.ofSpan (x ++ y) (x' ++ y') (s.shift x.length) = Segment.ofSpan y y' s := by
  rw [Segment.ofSpan, Segment.ofSpan, Span.cut_shift, hlength, Span.cut_shift]

theorem segmentsOf_of_quiet (h : Quiet [] m) (hlength : l.length = m.length) :
    segmentsOf l m = [⟨Text.trim l, Segment.tokensOf l m⟩] := by
  have hfull : ∀ t : Text, (⟨0, t.length⟩ : Span).cut t = t := fun t => by simp [Span.cut]
  rw [segmentsOf, connectorSpans_of_quiet h, gaps, List.map_singleton, Segment.ofSpan, hfull,
    hlength, hfull]

/-- The first segment reaches to the first connector. -/
theorem segmentsOf_append {l₁ l₂ l₃ : Text} (hquiet : Quiet (k.written ++ after) front)
    (hk : Connector.read? (k.written ++ after) = some (k, after)) (h₁ : l₁.length = front.length)
    (h₂ : l₂.length = k.written.length) :
    segmentsOf (l₁ ++ (l₂ ++ l₃)) (front ++ (k.written ++ after)) =
      ⟨Text.trim l₁, Segment.tokensOf l₁ front⟩ :: segmentsOf l₃ after := by
  have hgaps : gaps (front.length + k.written.length) (l₁ ++ (l₂ ++ l₃)).length
      ((connectorSpans after).map (Span.shift (front.length + k.written.length))) =
      (gaps 0 l₃.length (connectorSpans after)).map
        (Span.shift (front.length + k.written.length)) := by
    rw [← gaps_shift, Nat.zero_add]
    congr 1
    simp only [List.length_append]
    omega
  have hlength : front.length + k.written.length = (l₁ ++ l₂).length := by
    rw [List.length_append, h₁, h₂]
  have hboth : (l₁ ++ l₂).length = (front ++ k.written).length := by
    rw [List.length_append, List.length_append, h₁, h₂]
  rw [segmentsOf, connectorSpans_append hquiet hk, gaps, List.map_cons, hgaps, List.map_map,
    segmentsOf]
  congr 1
  · rw [Segment.ofSpan, Span.cut_front, ← h₁, Span.cut_front]
  · apply List.map_congr_left
    intro s _
    rw [Function.comp_apply, hlength, ← List.append_assoc, ← List.append_assoc, ofSpan_shift hboth]

theorem connectorsOf_append {l₁ l₂ l₃ : Text} (hquiet : Quiet (k.written ++ after) front)
    (hk : Connector.read? (k.written ++ after) = some (k, after)) (h₁ : l₁.length = front.length)
    (h₂ : l₂.length = k.written.length) :
    connectorsOf (l₁ ++ (l₂ ++ l₃)) (front ++ (k.written ++ after)) =
      l₂ :: connectorsOf l₃ after := by
  have hlength : front.length + k.written.length = (l₁ ++ l₂).length := by
    rw [List.length_append, h₁, h₂]
  rw [connectorsOf, connectorSpans_append hquiet hk, List.map_cons, List.map_map, connectorsOf]
  congr 1
  · rw [← h₁, ← h₂]
    exact Span.cut_append ..
  · apply List.map_congr_left
    intro s _
    rw [Function.comp_apply, hlength, ← List.append_assoc, Span.cut_shift]

theorem groups_of_quiet (h : Quiet [] m) (hlength : l.length = m.length) :
    groups l m = [Segment.tokensOf l m] := by
  rw [groups, segmentsOf_of_quiet h hlength]
  rfl

theorem groups_append {l₁ l₂ l₃ : Text} (hquiet : Quiet (k.written ++ after) front)
    (hk : Connector.read? (k.written ++ after) = some (k, after)) (h₁ : l₁.length = front.length)
    (h₂ : l₂.length = k.written.length) :
    groups (l₁ ++ (l₂ ++ l₃)) (front ++ (k.written ++ after)) =
      Segment.tokensOf l₁ front :: groups l₃ after := by
  rw [groups, segmentsOf_append hquiet hk h₁ h₂]
  rfl

theorem exists_along {x y z : Text} (h : l.length = (x ++ (y ++ z)).length) :
    ∃ l₁ l₂ l₃, l = l₁ ++ (l₂ ++ l₃) ∧ l₁.length = x.length ∧ l₂.length = y.length := by
  simp only [List.length_append] at h
  obtain ⟨l₁, rest, rfl, h₁⟩ := Text.exists_eq_append_of_le (t := l) (n := x.length) (by omega)
  rw [List.length_append] at h
  obtain ⟨l₂, l₃, rfl, h₂⟩ := Text.exists_eq_append_of_le (t := rest) (n := y.length) (by omega)
  exact ⟨l₁, l₂, l₃, rfl, h₁, h₂⟩

/-- A text that no connector begins in goes to the first group of what follows, up to the first
connector there. -/
theorem exists_groups_append {x y : Text} (hxy : x.length = y.length)
    (hlength : l.length = m.length) (hquiet : Quiet m y) :
    ∃ l₁ l₂ m₁ m₂ more, l = l₁ ++ l₂ ∧ m = m₁ ++ m₂ ∧ l₁.length = m₁.length ∧ Quiet m₂ m₁ ∧
      groups l m = Segment.tokensOf l₁ m₁ :: more ∧
      groups (x ++ l) (y ++ m) = Segment.tokensOf (x ++ l₁) (y ++ m₁) :: more := by
  rcases exists_first m with hrest | ⟨front, k, after, rfl, hfront, hk⟩
  · have hall : Quiet [] (y ++ m) := by
      refine Quiet.append ?_ hrest
      rwa [List.append_nil]
    refine ⟨l, [], m, [], [], by simp, by simp, hlength, hrest, groups_of_quiet hrest hlength, ?_⟩
    exact groups_of_quiet hall (by rw [List.length_append, List.length_append, hxy, hlength])
  · obtain ⟨l₁, l₂, l₃, rfl, h₁, h₂⟩ := exists_along hlength
    refine ⟨l₁, l₂ ++ l₃, front, k.written ++ after, groups l₃ after, rfl, rfl, h₁, hfront,
      groups_append hfront hk h₁ h₂, ?_⟩
    rw [← List.append_assoc x, ← List.append_assoc y]
    exact groups_append (hquiet.append hfront) hk
      (by rw [List.length_append, List.length_append, hxy, h₁]) h₂

end Append

/-- A masked copy shows a line: each character as it is, or the filler in its place. -/
def Shows : Text → Text → Prop
  | [], [] => True
  | c :: cs, d :: ds => (d = c ∨ d = '\x00') ∧ Shows cs ds
  | _, _ => False

section Shows

variable {l m : Text}

theorem Shows.length_eq (h : Shows l m) : l.length = m.length := by
  induction l generalizing m with
  | nil =>
    cases m with
    | nil => rfl
    | cons d ds => exact h.elim
  | cons c cs ih =>
    cases m with
    | nil => exact h.elim
    | cons d ds => rw [List.length_cons, List.length_cons, ih h.2]

theorem shows_hide (spans : List Span) (t : Text) : Shows t (Text.hide '\x00' spans t) := by
  induction t generalizing spans with
  | nil => exact trivial
  | cons c cs ih =>
    obtain ⟨d, hd, hhide⟩ := Text.hide_cons '\x00' spans c cs
    rw [hhide]
    exact ⟨hd, ih _⟩

theorem Shows.append {x y : Text} (hxy : Shows x y) (h : Shows l m) : Shows (x ++ l) (y ++ m) := by
  induction x generalizing y with
  | nil =>
    cases y with
    | nil => exact h
    | cons d ds => exact hxy.elim
  | cons c cs ih =>
    cases y with
    | nil => exact hxy.elim
    | cons d ds => exact ⟨hxy.1, ih hxy.2⟩

theorem Shows.exists_eq_append {y : Text} (h : Shows l (y ++ m)) (hy : '\x00' ∉ y) :
    ∃ l', l = y ++ l' ∧ Shows l' m := by
  induction y generalizing l with
  | nil => exact ⟨l, rfl, h⟩
  | cons d ds ih =>
    cases l with
    | nil => exact h.elim
    | cons c cs =>
      have hd : d = c := h.1.resolve_right fun e => hy (e ▸ List.mem_cons_self)
      obtain ⟨l', rfl, hl'⟩ := ih h.2 fun hmem => hy (List.mem_cons_of_mem _ hmem)
      exact ⟨l', by rw [hd]; rfl, hl'⟩

theorem Shows.of_append {x y : Text} (h : Shows (x ++ l) (y ++ m)) (hxy : x.length = y.length) :
    Shows x y ∧ Shows l m := by
  induction x generalizing y with
  | nil =>
    obtain rfl : y = [] := List.length_eq_zero_iff.1 hxy.symm
    exact ⟨trivial, h⟩
  | cons c cs ih =>
    cases y with
    | nil => cases hxy
    | cons d ds =>
      obtain ⟨hfront, hback⟩ := ih h.2 (by simpa using hxy)
      exact ⟨⟨h.1, hfront⟩, hback⟩

theorem Shows.exists_append {y : Text} (h : Shows l (y ++ m)) :
    ∃ x l', l = x ++ l' ∧ x.length = y.length ∧ Shows x y ∧ Shows l' m := by
  obtain ⟨x, l', rfl, hx⟩ := Text.exists_eq_append_of_le (t := l) (n := y.length) (by
    rw [h.length_eq, List.length_append]
    exact Nat.le_add_right ..)
  exact ⟨x, l', rfl, hx, h.of_append hx⟩

end Shows

theorem nul_not_mem_of_isBlank {t : Text} (h : ∀ c ∈ t, Text.isBlank c = true) : '\x00' ∉ t :=
  fun hmem => absurd (h _ hmem) (by decide)

section Cons

variable {l m : Text}

theorem read?_cons_of_isBlank {c : Char} (hc : Text.isBlank c = true) (t : Text) :
    Connector.read? (c :: t) = (Connector.read? t).map fun (k, rest) =>
      ({ k with gap := c :: k.gap }, rest) := by
  have htrim : Text.trimLeft (c :: t) = Text.trimLeft t := by simp [Text.trimLeft, hc]
  have hblanks : Text.blanks (c :: t) = c :: Text.blanks t := by simp [Text.blanks, hc]
  rw [Connector.read?, Connector.read?, htrim, hblanks]
  cases Arrow.read? (Text.trimLeft t) <;> rfl

/-- A blank does not matter to the groups behind it. -/
theorem groups_cons_blank {c : Char} (hc : Text.isBlank c = true) (hlength : l.length = m.length) :
    groups (c :: l) (c :: m) = groups l m := by
  cases hread : Connector.read? (c :: m) with
  | none =>
    have hquiet : Quiet m [c] := ⟨hread, trivial⟩
    obtain ⟨l₁, l₂, m₁, m₂, more, rfl, rfl, h₁, -, hshort, hlong⟩ :=
      exists_groups_append (x := [c]) rfl hlength hquiet
    have hblank : ∀ d ∈ [c], Text.isBlank d = true := List.forall_mem_singleton.2 hc
    have htokens : Segment.tokensOf ([c] ++ l₁) ([c] ++ m₁) = Segment.tokensOf l₁ m₁ :=
      Segment.tokensOf_blanks_append hblank (Text.not_mem_of_isBlank hblank (by decide)) rfl
    rw [htokens] at hlong
    rw [hshort]
    exact hlong
  | some found =>
    rw [read?_cons_of_isBlank hc] at hread
    obtain ⟨⟨k, after⟩, hk, heq⟩ := Option.map_eq_some_iff.1 hread
    obtain rfl := Connector.eq_of_read? hk
    -- the blank belongs to the gap of a connector
    have hlong : Connector.read? (({ k with gap := c :: k.gap } : Connector).written ++ after) =
        some ({ k with gap := c :: k.gap }, after) := by
      have hwritten : ({ k with gap := c :: k.gap } : Connector).written ++ after =
          c :: (k.written ++ after) := rfl
      rw [hwritten, read?_cons_of_isBlank hc, hk]
      rfl
    obtain ⟨l₂, l₃, rfl, h₂⟩ := Text.exists_eq_append_of_le (t := l) (n := k.written.length)
      (by rw [hlength, List.length_append]; omega)
    have hshort : groups ([] ++ (l₂ ++ l₃)) ([] ++ (k.written ++ after)) = _ :: _ :=
      groups_append trivial hk rfl h₂
    have hfull : groups ([] ++ ((c :: l₂) ++ l₃))
        ([] ++ (({ k with gap := c :: k.gap } : Connector).written ++ after)) =
        _ :: _ := groups_append trivial hlong rfl (congrArg Nat.succ h₂)
    rw [List.nil_append, List.nil_append] at hshort hfull
    rw [hshort, ← hfull]
    rfl

theorem groups_blanks_append {x : Text} (hx : ∀ c ∈ x, Text.isBlank c = true)
    (hlength : l.length = m.length) : groups (x ++ l) (x ++ m) = groups l m := by
  induction x with
  | nil => rfl
  | cons c cs ih =>
    have hrest : (cs ++ l).length = (cs ++ m).length := by
      rw [List.length_append, List.length_append, hlength]
    rw [List.cons_append, List.cons_append, groups_cons_blank (hx c List.mem_cons_self) hrest]
    exact ih fun d hd => hx d (List.mem_cons_of_mem _ hd)

theorem groups_cons_ampersand (c : Char) (hlength : l.length = m.length) :
    groups (c :: l) ('&' :: m) = groups l m := by
  have hquiet : Quiet m ['&'] := quiet_of_isQuiet (List.forall_mem_singleton.2 (by decide)) m
  have hone : [c].length = ['&'].length := rfl
  obtain ⟨l₁, l₂, m₁, m₂, more, rfl, rfl, h₁, -, hshort, hlong⟩ :=
    exists_groups_append hone hlength hquiet
  have htokens : Segment.tokensOf ([] ++ c :: l₁) ([] ++ '&' :: m₁) =
      Segment.tokensOf [] [] ++ Segment.tokensOf l₁ m₁ :=
    Segment.tokensOf_append_cons List.not_mem_nil rfl c
  rw [Segment.tokensOf_nil, List.nil_append, List.nil_append, List.nil_append] at htokens
  rw [hshort, ← htokens]
  exact hlong

/-- A text that can follow a token: blanks aside it is empty, or begins with an ampersand or a
connector. -/
def EndsToken (m : Text) : Prop :=
  Text.Stops (· != '&') (Text.trimLeft m) ∨ (Connector.read? m).isSome = true

/-- A token goes to the first group of what follows. -/
theorem tokensOf_token_append {token y : Text} (htight : Text.Tight token) (hy : '&' ∉ y)
    (hlength : token.length = y.length) (hshows : Shows l m)
    (hends : Text.Stops (· != '&') (Text.trimLeft m)) :
    Segment.tokensOf (token ++ l) (y ++ m) = token :: Segment.tokensOf l m := by
  have hblank : ∀ c ∈ Text.blanks m, Text.isBlank c = true := fun c => Text.isBlank_of_mem_blanks
  have hand : '&' ∉ Text.blanks m := Text.not_mem_of_isBlank hblank (by decide)
  have hself : Segment.tokensOf token y = [token] := by
    have htrim : Text.trim token = token := Text.trim_of_stops htight.front htight.back
    rw [Segment.tokensOf_of_not_mem hy hlength, htrim]
    simp [htight.ne_nil]
  obtain ⟨rest, hrest⟩ : ∃ rest, Text.trimLeft m = rest := ⟨_, rfl⟩
  have hm : m = Text.blanks m ++ rest := by rw [← hrest, Text.blanks_append_trimLeft]
  rw [hm] at hshows
  obtain ⟨l', rfl, hl'⟩ := hshows.exists_eq_append (nul_not_mem_of_isBlank hblank)
  generalize Text.blanks m = run at *
  subst hm
  have hlong : Segment.tokensOf (token ++ run) (y ++ run) = [token] := by
    rw [Segment.tokensOf_append_blanks hblank hand hlength rfl, hself]
  have hblanks : Segment.tokensOf (run ++ l') (run ++ rest) = Segment.tokensOf l' rest :=
    Segment.tokensOf_blanks_append hblank hand rfl
  have hlength' : (token ++ run).length = (y ++ run).length := by
    rw [List.length_append, List.length_append, hlength]
  rw [hblanks, ← List.append_assoc, ← List.append_assoc]
  cases rest with
  | nil =>
    cases l' with
    | nil => rw [List.append_nil, List.append_nil, hlong, Segment.tokensOf_nil]
    | cons c cs => exact hl'.elim
  | cons d ds =>
    rw [hrest, Text.stops_cons, bne_eq_false_iff_eq] at hends
    subst hends
    cases l' with
    | nil => exact hl'.elim
    | cons c cs =>
      have hy' : '&' ∉ y ++ run := by
        rw [List.mem_append, not_or]
        exact ⟨hy, hand⟩
      have hbare : Segment.tokensOf ([] ++ c :: cs) ([] ++ '&' :: ds) = _ ++ _ :=
        Segment.tokensOf_append_cons List.not_mem_nil rfl c
      rw [Segment.tokensOf_nil, List.nil_append, List.nil_append] at hbare
      rw [Segment.tokensOf_append_cons hy' hlength' c, hlong, hbare]
      rfl

theorem groups_token_append {token y : Text} (htight : Text.Tight token) (hy : '&' ∉ y)
    (hlength : token.length = y.length) (hquiet : Quiet m y) (hshows : Shows l m)
    (hends : EndsToken m) :
    groups (token ++ l) (y ++ m) = (groups l m).modifyHead (token :: ·) := by
  obtain ⟨l₁, l₂, m₁, m₂, more, rfl, rfl, h₁, hfirst, hshort, hlong⟩ :=
    exists_groups_append hlength hshows.length_eq hquiet
  have hstops : Text.Stops (· != '&') (Text.trimLeft m₁) := by
    rcases hends with hends | hsome
    · cases htrim : Text.trimLeft m₁ with
      | nil => exact Text.stops_nil _
      | cons d ds =>
        have hall : Text.trimLeft (m₁ ++ m₂) = Text.trimLeft m₁ ++ m₂ := by
          rw [Text.trimLeft, List.dropWhile_append, if_neg]
          · rfl
          · rw [Text.trimLeft] at htrim
            simp [htrim]
        rw [hall, htrim, List.cons_append, Text.stops_cons] at hends
        exact Text.stops_cons.2 hends
    -- a connector at the very front leaves nothing before it
    · cases m₁ with
      | nil => exact Text.stops_nil _
      | cons d ds =>
        rw [hfirst.1] at hsome
        cases hsome
  rw [hshort, hlong, tokensOf_token_append htight hy hlength (hshows.of_append h₁).1 hstops]
  rfl

end Cons

end Chain
end Chartwright
