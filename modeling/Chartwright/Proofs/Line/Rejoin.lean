import Chartwright.Proofs.Line.OneLine
import Chartwright.Proofs.Line.TrailingBlanks
/-!
A line put together again.

A connector takes all blanks around its arrow, and a label is kept apart from it by its brackets. So
no segment of a line begins or ends with a blank, and the segments and connectors of a line, written
one after the other, are the line up to the blanks at its end, as long as every segment holds
something (`interleave_of_chain?`).
-/
namespace Chartwright

namespace Span

variable {t : Text} {s : Span}

theorem cut_append_cut {a b c : Nat} (hab : a ≤ b) (hbc : b ≤ c) :
    (⟨a, b⟩ : Span).cut t ++ (⟨b, c⟩ : Span).cut t = (⟨a, c⟩ : Span).cut t := by
  simp only [cut, List.drop_take]
  have hlength : c - a = (b - a) + (c - b) := by omega
  have hdrop : t.drop b = (t.drop a).drop (b - a) := by rw [List.drop_drop, Nat.add_sub_cancel' hab]
  rw [hlength, List.take_add, hdrop]

theorem cut_front (x y : Text) : (⟨0, x.length⟩ : Span).cut (x ++ y) = x := by simp [cut]

theorem start_lt_of_cut_ne_nil (h : s.cut t ≠ []) : s.start < s.stop ∧ s.start < t.length := by
  have hlength := List.length_pos_iff.2 h
  rw [cut, List.length_drop, List.length_take] at hlength
  omega

/-- A part of a text is trimmed if its first and its last character are no blanks. -/
theorem trim_cut (hfirst : ∀ c, t[s.start]? = some c → Text.isBlank c = false)
    (hlast : ∀ c, t[s.stop - 1]? = some c → Text.isBlank c = false) (h : s.start < s.stop)
    (hstop : s.stop ≤ t.length) : Text.trim (s.cut t) = s.cut t := by
  have hlength : (s.cut t).length = s.stop - s.start := by
    rw [cut, List.length_drop, List.length_take, Nat.min_eq_left hstop]
  apply Text.trim_of_stops
  · intro c hc
    apply hfirst c
    rw [Option.mem_def, List.head?_eq_getElem?, cut, List.getElem?_drop, List.getElem?_take] at hc
    rwa [Nat.add_zero, if_pos h] at hc
  · intro c hc
    apply hlast c
    have hplace : s.start + (s.stop - s.start - 1) = s.stop - 1 := by omega
    have hin : s.stop - 1 < s.stop := by omega
    rw [Option.mem_def, List.head?_reverse, List.getLast?_eq_getElem?, hlength, cut,
      List.getElem?_drop, List.getElem?_take, hplace, if_pos hin] at hc
    exact hc

end Span

namespace Chain

/-- Parts of a text that lie one behind the other make up the text between the first and the last
place. -/
theorem interleave_gaps {t : Text} {start stop : Nat} {spans : List Span}
    (hgaps : ∀ g ∈ gaps start stop spans, g.start < g.stop ∧ Text.trim (g.cut t) = g.cut t)
    (hspans : ∀ s ∈ spans, s.start ≤ s.stop) :
    start < stop ∧ interleave ((gaps start stop spans).map fun g => Text.trim (g.cut t))
      (spans.map (·.cut t)) = (⟨start, stop⟩ : Span).cut t := by
  induction spans generalizing start with
  | nil =>
    obtain ⟨hproper, htrim⟩ := hgaps ⟨start, stop⟩ List.mem_cons_self
    exact ⟨hproper, htrim⟩
  | cons s rest ih =>
    obtain ⟨hproper, htrim⟩ := hgaps ⟨start, s.start⟩ List.mem_cons_self
    have hspan := hspans s List.mem_cons_self
    obtain ⟨hlater, hrest⟩ := ih (fun g hg => hgaps g (List.mem_cons_of_mem _ hg))
      fun s hs => hspans s (List.mem_cons_of_mem _ hs)
    have hself : s.cut t = (⟨s.start, s.stop⟩ : Span).cut t := rfl
    dsimp only at hproper
    refine ⟨by omega, ?_⟩
    rw [gaps, List.map_cons, List.map_cons, interleave, htrim, hrest, hself,
      Span.cut_append_cut (by omega) hspan, Span.cut_append_cut (by omega) (by omega)]

end Chain

/-! ## Connectors -/

/-- The last character before the point of an arrow. -/
theorem Arrow.Spelling.eq_append_shaft {a : Text} (h : Spelling a) :
    ∃ shaft c, a = shaft ++ [c] ++ ['>'] ∧ (c = '-' ∨ c = '=' ∨ c = '.') := by
  obtain ⟨shaft, rfl, hpoint⟩ := h.eq_append_point
  rcases List.eq_nil_or_concat shaft with rfl | ⟨front, c, rfl⟩
  · obtain ⟨d, ds, heq, hd⟩ := h.head
    cases heq
    rcases hd with hd | hd <;> cases hd
  · rw [List.concat_eq_append] at h hpoint ⊢
    refine ⟨front, c, rfl, ?_⟩
    rcases h.mem (List.mem_append_left _ (List.mem_append_right front List.mem_cons_self)) with e
      | e | e | e
    · exact .inl e
    · exact .inr (.inl e)
    · exact .inr (.inr e)
    · exact absurd (List.mem_append_right front (e ▸ List.mem_cons_self)) hpoint

namespace Connector

variable {t rest : Text} {k : Connector}

theorem stops_of_read? (h : read? t = some (k, rest)) : Text.Stops Text.isBlank rest := by
  simp only [read?, Option.bind_eq_bind, Option.bind_eq_some_iff, Prod.exists, Option.pure_def,
    Option.some.injEq, Prod.mk.injEq] at h
  obtain ⟨arrow, r, -, -, rfl⟩ := h
  intro c hc
  have hnot := List.head?_dropWhile_not Text.isBlank (readLabel r).2
  rw [Text.trimLeft] at hc
  simpa [Option.mem_def.1 hc] using hnot

/-- A connector ends in a blank, in the bar behind its label, or in the point of its arrow. -/
theorem exists_written_eq (h : read? t = some (k, rest)) :
    ∃ front c, k.written = front ++ [c] ∧ (Text.isBlank c = true ∨ c = '|' ∨
      c = '>' ∧ ∃ front' d, front = front' ++ [d] ∧ (d = '-' ∨ d = '=' ∨ d = '.')) := by
  simp only [read?, Option.bind_eq_bind, Option.bind_eq_some_iff, Prod.exists, Option.pure_def,
    Option.some.injEq, Prod.mk.injEq] at h
  obtain ⟨arrow, r, harrow, rfl, -⟩ := h
  rcases List.eq_nil_or_concat (Text.blanks (readLabel r).2) with hspace | ⟨front, c, hspace⟩
  · cases hlabel : (readLabel r).1 with
    | some l =>
      refine ⟨Text.blanks t ++ arrow ++ (l.gap ++ ['|'] ++ l.text), '|', ?_, .inr (.inl rfl)⟩
      simp [written, labelPart, hspace, EdgeLabel.written]
    | none =>
      obtain ⟨shaft, d, rfl, hd⟩ := (Arrow.spelling_of_read? harrow).eq_append_shaft
      refine ⟨Text.blanks t ++ (shaft ++ [d]), '>', ?_,
        .inr (.inr ⟨rfl, Text.blanks t ++ shaft, d, ?_, hd⟩)⟩
      · simp [written, labelPart, hspace]
      · simp
  · refine ⟨Text.blanks t ++ arrow ++ labelPart ⟨Text.blanks t, arrow, (readLabel r).1, []⟩ ++
      front, c, ?_, .inl ?_⟩
    · simp [written, labelPart, hspace]
    · apply Text.isBlank_of_mem_blanks (t := (readLabel r).2)
      rw [hspace, List.concat_eq_append]
      exact List.mem_append_right front List.mem_cons_self

theorem not_isQuiet_of_read? {c : Char} {t : Text} (h : read? (c :: t) = some (k, rest)) :
    isQuiet c = false := by
  rw [Bool.eq_false_iff]
  intro hquiet
  rw [read?_of_isQuiet hquiet] at h
  cases h

theorem read?_cons_of_isBlank {c : Char} (hc : Text.isBlank c = true)
    (h : read? t = some (k, rest)) : read? (c :: t) ≠ none := by
  simp only [read?, Option.bind_eq_bind, Option.bind_eq_some_iff, Prod.exists, Option.pure_def,
    Option.some.injEq, Prod.mk.injEq] at h
  obtain ⟨arrow, r, harrow, -, -⟩ := h
  have htrim : Text.trimLeft (c :: t) = Text.trimLeft t := by simp [Text.trimLeft, hc]
  simp [read?, htrim, harrow]

end Connector

namespace Chain

/-- No blank stands directly before a span, unless the span before ends there. -/
def Clear (masked : Text) : Nat → List Span → Prop
  | _, [] => True
  | p, s :: rest =>
    (p < s.start → ∀ c, masked[s.start - 1]? = some c → Text.isBlank c = false) ∧
      Clear masked s.stop rest

theorem Clear.mono {masked : Text} {p q : Nat} {spans : List Span} (h : Clear masked p spans)
    (hpq : p ≤ q) : Clear masked q spans := by
  cases spans with
  | nil => trivial
  | cons s rest => exact ⟨fun hq => h.1 (Nat.lt_of_le_of_lt hpq hq), h.2⟩

variable {masked : Text}

/-- What is read where a connector is found. -/
def connectorWidth (t : Text) : Option (Nat × Nat) :=
  (Connector.read? t).map fun (k, _) => (k.written.length, k.written.length)

theorem width_of_connectorWidth {t : Text} {found : Nat × Nat} (h : connectorWidth t = some found) :
    1 ≤ found.1 ∧ found.2 = found.1 := by
  obtain ⟨k, hread, rfl⟩ := Option.map_eq_some_iff.1 h
  obtain ⟨written, d, heq, -⟩ := Connector.exists_written_eq hread
  simp [heq]

theorem not_isBlank_of_connectorWidth {c : Char} {cs : Text} {found : Nat × Nat}
    (hnone : connectorWidth (c :: cs) = none) (h : connectorWidth cs = some found) :
    Text.isBlank c = false := by
  rw [Bool.eq_false_iff]
  intro hblank
  obtain ⟨⟨k, after⟩, hk, -⟩ := Option.map_eq_some_iff.1 h
  obtain ⟨taken, htaken⟩ := Option.ne_none_iff_exists'.1 (Connector.read?_cons_of_isBlank hblank hk)
  rw [connectorWidth, htaken] at hnone
  cases hnone

theorem clear_occurrencesFrom (t front : Text) (before : Option Char) (skip : Nat) :
    Clear (front ++ t) (front.length + skip)
      ((Text.occurrencesFrom (fun _ t => connectorWidth t) before skip front.length t).map
        fun found => ⟨found.1, found.1 + found.2⟩) := by
  induction t generalizing front before skip with
  | nil => trivial
  | cons c cs ih =>
    have hlater := fun skip => ih (front ++ [c]) (some c) skip
    simp only [List.length_append, List.length_singleton, List.append_assoc,
      List.singleton_append] at hlater
    cases skip with
    | succ k =>
      have hk := hlater k
      rw [Nat.add_assoc, Nat.add_comm 1] at hk
      exact hk
    | zero =>
      rw [Text.occurrencesFrom]
      cases hread : connectorWidth (c :: cs) with
      | some found =>
        have hwidth := width_of_connectorWidth hread
        have hrest := hlater (found.2 - 1)
        have hskip : front.length + 1 + (found.2 - 1) = front.length + found.1 := by omega
        rw [hskip] at hrest
        exact ⟨fun h => absurd h (Nat.lt_irrefl _), hrest⟩
      | none =>
        have hrest := hlater 0
        simp only [Nat.add_zero] at hrest ⊢
        cases hfound : Text.occurrencesFrom (fun _ t => connectorWidth t) (some c) 0
          (front.length + 1) cs with
        | nil => trivial
        | cons found more =>
          rw [hfound] at hrest
          refine ⟨fun _ d hd => ?_, hrest.2⟩
          have hmem : found ∈ Text.occurrencesFrom (fun _ t => connectorWidth t) (some c) 0
              (front.length + 1) cs := by
            rw [hfound]
            exact List.mem_cons_self
          obtain ⟨between, rest, width, rfl, hoffset, hhere⟩ := Text.mem_occurrencesFrom hmem
          cases between with
          | nil =>
            -- the connector starts directly behind `c`
            dsimp only at hd
            rw [hoffset] at hd
            simp at hd
            subst hd
            exact not_isBlank_of_connectorWidth hread hhere
          | cons e es =>
            refine hrest.1 ?_ d hd
            dsimp only
            rw [hoffset, List.length_cons]
            omega

theorem clear_connectorSpans (masked : Text) : Clear masked 0 (connectorSpans masked) :=
  clear_occurrencesFrom masked [] none 0

theorem exists_of_mem_connectorSpans {s : Span} (h : s ∈ connectorSpans masked) :
    ∃ front k after, masked = front ++ (k.written ++ after) ∧
      Connector.read? (k.written ++ after) = some (k, after) ∧
        s = ⟨front.length, front.length + k.written.length⟩ := by
  obtain ⟨found, hfound, rfl⟩ := List.mem_map.1 h
  obtain ⟨front, rest, width, rfl, hoffset, hread⟩ := Text.mem_occurrencesFrom hfound
  obtain ⟨⟨k, after⟩, hk, hwidth⟩ := Option.map_eq_some_iff.1 hread
  have hrest := Connector.eq_of_read? hk
  rw [hrest] at hk
  rw [Prod.mk.injEq] at hwidth
  refine ⟨front, k, after, by rw [hrest], hk, ?_⟩
  simp only [hoffset, ← hwidth.1, Nat.zero_add]

end Chain

/-! ## Filled labels -/

namespace Bracket

theorem isQuiet_head_closer {b : Bracket} {c : Char} {cs : Text} (h : b.closer = c :: cs) :
    Connector.isQuiet c = true ∧ c ≠ ' ' := by
  obtain ⟨d, ds, heq, hd⟩ := b.head_closer
  rw [heq] at h
  cases h
  rcases hd with rfl | rfl | rfl | rfl | rfl <;> decide

theorem exists_opener_eq (b : Bracket) :
    ∃ front c, b.opener = front ++ [c] ∧ Text.isBlank c = false ∧ c ≠ '|' ∧
      (c = '>' → front = []) := by
  cases b
  all_goals
    first
    | exact ⟨[], _, rfl, by decide, by decide, fun _ => rfl⟩
    | exact ⟨[_], _, rfl, by decide, by decide, fun h => absurd h (by decide)⟩

end Bracket

namespace Line

variable {l : Line} {i : Nat} {c d : Char}

theorem getElem?_maskLabels (l : Line) (i : Nat) : (maskLabels l)[i]? =
    l[i]?.map fun c =>
      if ((declarations l).map (·.labelSpan)).any (·.contains i) then '\x00' else c :=
  Text.getElem?_hide ..

/-- What is filled belongs to a label that stands between its brackets, behind its name. -/
theorem exists_of_filled (hc : l[i]? = some c) (hd : (maskLabels l)[i]? = some d) (hne : c ≠ d) :
    ∃ x ∈ declarations l, x.labelStart ≤ i ∧ i < x.labelStop ∧ ∃ front back label,
      maskEdgeLabels l = front ++ (x.id ++ x.bracket.opener ++ label ++ x.bracket.closer ++ back) ∧
      x.labelStart = (front ++ (x.id ++ x.bracket.opener)).length ∧
      x.labelStop = (front ++ (x.id ++ x.bracket.opener ++ label)).length ∧
      Identifier.valid x.id = true := by
  rw [getElem?_maskLabels, hc, Option.map_some, Option.some.injEq] at hd
  split at hd
  · next hany =>
    obtain ⟨span, hspan, hcontains⟩ := List.any_eq_true.1 hany
    obtain ⟨x, hx, rfl⟩ := List.mem_map.1 hspan
    simp only [Span.contains, Bool.and_eq_true, decide_eq_true_eq] at hcontains
    refine ⟨x, hx, hcontains.1, hcontains.2, ?_⟩
    obtain ⟨-, read, hread, -, rfl⟩ := mem_declarations.1 hx
    have hspan := Declaration.labelSpan_withLabelOf (labelStop_le_of_mem_readFrom hread)
    obtain ⟨front, back, hat, hstart, -⟩ := Declaration.exists_readAt hread
    rw [Nat.zero_add] at hstart
    refine ⟨front, back, read.label, ?_, ?_, ?_, hat.valid⟩
    · rw [hat.split]
      simp [Declaration.written, Declaration.withLabelOf]
    · simp [Declaration.labelStart, Declaration.openerStart, Declaration.withLabelOf, hstart,
        Nat.add_assoc]
    · have hstop : (read.withLabelOf l).labelStop = read.labelStop := congrArg Span.stop hspan
      rw [hstop]
      simp [Declaration.labelStop, Declaration.labelStart, Declaration.openerStart,
        Declaration.withLabelOf, hstart, Nat.add_assoc]
  · exact absurd hd hne

theorem getElem?_of_maskEdgeLabels (h : (maskEdgeLabels l)[i]? = some c) (hne : c ≠ ' ') :
    l[i]? = some c := by
  rw [maskEdgeLabels, Text.getElem?_hide, Option.map_eq_some_iff] at h
  obtain ⟨d, hd, heq⟩ := h
  split at heq
  · exact absurd heq.symm hne
  · rw [hd, heq]

theorem maskLabels_of_getElem? (h : l[i]? = some c) :
    (maskLabels l)[i]? = some c ∨ (maskLabels l)[i]? = some '\x00' := by
  rw [getElem?_maskLabels, h, Option.map_some]
  split
  · exact .inr rfl
  · exact .inl rfl

theorem eq_or_eq_nul_of_masked (hc : (maskEdgeLabels l)[i]? = some c) (hne : c ≠ ' ')
    (hd : (maskLabels l)[i]? = some d) : d = c ∨ d = '\x00' := by
  rcases maskLabels_of_getElem? (getElem?_of_maskEdgeLabels hc hne) with h | h
  · exact .inl (Option.some.inj (hd.symm.trans h))
  · exact .inr (Option.some.inj (hd.symm.trans h))

theorem getElem?_filled {x : Declaration} (hx : x ∈ declarations l) (hstart : x.labelStart ≤ i)
    (hstop : i < x.labelStop) (hd : (maskLabels l)[i]? = some d) : d = '\x00' := by
  have hany : ((declarations l).map (·.labelSpan)).any (·.contains i) = true := by
    rw [List.any_eq_true]
    refine ⟨x.labelSpan, List.mem_map_of_mem hx, ?_⟩
    simp only [Span.contains, Bool.and_eq_true, decide_eq_true_eq]
    exact ⟨hstart, hstop⟩
  simp only [getElem?_maskLabels, hany, if_true, Option.map_eq_some_iff] at hd
  obtain ⟨-, -, rfl⟩ := hd
  rfl

/-- Behind a filled character no connector starts: what follows is filled too, or a closer. -/
theorem isQuiet_behind_filled (hc : l[i]? = some c) (hd : (maskLabels l)[i]? = some d)
    (hne : c ≠ d) :
    ∀ e, (maskLabels l)[i + 1]? = some e → Connector.isQuiet e = true := by
  obtain ⟨x, hx, hstart, hstop, front, back, label, heq, -, hlength, -⟩ :=
    exists_of_filled hc hd hne
  intro e he
  rcases Nat.lt_or_ge (i + 1) x.labelStop with hin | hout
  · rw [getElem?_filled hx (Nat.le_succ_of_le hstart) hin he]
    decide
  · have hplace : i + 1 = (front ++ (x.id ++ x.bracket.opener ++ label)).length := by omega
    obtain ⟨f, fs, hcloser, -⟩ := x.bracket.head_closer
    obtain ⟨hquiet, hspace⟩ := Bracket.isQuiet_head_closer hcloser
    have hmasked : (maskEdgeLabels l)[i + 1]? = some f := by
      have hsplit : maskEdgeLabels l =
          front ++ (x.id ++ x.bracket.opener ++ label) ++ (f :: (fs ++ back)) := by
        rw [heq, hcloser]
        simp
      rw [hsplit, Text.getElem?_length_append _ hplace]
      rfl
    rcases eq_or_eq_nul_of_masked hmasked hspace he with rfl | rfl
    · exact hquiet
    · decide

/-- Before a filled character no connector ends: what stands there is filled too, or an opener
behind a name. -/
theorem not_ends_before_filled (hc : l[i]? = some c) (hd : (maskLabels l)[i]? = some d)
    (hne : c ≠ d) :
    ∀ e, (maskLabels l)[i - 1]? = some e → Text.isBlank e = false ∧ e ≠ '|' ∧
      (e = '>' → ∀ f, (maskLabels l)[i - 2]? = some f → f ≠ '-' ∧ f ≠ '=' ∧ f ≠ '.') := by
  obtain ⟨x, hx, hstart, hstop, front, back, label, heq, hlength, -, hvalid⟩ :=
    exists_of_filled hc hd hne
  obtain ⟨opening, o, hopener, hblank, hbar, hpoint⟩ := x.bracket.exists_opener_eq
  have hfirm : ∀ {a : Char}, Text.isBlank a = false → a ≠ ' ' := by
    rintro a hnot rfl
    exact absurd hnot (by decide)
  intro e he
  rcases Nat.lt_or_eq_of_le hstart with hin | hat
  · rw [getElem?_filled hx (by omega) (by omega) he]
    exact ⟨by decide, by decide, fun h => absurd h (by decide)⟩
  · have hplace : i - 1 = (front ++ (x.id ++ opening)).length := by
      rw [← hat, hlength, hopener]
      simp
      omega
    have hmasked : (maskEdgeLabels l)[i - 1]? = some o := by
      have hsplit : maskEdgeLabels l =
          front ++ (x.id ++ opening) ++ (o :: (label ++ (x.bracket.closer ++ back))) := by
        rw [heq, hopener]
        simp
      rw [hsplit, Text.getElem?_length_append _ hplace]
      rfl
    rcases eq_or_eq_nul_of_masked hmasked (hfirm hblank) he with rfl | rfl
    · refine ⟨hblank, hbar, fun hpointed f hf => ?_⟩
      -- a point that opens a label stands directly behind the name
      obtain rfl := hpoint hpointed
      rcases List.eq_nil_or_concat x.id with hnil | ⟨name, z, hname⟩
      · exact absurd hnil (Identifier.ne_nil_of_valid hvalid)
      · rw [List.concat_eq_append] at hname
        have hz : Identifier.isChar z = true :=
          Identifier.isChar_of_valid hvalid z (by simp [hname])
        have hplace' : i - 2 = (front ++ name).length := by
          rw [hname] at hplace
          simp at hplace ⊢
          omega
        have hmasked' : (maskEdgeLabels l)[i - 2]? = some z := by
          have hsplit : maskEdgeLabels l =
              front ++ name ++
                (z :: (x.bracket.opener ++ (label ++ (x.bracket.closer ++ back)))) := by
            rw [heq, hname]
            simp
          rw [hsplit, Text.getElem?_length_append _ hplace']
          rfl
        rcases eq_or_eq_nul_of_masked hmasked' (hfirm (Identifier.not_isBlank_of_isChar hz)) hf
          with rfl | rfl
        · exact ⟨Identifier.ne_of_isChar hz (by decide), Identifier.ne_of_isChar hz (by decide),
            Identifier.ne_of_isChar hz (by decide)⟩
        · decide
    · exact ⟨by decide, by decide, fun h => absurd h (by decide)⟩

end Line

/-! ## Segments -/

namespace Text

theorem not_isBlank_of_head?_trimLeft {t : Text} {c : Char} (h : (trimLeft t).head? = some c) :
    isBlank c = false := by
  have hnot := List.head?_dropWhile_not isBlank t
  rw [trimLeft] at h
  simpa [h] using hnot

theorem length_trimRight_le (t : Text) : (trimRight t).length ≤ t.length := by
  obtain ⟨run, hrun, -⟩ := exists_append_eq_trimRight t
  have hlength := congrArg List.length hrun
  rw [List.length_append] at hlength
  omega

theorem not_isBlank_of_last {t : Text} (h : trimRight t ≠ []) {c : Char}
    (hc : t[(trimRight t).length - 1]? = some c) : isBlank c = false := by
  obtain ⟨run, hrun, -⟩ := exists_append_eq_trimRight t
  have hlength := List.length_pos_iff.2 h
  have hlast := congrArg (fun x => x[(trimRight t).length - 1]?) hrun
  rw [hc, List.getElem?_append_left (by omega)] at hlast
  replace hlast := hlast.symm
  rw [← List.getLast?_eq_getElem?, ← List.head?_reverse, trimRight, List.reverse_reverse] at hlast
  exact not_isBlank_of_head?_trimLeft (t := t.reverse) hlast

end Text

namespace Segment

theorem tokensOf_nil (masked : Text) : tokensOf [] masked = [] := by
  simp [tokensOf, Text.piecesBy, Text.trim, Text.trimLeft, Text.trimRight]

end Segment

namespace Chain

/-- A gap starts where a span ends, and ends where the next one starts, which leaves no blank in
it. -/
theorem ends_of_mem_gaps {masked : Text} {start stop : Nat} {spans : List Span}
    (hclear : Clear masked start spans) {g : Span} (hg : g ∈ gaps start stop spans) :
    (g.start = start ∨ ∃ s ∈ spans, g.start = s.stop) ∧
      (g.stop = stop ∨ (∃ s ∈ spans, g.stop = s.start) ∧
        (g.start < g.stop → ∀ c, masked[g.stop - 1]? = some c → Text.isBlank c = false)) := by
  induction spans generalizing start with
  | nil =>
    obtain rfl := List.mem_singleton.1 hg
    exact ⟨.inl rfl, .inl rfl⟩
  | cons s rest ih =>
    rcases List.mem_cons.1 hg with rfl | hg
    · exact ⟨.inl rfl, .inr ⟨⟨s, List.mem_cons_self, rfl⟩, hclear.1⟩⟩
    · obtain ⟨hstart, hstop⟩ := ih hclear.2 hg
      constructor
      · rcases hstart with h | ⟨s', hs', h⟩
        · exact .inr ⟨s, List.mem_cons_self, h⟩
        · exact .inr ⟨s', List.mem_cons_of_mem s hs', h⟩
      · rcases hstop with h | ⟨⟨s', hs', h⟩, hblank⟩
        · exact .inl h
        · exact .inr ⟨⟨s', List.mem_cons_of_mem s hs', h⟩, hblank⟩

variable {l : Line} {s : Span} {c : Char}

theorem not_isBlank_behind (hs : s ∈ connectorSpans (Line.maskLabels l))
    (hc : l[s.stop]? = some c) : Text.isBlank c = false := by
  obtain ⟨front, k, after, heq, hread, rfl⟩ := exists_of_mem_connectorSpans hs
  obtain ⟨d, hd⟩ : ∃ d, (Line.maskLabels l)[front.length + k.written.length]? = some d :=
    (Line.maskLabels_of_getElem? hc).elim (fun h => ⟨_, h⟩) fun h => ⟨_, h⟩
  have hsplit : Line.maskLabels l = front ++ k.written ++ after := by rw [heq, List.append_assoc]
  have hafter : after.head? = some d := by
    rw [← hd, hsplit]
    exact (Text.getElem?_length_append _ (List.length_append ..).symm).symm
  have hnot : Text.isBlank d = false := Connector.stops_of_read? hread d hafter
  by_cases hcd : c = d
  · rwa [hcd]
  · -- a label would follow the connector at once, but no connector ends like an opener
    exfalso
    obtain ⟨front', e, hwritten, hends⟩ := Connector.exists_written_eq hread
    have hlast : (Line.maskLabels l)[front.length + k.written.length - 1]? = some e := by
      have hshape : Line.maskLabels l = front ++ front' ++ (e :: after) := by
        rw [hsplit, hwritten]
        simp
      rw [hshape, Text.getElem?_length_append _ (by simp [hwritten])]
      rfl
    obtain ⟨hblank, hbar, hpoint⟩ := Line.not_ends_before_filled hc hd hcd e hlast
    rcases hends with h | h | ⟨rfl, front'', f, rfl, hf⟩
    · rw [h] at hblank
      cases hblank
    · exact hbar h
    · have hbefore : (Line.maskLabels l)[front.length + k.written.length - 2]? = some f := by
        have hshape : Line.maskLabels l = front ++ front'' ++ (f :: '>' :: after) := by
          rw [hsplit, hwritten]
          simp
        have hplace : front.length + k.written.length - 2 = (front ++ front'').length := by
          rw [hwritten]
          simp
          omega
        rw [hshape, Text.getElem?_length_append _ hplace]
        rfl
      obtain ⟨hdash, hequal, hdot⟩ := hpoint rfl f hbefore
      rcases hf with h | h | h
      · exact hdash h
      · exact hequal h
      · exact hdot h

theorem not_isBlank_before (hs : s ∈ connectorSpans (Line.maskLabels l)) (hpos : 0 < s.start)
    (hclear : ∀ c, (Line.maskLabels l)[s.start - 1]? = some c → Text.isBlank c = false)
    (hc : l[s.start - 1]? = some c) : Text.isBlank c = false := by
  obtain ⟨d, hd⟩ : ∃ d, (Line.maskLabels l)[s.start - 1]? = some d :=
    (Line.maskLabels_of_getElem? hc).elim (fun h => ⟨_, h⟩) fun h => ⟨_, h⟩
  have hnot := hclear d hd
  by_cases hcd : c = d
  · rwa [hcd]
  · -- a label would end where the connector starts, but no connector starts like a closer
    exfalso
    obtain ⟨front, k, after, heq, hread, rfl⟩ := exists_of_mem_connectorSpans hs
    obtain ⟨written, z, hwritten, -⟩ := Connector.exists_written_eq hread
    obtain ⟨e, es, hes⟩ : ∃ e es, k.written ++ after = e :: es :=
      List.exists_cons_of_ne_nil (by simp [hwritten])
    rw [hes] at heq hread
    have hhere : (Line.maskLabels l)[front.length - 1 + 1]? = some e := by
      rw [heq, Text.getElem?_length_append _ (by dsimp only at hpos; omega)]
      rfl
    have hquiet := Line.isQuiet_behind_filled hc hd hcd e hhere
    rw [Connector.not_isQuiet_of_read? hread] at hquiet
    cases hquiet

/-- Where the segments of a line stand: between its connectors, from its indent to the blanks at its
end. -/
abbrev gapsOf (l : Line) : List Span :=
  gaps (Line.indent l).length (Text.trimRight l).length (connectorSpans (Line.maskLabels l))

theorem start_le_of_mem_connectorSpans (hs : s ∈ connectorSpans (Line.maskLabels l)) :
    s.start ≤ s.stop := by
  obtain ⟨front, k, after, -, -, rfl⟩ := exists_of_mem_connectorSpans hs
  exact Nat.le_add_right _ _

theorem stop_le_of_mem_connectorSpans (hs : s ∈ connectorSpans (Line.maskLabels l)) :
    s.stop ≤ l.length := by
  obtain ⟨front, k, after, heq, -, rfl⟩ := exists_of_mem_connectorSpans hs
  have hlength := congrArg List.length heq
  rw [Line.length_maskLabels, List.length_append, List.length_append] at hlength
  dsimp only
  omega

/-- A gap that holds something lies in the line and begins and ends with no blank. -/
theorem proper_of_mem_gaps {g : Span} (hg : g ∈ gapsOf l) (hne : g.cut l ≠ []) :
    g.start < g.stop ∧ g.stop ≤ l.length ∧ Text.trim (g.cut l) = g.cut l := by
  have hindent : Line.indent l ++ Text.trimLeft l = l := Text.blanks_append_trimLeft l
  have hclear :=
    (clear_connectorSpans (Line.maskLabels l)).mono (Nat.zero_le (Line.indent l).length)
  obtain ⟨hproper, -⟩ := Span.start_lt_of_cut_ne_nil hne
  obtain ⟨hstart, hstop⟩ := ends_of_mem_gaps hclear hg
  have hinside : g.stop ≤ l.length := by
    rcases hstop with hstop | ⟨⟨s, hs, hstop⟩, -⟩
    · rw [hstop]
      exact Text.length_trimRight_le l
    · rw [hstop]
      exact Nat.le_trans (start_le_of_mem_connectorSpans hs) (stop_le_of_mem_connectorSpans hs)
  refine ⟨hproper, hinside, Span.trim_cut ?_ ?_ hproper hinside⟩
  · intro c hc
    rcases hstart with hstart | ⟨s, hs, hstart⟩
    · rw [hstart, ← hindent, Text.getElem?_length_append _ (by rw [hindent])] at hc
      exact Text.not_isBlank_of_head?_trimLeft hc
    · rw [hstart] at hc
      exact not_isBlank_behind hs hc
  · intro c hc
    rcases hstop with hstop | ⟨⟨s, hs, hstop⟩, hbefore⟩
    · rw [hstop] at hc hproper
      apply Text.not_isBlank_of_last ?_ hc
      intro hnil
      rw [hnil] at hproper
      exact absurd hproper (Nat.not_lt_zero _)
    · have hbefore := hbefore hproper
      rw [hstop] at hc hbefore hproper
      exact not_isBlank_before hs (Nat.zero_lt_of_lt hproper) hbefore hc

theorem cut_ne_nil_of_tokens {s : Span} {m : Text} (h : (Segment.ofSpan l m s).tokens ≠ []) :
    s.cut l ≠ [] := by
  intro hnil
  apply h
  rw [Segment.ofSpan, hnil]
  exact Segment.tokensOf_nil (s.cut m)

/-- A line is put together again from its segments and connectors if each of its segments holds
something. -/
theorem interleave_of_chain? {line : Line} {k : Chain} (h : Line.chain? line = some k)
    (hfull : ∀ s ∈ k.segments, s.tokens ≠ []) :
    k.indent ++ interleave (k.segments.map (·.text)) k.connectors = Text.trimRight line := by
  simp only [Line.chain?, Option.ite_none_left_eq_some, Option.some.injEq] at h
  obtain ⟨-, rfl⟩ := h
  obtain ⟨run, hrun, -⟩ := Text.exists_append_eq_trimRight line
  have hindent : Line.indent line ++ Text.trimLeft line = line := Text.blanks_append_trimLeft line
  have hgaps : ∀ g ∈ gapsOf line, g.start < g.stop ∧ Text.trim (g.cut line) = g.cut line := by
    intro g hg
    obtain ⟨hproper, -, htrim⟩ :=
      proper_of_mem_gaps hg (cut_ne_nil_of_tokens (hfull _ (List.mem_map_of_mem hg)))
    exact ⟨hproper, htrim⟩
  obtain ⟨hproper, hrejoined⟩ := interleave_gaps hgaps fun s => start_le_of_mem_connectorSpans
  have htexts : ∀ gs : List Span,
      (gs.map (Segment.ofSpan line (Line.maskLabels line))).map (·.text) =
      gs.map fun g => Text.trim (g.cut line) := by
    intro gs
    rw [List.map_map]
    rfl
  have hfront := Span.cut_front (Line.indent line) (Text.trimLeft line)
  rw [hindent] at hfront
  have hwhole := Span.cut_front (Text.trimRight line) run
  rw [← hrun] at hwhole
  calc Line.indent line ++ interleave _ _
      = (⟨0, (Line.indent line).length⟩ : Span).cut line ++
          (⟨(Line.indent line).length, (Text.trimRight line).length⟩ : Span).cut line := by
        rw [htexts, hrejoined, hfront]
    _ = (⟨0, (Text.trimRight line).length⟩ : Span).cut line :=
        Span.cut_append_cut (Nat.zero_le _) (Nat.le_of_lt hproper)
    _ = Text.trimRight line := hwhole

end Chain

end Chartwright
