import Chartwright.Proofs.Line.DeclaredSpans
import Mathlib.Algebra.GroupWithZero.Nat
/-!
What taking a line apart leaves of it.

The segments, the tokens and the connectors of a line are cut out of it one by one, with arrows and
ampersands looked up on a copy with filled labels. Counted from the lengths of what was cut, each
segment has its columns (`Chain.span`), and these are the columns it was cut from
(`Chain.span_ofLine`). So its tokens can be told from the line and its declarations alone: they are
the pieces between the ampersands outside of labels (`Segment.tokensOf_cut`).

An arrow lies in labels as a whole or not at all (`Line.unlabelled_eq_of_spelling`). Where it does
not, a connector is read that covers it, and no segment reaches into a connector
(`Chain.contains_eq_false_of_mem_gaps`), so none is left in a token.

Main statement: `Chain.takesApart_of_chain?`.
-/
namespace Chartwright

/-! ## Placed characters -/

/-- Characters, each with its column on a line. -/
abbrev Placed := List (Char × Nat)

namespace Placed

def text (p : Placed) : Text := p.map (·.1)

/-- Placed characters without the blanks at both ends. -/
def trim (p : Placed) : Placed :=
  ((p.dropWhile fun c => Text.isBlank c.1).reverse.dropWhile fun c => Text.isBlank c.1).reverse

theorem text_trim (p : Placed) : p.trim.text = Text.trim p.text := by
  have hdrop : ∀ q : Placed, (q.map (·.1)).dropWhile Text.isBlank =
      (q.dropWhile fun c => Text.isBlank c.1).map (·.1) := fun q => List.dropWhile_map ..
  rw [text, text, trim, Text.trim, Text.trimRight, Text.trimLeft, hdrop, ← List.map_reverse, hdrop,
    List.map_reverse]

theorem trim_infix (p : Placed) : p.trim <:+: p := by
  have hback : p.trim <+: p.dropWhile fun c => Text.isBlank c.1 := by
    apply List.reverse_suffix.1
    rw [trim, List.reverse_reverse]
    exact List.dropWhile_suffix _
  exact hback.isInfix.trans (List.dropWhile_suffix _).isInfix

end Placed

namespace Text

variable {α β : Type}

theorem piecesBy_map (f : α → β) (stops : β → Bool) (t : List α) :
    piecesBy stops (t.map f) = (piecesBy (fun c => stops (f c)) t).map (List.map f) := by
  induction t with
  | nil => rfl
  | cons c cs ih =>
    rw [List.map_cons, piecesBy, piecesBy, ih]
    split
    · rfl
    · cases piecesBy (fun c => stops (f c)) cs <;> rfl

theorem prefix_of_piecesBy {stops : α → Bool} {t p : List α} {ps : List (List α)}
    (h : piecesBy stops t = p :: ps) : p <+: t := by
  induction t generalizing p ps with
  | nil =>
    cases h
    exact List.nil_prefix
  | cons c cs ih =>
    rw [piecesBy] at h
    split at h
    · cases h
      exact List.nil_prefix
    · split at h
      · cases h
        exact List.prefix_cons_iff.2 (.inr ⟨[], rfl, List.nil_prefix⟩)
      · next hrest =>
        cases h
        exact List.cons_prefix_cons.2 ⟨rfl, ih hrest⟩

theorem infix_of_mem_piecesBy {stops : α → Bool} {t p : List α} (h : p ∈ piecesBy stops t) :
    p <:+: t := by
  induction t generalizing p with
  | nil =>
    obtain rfl := List.mem_singleton.1 h
    exact List.infix_rfl
  | cons c cs ih =>
    have hlater : ∀ {p}, p ∈ piecesBy stops cs → p <:+: c :: cs :=
      fun hp => (ih hp).trans (List.suffix_cons c cs).isInfix
    -- the first piece is a prefix, or the first piece of the rest with `c` before it
    rw [piecesBy] at h
    split at h
    · rcases List.mem_cons.1 h with rfl | h
      · exact List.nil_infix
      · exact hlater h
    · cases hrest : piecesBy stops cs with
      | nil => exact absurd hrest (piecesBy_ne_nil stops cs)
      | cons q qs =>
        rw [hrest] at h
        rcases List.mem_cons.1 h with rfl | h
        · exact (List.cons_prefix_cons.2 ⟨rfl, prefix_of_piecesBy hrest⟩).isInfix
        · exact hlater (hrest ▸ List.mem_cons_of_mem q h)

end Text

/-! ## Columns of a line -/

namespace Span

theorem getElem?_cut (s : Span) (t : Text) (i : Nat) :
    (s.cut t)[i]? = if s.start + i < s.stop then t[s.start + i]? else none := by
  rw [cut, List.getElem?_drop, List.getElem?_take]

theorem length_cut {s : Span} {t : Text} (h : s.stop ≤ t.length) :
    (s.cut t).length = s.stop - s.start := by
  rw [cut, List.length_drop, List.length_take, Nat.min_eq_left h]

end Span

namespace Line

variable {l : Line} {s : Span} {i : Nat}

/-- The characters of a line in a span. -/
def placed (l : Line) (s : Span) : Placed := (s.cut l).zipIdx s.start

/-- The tokens of a line in a span: the pieces between the ampersands outside of labels, without the
blanks around them, as far as anything is left. -/
def tokensIn (l : Line) (s : Span) : List Placed :=
  ((Text.piecesBy (fun c => c.1 == '&' && unlabelled l c.2) (placed l s)).map Placed.trim).filter
    fun p => !p.isEmpty

theorem zip_cut_maskLabels (l : Line) (s : Span) : (s.cut l).zip (s.cut (maskLabels l)) =
    (placed l s).map fun c => (c.1, if unlabelled l c.2 then c.1 else '\x00') := by
  apply List.ext_getElem?
  intro i
  rw [List.zip, List.getElem?_zipWith, Span.getElem?_cut, Span.getElem?_cut,
    List.getElem?_map, placed, List.getElem?_zipIdx, Span.getElem?_cut, getElem?_maskLabels_eq]
  by_cases hi : s.start + i < s.stop
  · simp only [if_pos hi]
    cases l[s.start + i]? <;> rfl
  · simp only [if_neg hi]
    rfl

end Line

theorem Segment.tokensOf_cut (l : Line) (s : Span) :
    tokensOf (s.cut l) (s.cut (Line.maskLabels l)) = (Line.tokensIn l s).map Placed.text := by
  have hstops : (fun c : Char × Nat => (if Line.unlabelled l c.2 then c.1 else '\x00') == '&') =
      fun c => c.1 == '&' && Line.unlabelled l c.2 := by
    funext c
    cases Line.unlabelled l c.2
    · rw [Bool.and_false]
      rfl
    · rw [Bool.and_true]
      rfl
  have hpiece : ((fun piece : List (Char × Char) => Text.trim (piece.map (·.1))) ∘
      List.map fun c : Char × Nat => (c.1, if Line.unlabelled l c.2 then c.1 else '\x00')) =
      Placed.text ∘ Placed.trim := by
    funext p
    rw [Function.comp_apply, Function.comp_apply, Placed.text_trim, List.map_map]
    rfl
  have hempty : ((fun token : Text => !token.isEmpty) ∘ Placed.text) = fun p => !p.isEmpty := by
    funext p
    rw [Function.comp_apply, Placed.text, List.isEmpty_map]
  rw [tokensOf, Line.zip_cut_maskLabels, Text.piecesBy_map, hstops, List.map_map, hpiece,
    ← List.map_map, List.filter_map, hempty, Line.tokensIn]

/-! ## Arrows and labels -/

namespace Bracket

theorem not_shaft_of_mem_opener {b : Bracket} {c : Char} (h : c ∈ b.opener) :
    c ≠ '-' ∧ c ≠ '=' ∧ c ≠ '.' := by
  have hall : (b.opener.all fun c => c != '-' && c != '=' && c != '.') = true := by
    cases b <;> decide
  simpa [and_assoc] using List.all_eq_true.1 hall c h

theorem not_arrow_of_mem_closer {b : Bracket} {c : Char} (h : c ∈ b.closer) :
    c ∉ ['-', '=', '.', '>'] := by
  have hall : (b.closer.all fun c => !(['-', '=', '.', '>'].contains c)) = true := by
    cases b <;> decide
  simpa using List.all_eq_true.1 hall c h

end Bracket

namespace Line

variable {l : Line} {s : Span} {i n : Nat} {a : Placed}

/-- What stands in a row on a line, from a column on. -/
def InRow (l : Line) (n : Nat) (a : Placed) : Prop :=
  ∀ j c, a[j]? = some c → c.2 = n + j ∧ l[c.2]? = some c.1

/-- A part of the characters in a span stands in a row there. -/
theorem exists_inRow_of_infix (h : a <:+: placed l s) :
    ∃ n, InRow l n a ∧ ∀ c ∈ a, s.contains c.2 = true := by
  obtain ⟨x, y, hxy⟩ := h
  have hcolumn : ∀ j c, a[j]? = some c →
      c.2 = s.start + x.length + j ∧ l[c.2]? = some c.1 ∧ s.contains c.2 = true := by
    intro j c hc
    have hj : j < a.length := (List.getElem?_eq_some_iff.1 hc).1
    have hplaced : (placed l s)[x.length + j]? = some c := by
      rw [← hxy, List.append_assoc, List.getElem?_append_right (Nat.le_add_right _ _),
        Nat.add_sub_cancel_left, List.getElem?_append_left hj, hc]
    rw [placed, List.getElem?_zipIdx, Span.getElem?_cut] at hplaced
    obtain ⟨d, hd, rfl⟩ := Option.map_eq_some_iff.1 hplaced
    rw [Option.ite_none_right_eq_some] at hd
    refine ⟨(Nat.add_assoc ..).symm, hd.2, ?_⟩
    simp only [Span.contains, Nat.le_add_right, hd.1, decide_true, Bool.and_self]
  refine ⟨s.start + x.length, fun j c hc => ⟨(hcolumn j c hc).1, (hcolumn j c hc).2.1⟩,
    fun c hc => ?_⟩
  obtain ⟨j, hj⟩ := List.mem_iff_getElem?.1 hc
  exact (hcolumn j c hj).2.2

/-- An opener ends in no character of a shaft, and a closer begins with no character of an arrow, so
no label begins or ends between two characters of an arrow. -/
theorem contains_labelSpan_succ {x : Declaration} {c d : Char} (hx : x ∈ declarations l)
    (hc : l[i]? = some c) (hd : l[i + 1]? = some d) (hshaft : c = '-' ∨ c = '=' ∨ c = '.')
    (harrow : d ∈ ['-', '=', '.', '>']) :
    x.labelSpan.contains (i + 1) = x.labelSpan.contains i := by
  obtain ⟨hopener, hcloser⟩ := x.bracket.length_pos
  have hparts := x.parts_le
  cases hhere : x.labelSpan.contains i with
  | true =>
    refine Bool.of_not_eq_false fun hnext => ?_
    have hin := Declaration.contains_labelSpan.1 hhere
    have hout := Bool.eq_false_iff.1 hnext
    rw [ne_eq, Declaration.contains_labelSpan] at hout
    rcases mem_of_bracketSpan hx (contains_bracketSpan.2 (by omega)) hnext hd with ⟨hbefore, -⟩
      | ⟨-, hmem⟩
    · omega
    · exact Bracket.not_arrow_of_mem_closer hmem harrow
  | false =>
    refine Bool.eq_false_iff.2 fun hnext => ?_
    have hin := Declaration.contains_labelSpan.1 hnext
    have hout := Bool.eq_false_iff.1 hhere
    rw [ne_eq, Declaration.contains_labelSpan] at hout
    rcases mem_of_bracketSpan hx (contains_bracketSpan.2 (by omega)) hhere hc with ⟨-, hmem⟩
      | ⟨hbehind, -⟩
    · obtain ⟨hdash, hequal, hdot⟩ := Bracket.not_shaft_of_mem_opener hmem
      rcases hshaft with h | h | h
      · exact hdash h
      · exact hequal h
      · exact hdot h
    · omega

theorem unlabelled_succ {c d : Char} (hc : l[i]? = some c) (hd : l[i + 1]? = some d)
    (hshaft : c = '-' ∨ c = '=' ∨ c = '.') (harrow : d ∈ ['-', '=', '.', '>']) :
    unlabelled l (i + 1) = unlabelled l i := by
  rw [Bool.eq_iff_iff, unlabelled_iff, unlabelled_iff]
  apply forall₂_congr
  intro x hx
  rw [contains_labelSpan_succ hx hc hd hshaft harrow]

/-- An arrow lies in labels as a whole or not at all. -/
theorem unlabelled_eq_of_spelling (hrow : InRow l n a) (h : Arrow.Spelling a.text) :
    ∀ j < a.length, unlabelled l (n + j) = unlabelled l n := by
  obtain ⟨shaft, hshaft, hpoint⟩ := h.eq_append_point
  have hlength : a.length = shaft.length + 1 := by
    have htext := congrArg List.length hshaft
    rwa [Placed.text, List.length_map, List.length_append] at htext
  intro j
  induction j with
  | zero => exact fun _ => rfl
  | succ j ih =>
    intro hj
    have hhere := List.getElem?_eq_getElem (Nat.lt_of_succ_lt hj)
    have hnext := List.getElem?_eq_getElem hj
    obtain ⟨hcolumn, hchar⟩ := hrow j _ hhere
    obtain ⟨hcolumn', hchar'⟩ := hrow (j + 1) _ hnext
    rw [hcolumn] at hchar
    rw [hcolumn'] at hchar'
    have hmem : a[j].1 ∈ shaft := by
      have htext : a.text[j]? = some a[j].1 := by rw [Placed.text, List.getElem?_map, hhere]; rfl
      rw [hshaft, List.getElem?_append_left (by omega)] at htext
      exact List.mem_of_getElem? htext
    have hbefore : a[j].1 = '-' ∨ a[j].1 = '=' ∨ a[j].1 = '.' := by
      rcases h.mem (hshaft ▸ List.mem_append_left _ hmem) with e | e | e | e
      · exact .inl e
      · exact .inr (.inl e)
      · exact .inr (.inr e)
      · exact absurd (e ▸ hmem) hpoint
    have harrow : a[j + 1].1 ∈ ['-', '=', '.', '>'] := by
      have hin := h.mem (List.mem_map_of_mem (List.getElem_mem hj))
      simpa using hin
    calc unlabelled l (n + (j + 1)) = unlabelled l (n + j) :=
      unlabelled_succ hchar hchar' hbefore harrow
      _ = unlabelled l n := ih (Nat.lt_of_succ_lt hj)

/-- So an arrow outside of labels is seen on the line with filled labels. -/
theorem exists_shown_of_spelling (hrow : InRow l n a) (h : Arrow.Spelling a.text)
    (hn : unlabelled l n = true) :
    ∃ front back, maskLabels l = front ++ (a.text ++ back) ∧ front.length = n := by
  have hshown : ∀ j < a.text.length, (maskLabels l)[n + j]? = a.text[j]? := by
    intro j hj
    rw [Placed.text, List.length_map] at hj
    obtain ⟨hcolumn, hchar⟩ := hrow j _ (List.getElem?_eq_getElem hj)
    rw [hcolumn] at hchar
    rw [getElem?_maskLabels_eq, unlabelled_eq_of_spelling hrow h j hj, hn, hchar, Placed.text,
      List.getElem?_map, List.getElem?_eq_getElem hj]
    rfl
  have hlength : n ≤ (maskLabels l).length := by
    obtain ⟨c, cs, hspelled, -⟩ := h.head
    have hfirst := hshown 0 (by rw [hspelled]; exact Nat.succ_pos _)
    rw [hspelled, List.getElem?_cons_zero] at hfirst
    exact Nat.le_of_lt (List.getElem?_eq_some_iff.1 hfirst).1
  refine ⟨_, _, Text.eq_append_of_getElem? hshown, ?_⟩
  rw [List.length_take, Nat.min_eq_left hlength]

end Line

/-! ## Segments and connectors -/

namespace Connector

theorem isSome_spanAt_of_spelling {arrow : Text} (h : Arrow.Spelling arrow) (rest : Text) :
    (spanAt (arrow ++ rest)).isSome = true := by
  obtain ⟨c, cs, hspelled, hc⟩ := h.head
  have htrim : Text.trimLeft (arrow ++ rest) = arrow ++ rest := by
    apply Text.trimLeft_of_stops
    rw [hspelled]
    apply Text.stops_cons.2
    rcases hc with rfl | rfl <;> decide
  rw [spanAt, Option.isSome_map, read?, htrim, h.read?_append]
  rfl

theorem eq_of_spanAt (t : Text) (found : Span × Nat) (h : spanAt t = some found) :
    found.1 = ⟨0, found.2⟩ ∧ 0 < found.2 := by
  obtain ⟨⟨k, rest⟩, hread, rfl⟩ := Option.map_eq_some_iff.1 h
  exact ⟨rfl, List.length_pos_iff.2 (Chain.written_ne_nil_of_read? hread)⟩

end Connector

namespace Chain

variable {l m : Text} {c : Chain} {start stop i : Nat} {spans : List Span} {g s : Span}

theorem exists_connectorSpan {arrow : Text} (h : Arrow.Spelling arrow) (front back : Text) :
    ∃ s ∈ connectorSpans (front ++ (arrow ++ back)), s.contains front.length = true := by
  obtain ⟨d, ds, hspelled, -⟩ := h.head
  rw [Connector.spans_eq]
  refine Text.exists_mem_spansOf Connector.eq_of_spanAt front ?_
    (Connector.isSome_spanAt_of_spelling h back)
  rw [hspelled]
  exact List.cons_ne_nil _ _

theorem pairwise_connectorSpans (m : Text) :
    (connectorSpans m).Pairwise fun s s' => s.stop ≤ s'.start := by
  rw [Connector.spans_eq]
  refine Text.pairwise_spansOf (fun t found h => ?_) m
  exact Nat.le_of_eq (congrArg Span.stop (Connector.eq_of_spanAt t found h).1)

theorem le_start_of_mem_gaps (hproper : ∀ s ∈ spans, s.start ≤ s.stop)
    (hpairs : spans.Pairwise fun s s' => s.stop ≤ s'.start) (hstart : ∀ s ∈ spans, start ≤ s.start)
    (hg : g ∈ gaps start stop spans) : start ≤ g.start := by
  induction spans generalizing start with
  | nil =>
    obtain rfl := List.mem_singleton.1 hg
    exact Nat.le_refl _
  | cons s rest ih =>
    obtain ⟨hbehind, hrest⟩ := List.pairwise_cons.1 hpairs
    rcases List.mem_cons.1 hg with rfl | hg
    · exact Nat.le_refl _
    · calc start ≤ s.start := hstart s List.mem_cons_self
        _ ≤ s.stop := hproper s List.mem_cons_self
        _ ≤ g.start := ih (fun s' hs' => hproper s' (List.mem_cons_of_mem s hs')) hrest hbehind hg

/-- No gap reaches into a span. -/
theorem contains_eq_false_of_mem_gaps (hproper : ∀ s ∈ spans, s.start ≤ s.stop)
    (hpairs : spans.Pairwise fun s s' => s.stop ≤ s'.start) (hg : g ∈ gaps start stop spans)
    (hi : g.contains i = true) (hs : s ∈ spans) : s.contains i = false := by
  induction spans generalizing start with
  | nil => cases hs
  | cons s' rest ih =>
    obtain ⟨hbehind, hrest⟩ := List.pairwise_cons.1 hpairs
    have hproper' : ∀ s ∈ rest, s.start ≤ s.stop :=
      fun s hs => hproper s (List.mem_cons_of_mem s' hs)
    have hfirst := hproper s' List.mem_cons_self
    simp only [Span.contains, Bool.and_eq_true, decide_eq_true_eq] at hi
    simp only [Span.contains, Bool.and_eq_false_iff, decide_eq_false_iff_not]
    rcases List.mem_cons.1 hg with rfl | hg
    · dsimp only at hi
      rcases List.mem_cons.1 hs with rfl | hs
      · omega
      · have hle := hbehind s hs
        omega
    · rcases List.mem_cons.1 hs with rfl | hs
      · have hle := le_start_of_mem_gaps hproper' hrest hbehind hg
        omega
      · have hout := ih hproper' hrest hg hs
        simpa only [Span.contains, Bool.and_eq_false_iff, decide_eq_false_iff_not] using hout

/-- Gaps and spans, counted one after the other. -/
theorem start_add_sum_gaps (hproper : ∀ s ∈ spans, s.start ≤ s.stop)
    (hgaps : ∀ g ∈ gaps start stop spans, g.start ≤ g.stop)
    (hg : (gaps start stop spans)[i]? = some g) :
    start + (((gaps start stop spans).take i).map fun g => g.stop - g.start).sum +
      ((spans.take i).map fun s => s.stop - s.start).sum = g.start := by
  induction spans generalizing start i with
  | nil =>
    cases i with
    | zero =>
      cases hg
      rfl
    | succ i => cases hg
  | cons s rest ih =>
    cases i with
    | zero =>
      cases hg
      rfl
    | succ i =>
      have hrest := ih (fun s' hs' => hproper s' (List.mem_cons_of_mem s hs'))
        (fun g hg => hgaps g (List.mem_cons_of_mem _ hg)) hg
      have hfirst : start ≤ s.start := hgaps _ List.mem_cons_self
      have hspan := hproper s List.mem_cons_self
      simp only [gaps, List.take_succ_cons, List.map_cons, List.sum_cons]
      omega

/-- The column at which a segment starts, behind the indent and the segments and connectors before
it. -/
def offset (c : Chain) (i : Nat) : Nat :=
  c.indent.length + ((c.segments.take i).map (·.text.length)).sum +
    ((c.connectors.take i).map List.length).sum

/-- The columns of the segment `s` with the index `i`. -/
def span (c : Chain) (i : Nat) (s : Segment) : Span := ⟨c.offset i, c.offset i + s.text.length⟩

/-- A chain holds all of a line, up to the blanks at its end. -/
structure TakesApart (l : Line) (c : Chain) : Prop where
  length : c.segments.length = c.connectors.length + 1
  rejoined : c.indent ++ interleave (c.segments.map (·.text)) c.connectors = Text.trimRight l
  cut : ∀ i s, c.segments[i]? = some s → (c.span i s).cut l = s.text
  tokens : ∀ i s, c.segments[i]? = some s →
      s.tokens = (Line.tokensIn l (c.span i s)).map Placed.text
  /-- An arrow in a token lies in labels. -/
  labelled : ∀ i s, c.segments[i]? = some s → ∀ token ∈ Line.tokensIn l (c.span i s), ∀ a : Placed,
    a <:+: token → Arrow.Spelling a.text → ∀ x ∈ a, Line.unlabelled l x.2 = false

/-- All parts of a line, whether or not there is a connector. -/
def ofLine (l : Line) : Chain where
  indent := Line.indent l
  segments := (gapsOf l).map (Segment.ofSpan l (Line.maskLabels l))
  connectors := (connectorSpans (Line.maskLabels l)).map (·.cut l)

theorem eq_ofLine (h : Line.chain? l = some c) : c = ofLine l := by
  simp only [Line.chain?, Option.ite_none_left_eq_some, Option.some.injEq] at h
  exact h.2.symm

section Full

variable (hfull : ∀ s ∈ (ofLine l).segments, s.tokens ≠ [])
include hfull

theorem proper_of_full (hg : g ∈ gapsOf l) :
    g.start < g.stop ∧ g.stop ≤ l.length ∧ Text.trim (g.cut l) = g.cut l :=
  proper_of_mem_gaps hg (cut_ne_nil_of_tokens (hfull _ (List.mem_map_of_mem hg)))

theorem length_text_of_full (hg : g ∈ gapsOf l) :
    (Segment.ofSpan l (Line.maskLabels l) g).text.length = g.stop - g.start := by
  obtain ⟨-, hinside, htrim⟩ := proper_of_full hfull hg
  rw [Segment.ofSpan, htrim, Span.length_cut hinside]

theorem offset_ofLine (hg : (gapsOf l)[i]? = some g) : (ofLine l).offset i = g.start := by
  have hsegments : ((ofLine l).segments.take i).map (·.text.length) =
      ((gapsOf l).take i).map fun g => g.stop - g.start := by
    rw [ofLine, ← List.map_take, List.map_map]
    exact List.map_congr_left fun g hg => length_text_of_full hfull (List.mem_of_mem_take hg)
  have hconnectors : ((ofLine l).connectors.take i).map List.length =
      ((connectorSpans (Line.maskLabels l)).take i).map fun s => s.stop - s.start := by
    rw [ofLine, ← List.map_take, List.map_map]
    exact List.map_congr_left fun s hs =>
      Span.length_cut (stop_le_of_mem_connectorSpans (List.mem_of_mem_take hs))
  have hgaps : ∀ g ∈ gapsOf l, g.start ≤ g.stop :=
    fun g hg => Nat.le_of_lt (proper_of_full hfull hg).1
  rw [offset, hsegments, hconnectors]
  exact start_add_sum_gaps (fun s => start_le_of_mem_connectorSpans) hgaps hg

/-- The columns of a segment are those it was cut from. -/
theorem span_ofLine (hg : (gapsOf l)[i]? = some g) :
    (ofLine l).span i (Segment.ofSpan l (Line.maskLabels l) g) = g := by
  have hmem := List.mem_of_getElem? hg
  rw [span, offset_ofLine hfull hg, length_text_of_full hfull hmem,
    Nat.add_sub_cancel' (Nat.le_of_lt (proper_of_full hfull hmem).1)]

theorem exists_gap {s : Segment} (hs : (ofLine l).segments[i]? = some s) :
    (ofLine l).span i s ∈ gapsOf l ∧
      s = Segment.ofSpan l (Line.maskLabels l) ((ofLine l).span i s) ∧
        s.text = ((ofLine l).span i s).cut l := by
  rw [ofLine, List.getElem?_map] at hs
  obtain ⟨g, hg, rfl⟩ := Option.map_eq_some_iff.1 hs
  have hmem := List.mem_of_getElem? hg
  rw [span_ofLine hfull hg]
  exact ⟨hmem, rfl, (proper_of_full hfull hmem).2.2⟩

end Full

/-- An arrow in a gap lies in labels. -/
theorem labelled_of_mem_gaps (hg : g ∈ gapsOf l) {a : Placed} (ha : a <:+: Line.placed l g)
    (h : Arrow.Spelling a.text) : ∀ x ∈ a, Line.unlabelled l x.2 = false := by
  obtain ⟨n, hrow, hin⟩ := Line.exists_inRow_of_infix ha
  intro x hx
  refine Bool.eq_false_iff.2 fun hshown => ?_
  obtain ⟨j, hj⟩ := List.mem_iff_getElem?.1 hx
  have hlt : j < a.length := (List.getElem?_eq_some_iff.1 hj).1
  rw [(hrow j x hj).1, Line.unlabelled_eq_of_spelling hrow h j hlt] at hshown
  obtain ⟨front, back, hmask, rfl⟩ := Line.exists_shown_of_spelling hrow h hshown
  obtain ⟨s, hs, hcovers⟩ := exists_connectorSpan h front back
  -- the first character of the arrow would be in the gap and in a connector
  have hfirst := List.getElem?_eq_getElem (Nat.zero_lt_of_lt hlt)
  have hcontains := hin _ (List.mem_of_getElem? hfirst)
  rw [(hrow 0 _ hfirst).1, Nat.add_zero] at hcontains
  rw [← hmask] at hs
  rw [contains_eq_false_of_mem_gaps (fun s => start_le_of_mem_connectorSpans)
      (pairwise_connectorSpans _) hg hcontains hs]
    at hcovers
  cases hcovers

theorem takesApart_of_chain? (h : Line.chain? l = some c)
    (hfull : ∀ s ∈ c.segments, s.tokens ≠ []) : TakesApart l c := by
  have hlength := length_segments h
  have hrejoined := interleave_of_chain? h hfull
  obtain rfl := eq_ofLine h
  constructor
  case length => exact hlength
  case rejoined => exact hrejoined
  case cut => exact fun i s hs => (exists_gap hfull hs).2.2.symm
  case tokens =>
    intro i s hs
    obtain ⟨-, hspan, -⟩ := exists_gap hfull hs
    rw [← Segment.tokensOf_cut]
    exact congrArg Segment.tokens hspan
  case labelled =>
    intro i s hs token htoken a ha hspelling
    obtain ⟨hgap, -, -⟩ := exists_gap hfull hs
    obtain ⟨piece, hpiece, rfl⟩ := List.mem_map.1 (List.mem_filter.1 htoken).1
    have hinfix : a <:+: Line.placed l ((ofLine l).span i s) :=
      (ha.trans piece.trim_infix).trans (Text.infix_of_mem_piecesBy hpiece)
    exact labelled_of_mem_gaps hgap hinfix hspelling

/-- A group whose label holds an ampersand and an arrow. -/
theorem takesApart_of_group : ∃ c, Line.chain? "  A & B[x & y --> z] -->|yes| C ".toList = some c ∧
    c.segments.map (·.tokens) = [["A".toList, "B[x & y --> z]".toList], ["C".toList]] ∧
    TakesApart "  A & B[x & y --> z] -->|yes| C ".toList c := by
  have hchain : Line.chain? "  A & B[x & y --> z] -->|yes| C ".toList =
      some ⟨"  ".toList, [⟨"A & B[x & y --> z]".toList, ["A".toList, "B[x & y --> z]".toList]⟩,
        ⟨"C".toList, ["C".toList]⟩], [" -->|yes| ".toList]⟩ := by
    decide
  exact ⟨_, hchain, rfl, takesApart_of_chain? hchain (by decide)⟩

end Chain
end Chartwright
