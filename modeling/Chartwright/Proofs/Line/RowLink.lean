import Chartwright.Proofs.Line.LinkRead
import Chartwright.Proofs.Line.Strand
/-!
The link that a sound row shows.

A link is looked up in the text of the line, so its ends need not be nodes: the row `A -->|x --> N|
B` links `x` with `N`, two names in the label of an arrow. That is the only exception
(`Row.Sound.source_link`, `Row.Sound.target_link`). A name in the label of a node is filled, the
tail of a name is none, and a link that began in a class suffix would have begun at the node
already.
-/
namespace Chartwright

namespace Text

theorem confined_length (read : Text → Option (Span × Nat)) (x y : Text) :
    Confined read y x.length x := by
  induction x with
  | nil => trivial
  | cons c cs ih => exact ih

end Text

namespace Line

/-- A column lies in the label of an arrow. -/
def inEdgeLabel (line : Line) (column : Nat) : Bool :=
  (edgeLabels (maskLabels line)).any (·.contains column)

/-- The source of the link on a line is read in the label of an arrow. -/
def sourceInLabel (line : Line) : Bool :=
  (link? line).any fun (column, _) => inEdgeLabel line column

/-- The target of the link on a line is read in the label of an arrow. -/
def targetInLabel (line : Line) : Bool :=
  (link? line).any fun (column, l) =>
    inEdgeLabel line (column + (l.source ++ l.inline ++ l.connector.written).length)

end Line

/-! ## Labels of arrows on a row -/

namespace Tip

variable (p : Tip)

theorem written_of_none (h : p.label = none) : p.written = p.spelling := by
  simp [written, labelled, h]

theorem written_of_label {label : EdgeLabel} (h : p.label = some label) :
    p.written = p.spelling ++ (label.gap ++ (['|'] ++ label.text ++ ['|'])) := by
  simp [written, labelled, h]

theorem edgeLabelAt_append {label : EdgeLabel} (h : p.label = some label) (t : Text) :
    Line.edgeLabelAt (p.written ++ t) =
      some (⟨(p.spelling ++ label.gap).length, p.written.length⟩, p.written.length) := by
  obtain ⟨hgap, hbar⟩ := p.label_read label h
  have hread := Line.edgeLabelAt_append p.spelled hgap hbar t
  have hlength : p.written.length =
      p.spelling.length + label.gap.length + label.text.length + 2 := by
    simp [p.written_of_label h]
    omega
  rw [p.written_of_label h] at hlength ⊢
  rw [hlength]
  simpa [Nat.add_assoc] using hread

theorem endOf_written (before : Option Char) :
    ∃ c, Text.endOf before p.written = some c ∧ (c = '>' ∨ c = '|') := by
  cases hlabel : p.label with
  | none =>
    obtain ⟨shaft, hspelling, -⟩ := p.spelled.eq_append_point
    exact ⟨'>', by rw [p.written_of_none hlabel, hspelling, Text.endOf_append]; rfl, .inl rfl⟩
  | some label =>
    refine ⟨'|', ?_, .inr rfl⟩
    rw [p.written_of_label hlabel, Text.endOf_append, Text.endOf_append, Text.endOf_append]
    rfl

end Tip

namespace Row

variable {r : Row} {l : Lexeme}

/-- No label of an arrow runs from one part of a sound row into the next. -/
theorem Sound.confined_filled (h : Sound (l :: r)) :
    Text.Confined Line.edgeLabelAt r.filled 0 l.filled := by
  cases l with
  | blank c hc =>
    exact Line.confined_of_noArrow (Text.noArrow_of_isBlank (List.forall_mem_singleton.2 hc)) _
  | ampersand => exact Line.confined_of_noArrow (List.forall_mem_singleton.2 (by decide)) _
  | arrow p =>
    rw [Lexeme.filled]
    cases hlabel : p.label with
    | none =>
      have hnone : EdgeLabel.read? r.filled = none :=
        h.later.shows.edgeLabel_read? (EdgeLabel.read?_of_stops (stops_bar r))
      rw [p.written_of_none hlabel]
      exact Text.confined_of_none fun s hs hne => p.edgeLabelAt_of_suffix hs hne hnone
    | some label =>
      have hread := p.edgeLabelAt_append hlabel r.filled
      obtain ⟨c, cs, hp⟩ := List.exists_cons_of_ne_nil p.ne_nil
      rw [hp] at hread ⊢
      rw [Text.confined_cons_of_some hread]
      exact ⟨Nat.le_refl _, Text.confined_length ..⟩
  | node e =>
    refine Line.confined_of_noArrow (fun c hc => ?_) _
    have hquiet := e.isQuiet_of_mem_filled c hc
    constructor <;> rintro rfl <;> exact absurd hquiet (by decide)

theorem Sound.confined_filled_append {x y : Row} (h : Sound (x ++ y)) :
    Text.Confined Line.edgeLabelAt y.filled 0 x.filled := by
  induction x with
  | nil => trivial
  | cons l rest ih =>
    rw [List.cons_append] at h
    have hfirst := h.confined_filled
    rw [filled_append] at hfirst
    rw [filled_cons]
    exact hfirst.append (Nat.zero_le _) (ih h.later)

theorem Sound.mem_edgeLabels {x y : Row} {p : Tip} (h : Sound (x ++ .arrow p :: y))
    {label : EdgeLabel} (hlabel : p.label = some label) :
    (⟨(x.filled ++ (p.spelling ++ label.gap)).length, (x.filled ++ p.written).length⟩ : Span) ∈
      Line.edgeLabels (x ++ .arrow p :: y).filled := by
  have hread := p.edgeLabelAt_append hlabel y.filled
  have hhere := Text.mem_spansOf_of_read (List.append_ne_nil_of_left_ne_nil p.ne_nil _) hread
  rw [Line.edgeLabels_eq, filled_append,
    Text.spansOf_append_of_confined Line.edgeLabelAt_isLocal h.confined_filled_append]
  refine List.mem_append_right _ (List.mem_map.2 ⟨_, hhere, ?_⟩)
  simp only [Span.shift, List.length_append, Nat.add_comm x.filled.length]

end Row

/-! ## Where a name can begin -/

namespace Text

theorem endOf_eq_of_ne_nil {x : Text} (h : x ≠ []) (before : Option Char) (y : Text) :
    endOf before (y ++ x) = endOf none x := by
  obtain ⟨c, cs, rfl⟩ := List.exists_cons_of_ne_nil h
  rw [endOf_append]
  rfl

end Text

namespace Token

variable {e : Token} {u v : Text} {c : Char}

/-- Inside of a filled node a name begins behind a part of a name, or in the suffix. -/
theorem cases_filled (h : e.filled = u ++ c :: v) (hc : Identifier.isStart c = true)
    (hne : u ≠ []) :
    (∃ d, Text.endOf none u = some d ∧ Identifier.isChar d = true) ∨
      ∃ w, w ≠ [] ∧ e.suffix = w ++ c :: v ∧ ∃ front, u = front ++ w := by
  have hid : ∀ {x : Text}, x ≠ [] → x <+: e.id → ∃ d, Text.endOf none x = some d ∧
      Identifier.isChar d = true := by
    intro x hx hpart
    obtain ⟨d, hd, hend⟩ := Text.endOf_of_ne_nil none hx
    exact ⟨d, hend, Identifier.isChar_of_valid e.id_valid d (hpart.subset hd)⟩
  have hsuffix : e.suffix ≠ c :: v := by
    intro heq
    rcases Line.suffix_eq e.suffix_read with hnil | ⟨word, -, hword, -⟩
    · exact List.cons_ne_nil _ _ (heq.symm.trans hnil)
    · obtain ⟨rfl, -⟩ := List.cons.inj (heq.symm.trans hword)
      exact absurd hc (by decide)
  have hbrackets := e.not_isStart_of_mem_brackets
  rw [filled] at h
  generalize e.brackets (fun text => List.replicate text.length '\x00') = brackets at h hbrackets
  rcases List.append_eq_append_iff.1 h with ⟨u', rfl, hrest⟩ | ⟨z, hz, -⟩
  · by_cases hu' : u' = []
    · rw [hu', List.append_nil]
      exact .inl (hid (Identifier.ne_nil_of_valid e.id_valid) (List.prefix_refl _))
    · rcases List.append_eq_append_iff.1 hrest with ⟨w, rfl, hw⟩ | ⟨z, rfl, hz⟩
      · refine .inr ⟨w, fun hnil => hsuffix ?_, hw, _, (List.append_assoc ..).symm⟩
        rwa [hnil, List.nil_append] at hw
      · cases z with
        | nil => exact absurd hz.symm hsuffix
        | cons d z =>
          obtain ⟨rfl, -⟩ := List.cons.inj hz
          rw [hbrackets c (List.mem_append_right _ List.mem_cons_self)] at hc
          cases hc
  · exact .inl (hid hne ⟨z, hz.symm⟩)

end Token

theorem Tip.le_length_of_written_eq {p : Tip} {label : EdgeLabel} (hlabel : p.label = some label)
    {u v : Text} {c : Char} (h : p.written = u ++ c :: v) (hc : Identifier.isStart c = true) :
    (p.spelling ++ label.gap).length ≤ u.length := by
  have hfront : ∀ d ∈ p.spelling ++ label.gap, Identifier.isStart d = false := by
    intro d hd
    rcases List.mem_append.1 hd with hd | hd
    · rcases p.spelled.mem hd with rfl | rfl | rfl | rfl <;> decide
    · exact Identifier.not_isStart_of_not_isChar
        (Identifier.not_isChar_of_isBlank ((p.label_read label hlabel).1 d hd))
  rw [p.written_of_label hlabel, ← List.append_assoc] at h
  rcases List.append_eq_append_iff.1 h with ⟨z, rfl, -⟩ | ⟨z, hz, hrest⟩
  · simp
  · cases z with
    | nil => simp [hz]
    | cons d z =>
      obtain ⟨rfl, -⟩ := List.cons.inj hrest
      rw [hfront c (by rw [hz]; exact List.mem_append_right _ List.mem_cons_self)] at hc
      cases hc

namespace Row

variable {r : Row}

/-- A place on a row lies in one of its parts. -/
theorem exists_part {x y : Text} (h : r.filled = x ++ y) (hne : y ≠ []) :
    ∃ (r₁ : Row) (l : Lexeme) (r₂ : Row) (u v : Text), r = r₁ ++ l :: r₂ ∧ l.filled = u ++ v ∧
      v ≠ [] ∧ x = r₁.filled ++ u ∧ y = v ++ r₂.filled := by
  induction r generalizing x with
  | nil =>
    rw [filled_nil] at h
    exact absurd (List.append_eq_nil_iff.1 h.symm).2 hne
  | cons l rest ih =>
    have hsplit : (∃ z, x = l.filled ++ z ∧ filled rest = z ++ y) ∨
        ∃ v, v ≠ [] ∧ l.filled = x ++ v ∧ y = v ++ filled rest := by
      rw [filled_cons] at h
      rcases List.append_eq_append_iff.1 h with hlater | ⟨v, hl, hy⟩
      · exact .inl hlater
      · by_cases hv : v = []
        · rw [hv, List.append_nil] at hl
          rw [hv, List.nil_append] at hy
          exact .inl ⟨[], by rw [hl, List.append_nil], hy.symm⟩
        · exact .inr ⟨v, hv, hl, hy⟩
    rcases hsplit with ⟨z, rfl, hz⟩ | ⟨v, hv, hl, hy⟩
    · obtain ⟨r₁, l', r₂, u, v, rfl, hl', hv, rfl, hy⟩ := ih hz
      exact ⟨l :: r₁, l', r₂, u, v, rfl, hl', hv, by rw [filled_cons, List.append_assoc], hy⟩
    · exact ⟨[], l, rest, x, v, rfl, hl, hv, rfl, hy⟩

/-- Where a name can begin on a filled row: at a node, inside of a name, in the label of an arrow,
or in a suffix. -/
inductive Place (r : Row) (x y : Text) : Prop where
  | node {r₁ r₂ : Row} {e : Token} (row : r = r₁ ++ .node e :: r₂) (before : x = r₁.filled)
    (behind : y = e.filled ++ r₂.filled)
  | name {d : Char} (last : Text.endOf none x = some d) (part : Identifier.isChar d = true)
  | label (inside : (Line.edgeLabels r.filled).any (·.contains x.length) = true)
  | suffix {r₁ r₂ : Row} {e : Token} {front w v : Text} (row : r = r₁ ++ .node e :: r₂)
    (begun : w ≠ [])
    (split : e.suffix = w ++ v) (before : x = r₁.filled ++ (front ++ w))
      (behind : y = v ++ r₂.filled)

theorem Sound.place (h : Sound r) {x y : Text} {c : Char} (heq : r.filled = x ++ c :: y)
    (hc : Identifier.isStart c = true) : Place r x (c :: y) := by
  obtain ⟨r₁, l, r₂, u, v, rfl, hl, hv, rfl, hy⟩ := exists_part heq (List.cons_ne_nil _ _)
  obtain ⟨d, v, rfl⟩ := List.exists_cons_of_ne_nil hv
  obtain rfl : c = d := (List.cons.inj hy).1
  have hmem : c ∈ l.filled := hl ▸ List.mem_append_right u List.mem_cons_self
  cases l with
  | blank d hd =>
    obtain rfl : c = d := List.mem_singleton.1 hmem
    rw [Identifier.not_isStart_of_not_isChar (Identifier.not_isChar_of_isBlank hd)] at hc
    cases hc
  | ampersand =>
    obtain rfl : c = '&' := List.mem_singleton.1 hmem
    exact absurd hc (by decide)
  | arrow p =>
    cases hlabel : p.label with
    | none =>
      rw [Lexeme.filled, p.written_of_none hlabel] at hmem
      rcases p.spelled.mem hmem with rfl | rfl | rfl | rfl <;> exact absurd hc (by decide)
    | some label =>
      refine .label (List.any_eq_true.2 ⟨_, h.mem_edgeLabels hlabel, ?_⟩)
      have hstart := Tip.le_length_of_written_eq hlabel hl hc
      have hstop : u.length < p.written.length := by
        rw [show p.written = u ++ c :: v from hl]
        simp
      simp only [Span.contains, List.length_append, Bool.and_eq_true, decide_eq_true_eq] at hstart ⊢
      omega
  | node e =>
    by_cases hu : u = []
    · subst hu
      have hl : e.filled = c :: v := hl
      exact .node rfl (List.append_nil _) (by rw [hy, hl])
    · rcases Token.cases_filled hl hc hu with ⟨d, hlast, hpart⟩ | ⟨w, hw, hsuffix, front, rfl⟩
      · exact .name ((Text.endOf_eq_of_ne_nil hu none _).trans hlast) hpart
      · exact .suffix rfl hw hsuffix rfl hy

/-! ## The ends of the link -/

end Row

namespace Connector

/-- A connector ends in no part of a name or a suffix. -/
theorem endOf_written {t rest : Text} {k : Connector} (h : read? t = some (k, rest))
    (before : Option Char) :
    ∃ c, Text.endOf before k.written = some c ∧ Line.isSuffixChar c = false := by
  simp only [read?, Option.bind_eq_bind, Option.bind_eq_some_iff, Prod.exists, Option.pure_def,
    Option.some.injEq, Prod.mk.injEq] at h
  obtain ⟨arrow, r, harrow, rfl, -⟩ := h
  have hspace : ∀ c ∈ Text.blanks (readLabel r).2, Text.isBlank c = true :=
    fun c => Text.isBlank_of_mem_blanks
  generalize Text.blanks (readLabel r).2 = space at hspace
  simp only [written]
  cases space with
  | cons c cs =>
    obtain ⟨d, hd, hend⟩ := Text.endOf_of_ne_nil none (List.cons_ne_nil c cs)
    have hcolon : (d == ':') = false := by
      rw [beq_eq_false_iff_ne]
      rintro rfl
      exact absurd (hspace _ hd) (by decide)
    refine ⟨d, (Text.endOf_eq_of_ne_nil (List.cons_ne_nil c cs) _ _).trans hend, ?_⟩
    rw [Line.isSuffixChar, hcolon, Text.not_isWord_of_isBlank (hspace d hd)]
    rfl
  | nil =>
    rw [List.append_nil, labelPart]
    cases (readLabel r).1 with
    | some label =>
      refine ⟨'|', ?_, by decide⟩
      simp only [Option.map_some, Option.getD_some, EdgeLabel.written, Text.endOf_append]
      rfl
    | none =>
      obtain ⟨shaft, hshaft, -⟩ := (Arrow.spelling_of_read? harrow).eq_append_point
      refine ⟨'>', ?_, by decide⟩
      simp only [Option.map_none, Option.getD_none, List.append_nil, hshaft, Text.endOf_append]
      rfl

end Connector

namespace Link

theorem first?_of_quiet {t : Text} (h : Chain.Quiet [] t) : first? t = none := by
  refine Option.eq_none_iff_forall_ne_some.2 fun ⟨column, l⟩ hl => ?_
  obtain ⟨front, rest, ht, -, -, hread, -⟩ := exists_of_first? hl
  obtain ⟨-, s, s', heq, hconnector, -⟩ := parts_of_read? hread
  have hsuffix : s <:+ t := by
    rw [ht, heq]
    exact (List.suffix_append _ s).trans (List.suffix_append ..)
  have hne : s ≠ [] := by
    rintro rfl
    cases hconnector
  have hnone := h.read?_eq_none hsuffix hne
  rw [List.append_nil, hconnector] at hnone
  cases hnone

end Link

theorem Lexeme.apart_endOf {l : Lexeme} (h : ∀ e, l ≠ .node e) (before : Option Char) :
    Identifier.apart (Text.endOf before l.written) = true := by
  cases l with
  | blank c hc => simp [written, Text.endOf, Identifier.apart, Identifier.not_isChar_of_isBlank hc]
  | ampersand => rfl
  | arrow p =>
    obtain ⟨c, hend, hc⟩ := p.endOf_written before
    rw [written, hend]
    rcases hc with rfl | rfl <;> rfl
  | node e => exact absurd rfl (h e)

namespace Row

variable {r₁ r₂ : Row} {e : Token}

theorem Apart.apart_endOf (h : Apart (r₁ ++ .node e :: r₂)) :
    Identifier.apart (Text.endOf none r₁.written) = true ∧
      Identifier.apart (Text.endOf none r₁.filled) = true := by
  rcases List.eq_nil_or_concat r₁ with rfl | ⟨front, l, rfl⟩
  · exact ⟨rfl, rfl⟩
  · rw [List.concat_eq_append, List.append_assoc] at h
    have hne : ∀ e', l ≠ .node e' := by
      rintro e' rfl
      cases h.of_append.2.1
    rw [List.concat_eq_append, written_append, filled_append, Text.endOf_append, Text.endOf_append]
    simp only [written_cons, written_nil, filled_cons, filled_nil, List.append_nil,
      l.filled_of_ne hne]
    exact ⟨l.apart_endOf hne _, l.apart_endOf hne _⟩

theorem Apart.endsNode (h : Apart (r₁ ++ .node e :: r₂)) : endsNode r₂ = true := h.of_append.2.1

variable {r : Row} {column : Nat} {l : Link}

/-- The source of the link of a sound row is one of its nodes, or stands in the label of an
arrow. -/
theorem Sound.source_first (h : Sound r) (hanchored : ∀ e ∈ r.nodes, e.Anchored)
    (hl : Link.first? r.filled = some (column, l)) :
    (∃ e ∈ r.nodes, e.id = l.source) ∨
      (Line.edgeLabels r.filled).any (·.contains column) = true := by
  obtain ⟨x, rest, heq, rfl, happart, hread, hleft⟩ := Link.exists_of_first? hl
  obtain ⟨⟨s, hs⟩, -⟩ := Link.parts_of_read? hread
  obtain ⟨c, cs, hc, hstart⟩ := Identifier.exists_start_of_read? hs
  rw [hc] at heq hread hs
  cases h.place heq hstart with
  | @node r₁ r₂ e hr hx hy =>
    subst hr
    have hends := ends_filled (sound_iff.1 h).1.endsNode
    rw [hy, e.read?_filled_append hends.stops_isChar] at hs
    exact .inl ⟨e, mem_nodes.2 (List.mem_append_right _ List.mem_cons_self),
      (Prod.mk.inj (Option.some.inj hs)).1⟩
  | name hlast hpart =>
    rw [hlast, Identifier.apart, Option.any_some, hpart] at happart
    cases happart
  | label hin => exact .inr hin
  | @suffix r₁ r₂ e front w v hr hw hsplit hx hy =>
    -- what is reached from the suffix is reached from the node, which comes first
    subst hr
    have hsound := (sound_iff.1 h).1
    have hends := ends_filled hsound.endsNode
    have hne : v ≠ [] := by
      rintro rfl
      have hstops := hends.stops_isStart
      rw [List.nil_append] at hy
      rw [← hy, Text.stops_cons, hstart] at hstops
      cases hstops
    have htail : Link.tail? r₂.filled ≠ none := by
      intro hnone
      have hnolink := Link.ends?_of_suffix e.suffix_read hends hnone ⟨w, hsplit.symm⟩ hne
      rw [← hy, Link.ends?, hread] at hnolink
      cases hnolink
    have hbefore : Link.read? (e.filled ++ r₂.filled) = none := by
      refine hleft r₁.filled _ (by simp [Lexeme.filled]) ?_ hsound.apart_endOf.2
      rw [hx]
      have := List.length_pos_iff.2 hw
      simp
      omega
    have hmem : e ∈ (r₁ ++ .node e :: r₂).nodes :=
      mem_nodes.2 (List.mem_append_right _ List.mem_cons_self)
    have hnolink := Token.ends?_filled (hanchored e hmem) hends
    rw [Link.ends?, hbefore] at hnolink
    cases hfound : Link.tail? r₂.filled with
    | none => exact absurd hfound htail
    | some found =>
      rw [hfound] at hnolink
      cases hnolink

/-- And so is its target. -/
theorem Sound.target_first (h : Sound r) (hl : Link.first? r.filled = some (column, l)) :
    (∃ e ∈ r.nodes, e.id = l.target) ∨
      (Line.edgeLabels r.filled).any
        (·.contains (column + (l.source ++ l.inline ++ l.connector.written).length)) = true := by
  obtain ⟨x, rest, heq, rfl, -, hread, -⟩ := Link.exists_of_first? hl
  obtain ⟨-, s, t, hs, hconnector, htarget⟩ := Link.parts_of_read? hread
  obtain ⟨c, cs, rfl, hstart⟩ := Identifier.exists_start_of_read? htarget
  rw [hs, Connector.eq_of_read? hconnector, ← List.append_assoc, ← List.append_assoc,
    List.append_assoc x] at heq
  have hlast : ∃ d, Text.endOf none (x ++ (l.source ++ l.inline ++ l.connector.written)) = some d ∧
      Line.isSuffixChar d = false := by
    rw [Text.endOf_append, Text.endOf_append]
    exact Connector.endOf_written hconnector _
  obtain ⟨d, hd, hout⟩ := hlast
  cases h.place heq hstart with
  | @node r₁ r₂ e hr _ hy =>
    subst hr
    have hends := ends_filled (sound_iff.1 h).1.endsNode
    rw [hy, e.read?_filled_append hends.stops_isChar] at htarget
    exact .inl ⟨e, mem_nodes.2 (List.mem_append_right _ List.mem_cons_self),
      (Prod.mk.inj (Option.some.inj htarget)).1⟩
  | name hlast hpart =>
    obtain rfl := Option.some.inj (hlast.symm.trans hd)
    simp [Line.isSuffixChar, Text.isWord_of_isChar hpart] at hout
  | label hin => exact .inr (by rwa [List.length_append] at hin)
  | @suffix r₁ r₂ e front w v _ hw hsplit hx _ =>
    obtain ⟨d', hmem, hend⟩ := Text.endOf_of_ne_nil none hw
    have hlast : Text.endOf none (r₁.filled ++ (front ++ w)) = some d' := by
      rw [← List.append_assoc, Text.endOf_eq_of_ne_nil hw, hend]
    obtain rfl : d = d' := Option.some.inj (hd.symm.trans (hx ▸ hlast))
    have hsuffix := Line.mem_suffix e.suffix_read (hsplit.symm ▸ List.mem_append_left v hmem)
    simp only [Line.isSuffixChar, Bool.or_eq_false_iff, beq_eq_false_iff_ne] at hout
    rcases hsuffix with rfl | hword
    · exact absurd rfl hout.1
    · rw [hword] at hout
      cases hout.2

end Row

namespace Line

theorem link?_of_chain? {line : Line} (h : chain? line = none) : link? line = none :=
  Link.first?_of_quiet (Chain.quiet_of_connectorSpans (chain?_eq_none_iff.1 h))

end Line

namespace Row

/-- A node of the row is at the source of its link, or that is read in the label of an arrow. -/
theorem Sound.source_link (h : Sound r) (hanchored : ∀ e ∈ r.nodes, e.Anchored)
    (hline : Line.isDirective r.written = false) (hl : Line.link? r.written = some (column, l)) :
    (∃ e ∈ r.nodes, e.id = l.source) ∨ Line.sourceInLabel r.written = true := by
  have hlabel : Line.sourceInLabel r.written = Line.inEdgeLabel r.written column := by
    rw [Line.sourceInLabel, hl]
    rfl
  rw [Line.link?, h.maskLabels_written hline] at hl
  rw [hlabel, Line.inEdgeLabel, h.maskLabels_written hline]
  exact h.source_first hanchored hl

/-- And so for its target. -/
theorem Sound.target_link (h : Sound r) (hline : Line.isDirective r.written = false)
    (hl : Line.link? r.written = some (column, l)) :
    (∃ e ∈ r.nodes, e.id = l.target) ∨ Line.targetInLabel r.written = true := by
  have hlabel : Line.targetInLabel r.written =
      Line.inEdgeLabel r.written
        (column + (l.source ++ l.inline ++ l.connector.written).length) := by
    rw [Line.targetInLabel, hl]
    rfl
  rw [Line.link?, h.maskLabels_written hline] at hl
  rw [hlabel, Line.inEdgeLabel, h.maskLabels_written hline]
  exact h.target_first hl

end Row
end Chartwright
