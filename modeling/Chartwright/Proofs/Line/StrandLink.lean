import Chartwright.Proofs.Line.Strand
/-!
The link that a tidy strand shows.

The line shows the link from the last node of the first group over the first arrow, unless a
declaration stands further left in that group, from which an inline declaration reaches an arrow
(`Strand.Tidy.ends_link?_eq_linkFrom`). When no label of an arrow holds an arrow, the one that is
reached is the first arrow directly behind a label (`Strand.Tidy.ends_link?_eq`).
-/
namespace Chartwright

open Row

/-! ## Links in a group -/

namespace Row

variable {r front : Row} {e : Token} {before : Option Char} {t : Text}

theorem ends_filled_append (hne : r ≠ []) (h : endsNode r = true) (t : Text) :
    Line.Ends (r.filled ++ t) := by
  obtain ⟨l, rest, rfl⟩ := List.exists_cons_of_ne_nil hne
  rw [filled_cons, Lexeme.filled_of_ne (ne_node_of_endsNode h), List.append_assoc]
  exact ends_written_append (ne_node_of_endsNode h) _

theorem isBlank_of_getLast?_concat :
    ∀ l ∈ (front ++ [Lexeme.node e]).getLast?, l.isBlank = false := by
  intro l hl
  rw [List.getLast?_concat, Option.mem_some] at hl
  rw [← hl]
  rfl

theorem tail?_concat (hgrouped : ∀ l ∈ front, l.isArrow = false) (t : Text) :
    Link.tail? (filled (front ++ [.node e]) ++ t) = none := by
  refine Link.tail?_of_none (Connector.read?_of_stops ?_)
  exact stops_arrow_filled (by simp)
    (List.forall_mem_append.2 ⟨hgrouped, List.forall_mem_singleton.2 rfl⟩)
    isBlank_of_getLast?_concat t

/-- What an inline declaration from further left finds in a group: the connector behind the group if
the last node has a label, and else what stands further right. -/
theorem inline?_concat (hgrouped : ∀ l ∈ front, l.isArrow = false)
    (hapart : Apart (front ++ [.node e])) (ht : Line.Ends t)
    (hline : '\n' ∉ filled (front ++ [.node e])) :
    Link.inline? (filled (front ++ [.node e]) ++ t) =
      (if e.label.isSome then Link.tail? t else none).or (Link.inline? t) := by
  induction front with
  | nil =>
    have hone : filled ([] ++ [.node e]) = e.filled := by simp [Lexeme.filled]
    rw [hone, e.inline?_filled ht]
  | cons l front ih =>
    rw [List.forall_mem_cons] at hgrouped
    rw [List.cons_append, filled_cons, List.mem_append, not_or] at hline
    rw [List.cons_append, filled_cons, List.append_assoc]
    cases l with
    | blank c hc =>
      rw [Lexeme.filled, Link.inline?_blanks (List.forall_mem_singleton.2 hc) hline.1]
      exact ih hgrouped.2 hapart hline.2
    | ampersand =>
      rw [Lexeme.filled, Link.inline?_append (List.forall_mem_singleton.2 (by decide))]
      exact ih hgrouped.2 hapart hline.2
    | arrow p => cases hgrouped.1
    | node f =>
      rw [List.cons_append] at hapart
      obtain ⟨hends, hlater⟩ := hapart
      rw [Lexeme.filled, f.inline?_filled (ends_filled_append (by simp) hends t),
        tail?_concat hgrouped.2, ite_self, Option.none_or]
      exact ih hgrouped.2 hlater hline.2

theorem firstEnds?_cons_of_ne {l : Lexeme} (h : ∀ f, l ≠ .node f) (harrow : l.isArrow = false) :
    Link.firstEnds? before (l.filled ++ t) = Link.firstEnds? none t := by
  have hchar : ∃ c, l.filled = [c] ∧ Identifier.isChar c = false := by
    cases l with
    | blank c hc => exact ⟨c, rfl, Identifier.not_isChar_of_isBlank hc⟩
    | ampersand => exact ⟨'&', rfl, by decide⟩
    | arrow p => cases harrow
    | node f => exact absurd rfl (h f)
  obtain ⟨c, hl, hc⟩ := hchar
  rw [hl, Link.firstEnds?_append_of_not_isStart
      (List.forall_mem_singleton.2 (Identifier.not_isStart_of_not_isChar hc))]
  exact Link.firstEnds?_before (by simp [Text.endOf, Identifier.apart, hc]) t

/-- Of the nodes before the last one a link begins only at those with a label, if an inline
declaration ends behind. -/
theorem firstEnds?_cons_node {f : Token} (hbefore : Identifier.apart before = true)
    (hf : f.Anchored) (hgrouped : ∀ l ∈ front, l.isArrow = false)
    (hends : endsNode (front ++ [.node e]) = true) :
    Link.firstEnds? before (f.filled ++ (filled (front ++ [.node e]) ++ t)) =
      ((if f.label.isSome then Link.inline? (filled (front ++ [.node e]) ++ t) else none).map
        fun (k, target) => (f.id, k, target)).or
      (Link.firstEnds? none (filled (front ++ [.node e]) ++ t)) := by
  have hfollows := ends_filled_append (r := front ++ [.node e]) (by simp) hends t
  rw [Token.firstEnds?_filled hbefore hfollows (tail?_concat hgrouped t),
    Token.ends?_filled hf hfollows, tail?_concat hgrouped, Option.none_or]
  congr 1
  -- what stands behind the node is no node, so a name may begin behind it
  cases front with
  | nil => cases hends
  | cons l front =>
    have hne := ne_node_of_endsNode hends
    rw [List.cons_append, filled_cons, List.append_assoc,
      firstEnds?_cons_of_ne hne (hgrouped l List.mem_cons_self),
      firstEnds?_cons_of_ne hne (hgrouped l List.mem_cons_self)]

/-- The link that a group starts when the connector behind a label that is reached from it is
known. -/
def linkFrom (front : List Token) (last : Text) (next : Connector × Text)
    (landing : Option (Connector × Text)) : Text × Connector × Text :=
  match front.find? (·.label.isSome), landing with
  | some e, some found => (e.id, found)
  | _, _ => (last, next)

theorem linkFrom_eq_or (front : List Token) (last : Text) (next : Connector × Text)
    (landing : Option (Connector × Text)) :
    linkFrom front last next landing = (last, next) ∨
      ∃ f ∈ front, f.label.isSome = true ∧
        ∃ found, linkFrom front last next landing = (f.id, found) := by
  unfold linkFrom
  split
  · next f found hfind =>
    have hlabel := List.find?_some hfind
    exact .inr ⟨f, List.mem_of_find?_eq_some hfind, hlabel, found, rfl⟩
  · exact .inl rfl

/-- The first link that starts in a group before a connector: at the first node with a label, if a
connector is reached from there, or else at the last node. -/
theorem firstEnds?_eq_linkFrom {next : Connector × Text}
    (hbefore : endsNode (front ++ [.node e]) = false → Identifier.apart before = true)
    (hgrouped : ∀ l ∈ front, l.isArrow = false) (hapart : Apart (front ++ [.node e]))
    (hanchored : ∀ f ∈ nodes (front ++ [.node e]), f.Anchored) (ht : Line.Ends t)
    (htail : Link.tail? t = some next) (hline : '\n' ∉ filled (front ++ [.node e])) :
    Link.firstEnds? before (filled (front ++ [.node e]) ++ t) =
      some (linkFrom front.nodes e.id next
        ((if e.label.isSome then Link.tail? t else none).or (Link.inline? t))) := by
  induction front generalizing before with
  | nil =>
    have hone : filled ([] ++ [.node e]) = e.filled := by simp [Lexeme.filled]
    rw [hone]
    exact Token.firstEnds?_of_tail? (hbefore rfl) (hanchored e List.mem_cons_self) ht htail
  | cons l front ih =>
    rw [List.forall_mem_cons] at hgrouped
    rw [List.cons_append, filled_cons, List.mem_append, not_or] at hline
    by_cases hnode : ∃ f, l = .node f
    · obtain ⟨f, rfl⟩ := hnode
      rw [List.cons_append] at hapart
      obtain ⟨hends, hlater⟩ := hapart
      have hrest := @ih none (fun _ => rfl) hgrouped.2 hlater
        (fun f' hf' => hanchored f' (List.mem_cons_of_mem f hf')) hline.2
      rw [List.cons_append, filled_cons, Lexeme.filled, List.append_assoc,
        firstEnds?_cons_node (hbefore rfl) (hanchored f List.mem_cons_self) hgrouped.2 hends,
        inline?_concat hgrouped.2 hlater ht hline.2, hrest, nodes]
      -- the node itself if it has a label and a connector is reached, else what comes later
      cases hlabel : f.label with
      | none => simp [linkFrom, hlabel]
      | some label =>
        cases (if e.label.isSome then Link.tail? t else none).or (Link.inline? t) with
        | none => simp [linkFrom]
        | some found => simp [linkFrom, hlabel]
    · have hne : ∀ f, l ≠ .node f := fun f hf => hnode ⟨f, hf⟩
      rw [List.cons_append, nodes_cons_of_ne hne] at hanchored
      rw [List.cons_append, filled_cons, List.append_assoc, firstEnds?_cons_of_ne hne hgrouped.1,
        nodes_cons_of_ne hne]
      exact ih (fun _ => rfl) hgrouped.2 ((apart_cons_of_ne hne).1 hapart) hanchored hline.2

end Row

/-! ## Links of a strand -/

/-- A group that begins and ends with a node. -/
structure Core.Listed (c : Core) : Prop where
  first : ∃ e rest, c.row = .node e :: rest
  last : ∃ front e, c.row = front ++ [.node e]

namespace Core

variable {c : Core} {front : Row} {e : Token}

theorem Listed.ne_nil (h : c.Listed) : c.row ≠ [] := by
  obtain ⟨e, rest, hrow⟩ := h.first
  simp [hrow]

theorem nodes_concat (h : c.row = front ++ [.node e]) : c.row.nodes = front.nodes ++ [e] := by
  rw [h, nodes_append]
  rfl

theorem grouped_concat (h : c.row = front ++ [.node e]) :
    ∀ l ∈ front, l.isArrow = false := fun l hl =>
  c.grouped l (h ▸ List.mem_append_left _ hl)

end Core

namespace Knot

/-- The arrow as it is read between its blanks. -/
def read (k : Knot) : Connector := k.tip.connector k.gap.written k.space.written

/-- The arrow with the first node behind it. -/
def target? (k : Knot) : Option (Connector × Text) :=
  k.core.row.nodes.head?.map fun e => (k.read, e.id)

theorem target?_eq {k : Knot} {e : Token} {rest : Row} (h : k.core.row = .node e :: rest) :
    k.target? = some (k.read, e.id) := by
  rw [target?, h]
  rfl

end Knot

namespace Strand

/-- Links between groups as they are meant to be written: each group begins and ends with a node,
and in the first one no node is called like a keyword, and class suffixes stand behind brackets
only. -/
structure Tidy (s : Strand) : Prop where
  sound : Sound s.row
  head_listed : s.head.Listed
  knots_listed : ∀ k ∈ s.knots, k.core.Listed
  head_named : ∀ e ∈ s.head.row.nodes, Keyword.isKeyword e.id = false
  head_anchored : ∀ e ∈ s.head.row.nodes, e.Anchored

/-- Of each group before an arrow whether its last node has a label, and so a link over the arrow
can start further left. -/
def behindLabel (groups : List (List Token)) : List Bool :=
  groups.dropLast.map fun g => g.getLast?.any (·.label.isSome)

/-- The first arrow directly behind a label, with the node behind it: where a link from further left
ends. -/
def landing? (groups : List (List Token)) (knots : List Knot) : Option (Connector × Text) :=
  knots[(behindLabel groups).idxOf true]?.bind Knot.target?

variable {s : Strand} {c : Core} {k : Knot} {knots : List Knot} {trail r : Row} {front : Row}
  {e : Token}

theorem landing?_cons (h : c.row = front ++ [.node e]) (g : List Token) (gs : List (List Token))
    (k : Knot) (ks : List Knot) :
    landing? (c.row.nodes :: g :: gs) (k :: ks) =
      if e.label.isSome then k.target? else landing? (g :: gs) ks := by
  have hmarks : behindLabel (c.row.nodes :: g :: gs) = e.label.isSome :: behindLabel (g :: gs) := by
    simp [behindLabel, Core.nodes_concat h]
  rw [landing?, landing?, hmarks, List.idxOf_cons]
  cases e.label.isSome <;> rfl

theorem filled_tailRow_cons (trail : Row) (k : Knot) (ks : List Knot) :
    (tailRow trail (k :: ks)).filled =
      k.gap.written ++ (k.tip.written ++
        (k.space.written ++ (k.core.row ++ tailRow trail ks).filled)) := by
  simp [tailRow_cons, Lexeme.filled, filled_of_isBlank k.gap_blank, filled_of_isBlank k.space_blank]

theorem ends_tailRow (htrail : ∀ l ∈ trail, l.isBlank = true) (knots : List Knot) :
    Line.Ends (tailRow trail knots).filled := by
  cases knots with
  | nil =>
    have hblank := isBlank_of_mem_written htrail
    have hfilled : (tailRow trail []).filled = trail.written := filled_of_isBlank htrail
    rw [hfilled]
    intro d hd
    simp [hblank d (List.mem_of_mem_head? hd)]
  | cons k ks =>
    have hgap := isBlank_of_mem_written k.gap_blank
    rw [filled_tailRow_cons]
    generalize k.gap.written = gap at hgap
    cases gap with
    | nil => exact k.tip.ends_written _
    | cons d ds => exact Text.stops_cons.2 (by simp [hgap d List.mem_cons_self])

theorem apart_of_tailRow_cons {ks : List Knot} (h : Apart (tailRow trail (k :: ks))) :
    Apart (k.core.row ++ tailRow trail ks) := by
  have hparts : tailRow trail (k :: ks) =
      (k.gap ++ (.arrow k.tip :: k.space)) ++ (k.core.row ++ tailRow trail ks) := by
    simp [tailRow_cons]
  exact (hparts ▸ h).of_append.2

theorem tail?_tailRow_cons {ks : List Knot} (hk : k.core.Listed)
    (hapart : Apart (k.core.row ++ tailRow trail ks)) :
    Link.tail? (tailRow trail (k :: ks)).filled = k.target? := by
  obtain ⟨f, rest, hrow⟩ := hk.first
  have hshape : k.core.row ++ tailRow trail ks = .node f :: (rest ++ tailRow trail ks) := by
    rw [hrow, List.cons_append]
  rw [hshape] at hapart
  rw [filled_tailRow_cons, hshape, filled_cons, k.target?_eq hrow]
  exact f.tail?_between k.tip (isBlank_of_mem_written k.gap_blank)
    (isBlank_of_mem_written k.space_blank) (ends_filled hapart.1).stops_isChar

/-- An inline declaration runs over an arrow whose label holds no arrow. -/
theorem inline?_tailRow_cons {ks : List Knot} (hplain : k.tip.Plain)
    (hline : '\n' ∉ (tailRow trail (k :: ks)).filled) :
    Link.inline? (tailRow trail (k :: ks)).filled =
      Link.inline? (k.core.row ++ tailRow trail ks).filled := by
  rw [filled_tailRow_cons] at hline ⊢
  simp only [List.mem_append, not_or] at hline
  obtain ⟨hgap, htip, hspace, -⟩ := hline
  rw [Link.inline?_blanks (isBlank_of_mem_written k.gap_blank) hgap,
    Tip.inline?_append hplain htip,
    Link.inline?_blanks (isBlank_of_mem_written k.space_blank) hspace]

theorem tail?_inline?_trail (htrail : ∀ l ∈ trail, l.isBlank = true)
    (hline : '\n' ∉ (tailRow trail []).filled) :
    Link.tail? (tailRow trail []).filled = none ∧
      Link.inline? (tailRow trail []).filled = none := by
  have hblank := isBlank_of_mem_written htrail
  have hfilled : (tailRow trail []).filled = trail.written := filled_of_isBlank htrail
  rw [hfilled] at hline ⊢
  refine ⟨Link.tail?_of_none (Connector.read?_of_none ?_), ?_⟩
  · have hnil : Text.trimLeft (trail.written ++ []) = [] :=
      Text.trimLeft_append hblank (Text.stops_nil _)
    rw [List.append_nil] at hnil
    rw [hnil]
    rfl
  · have hinline := Link.inline?_blanks hblank hline []
    rw [List.append_nil] at hinline
    rw [hinline]
    rfl

/-- When no label of an arrow holds an arrow, an inline declaration ends at the first arrow directly
behind a label. The induction is on the arrows, and of the group before them only its last node
matters. -/
theorem inline?_tailRow (hrow : c.row = front ++ [.node e])
    (htrail : ∀ l ∈ trail, l.isBlank = true) (hknots : ∀ k ∈ knots, k.core.Listed)
    (hapart : Apart (tailRow trail knots)) (hplain : ∀ k ∈ knots, k.tip.Plain)
    (hline : '\n' ∉ (tailRow trail knots).filled) :
    (if e.label.isSome then Link.tail? (tailRow trail knots).filled else none).or
        (Link.inline? (tailRow trail knots).filled) =
      landing? (c.row.nodes :: knots.map (·.core.row.nodes)) knots := by
  induction knots generalizing c front e with
  | nil =>
    obtain ⟨htail, hinline⟩ := tail?_inline?_trail htrail hline
    rw [htail, hinline, ite_self]
    rfl
  | cons k ks ih =>
    rw [List.forall_mem_cons] at hknots hplain
    obtain ⟨hk, hks⟩ := hknots
    have hlater := apart_of_tailRow_cons hapart
    obtain ⟨front', e', hrow'⟩ := hk.last
    have hinline := inline?_tailRow_cons hplain.1 hline
    have htail := tail?_tailRow_cons hk hlater
    have hmem : '\n' ∉ (k.core.row ++ tailRow trail ks).filled := by
      rw [filled_tailRow_cons] at hline
      intro h
      exact hline (List.mem_append_right _ (List.mem_append_right _ (List.mem_append_right _ h)))
    rw [filled_append] at hinline hmem
    rw [List.mem_append, not_or] at hmem
    have hlanding := ih hrow' hks hlater.of_append.2 hplain.2 hmem.2
    rw [hrow'] at hinline hmem hlater
    rw [inline?_concat (Core.grouped_concat hrow') hlater.of_append.1 (ends_tailRow htrail ks)
      hmem.1, hlanding] at hinline
    rw [List.map_cons, landing?_cons hrow, htail, hinline]
    cases e.label.isSome with
    | false => rfl
    | true =>
      obtain ⟨f, rest, hfirst⟩ := hk.first
      rw [k.target?_eq hfirst]
      rfl

/-! ## The link of a tidy strand -/

namespace Tidy

theorem full (h : s.Tidy) : s.Full :=
  ⟨h.head_listed.ne_nil, fun k hk => (h.knots_listed k hk).ne_nil⟩

theorem not_isDirective (h : s.Tidy) : Line.isDirective s.row.written = false :=
  Strand.not_isDirective h.full h.sound h.head_named

theorem apart_row (h : s.Tidy) : Apart (s.head.row ++ tailRow s.trail s.knots) := by
  have hapart := (sound_iff.1 h.sound).1
  rw [row] at hapart
  exact hapart.of_append.2

theorem not_mem_filled (h : s.Tidy) (hline : '\n' ∉ s.row.written) :
    '\n' ∉ (s.head.row ++ tailRow s.trail s.knots).filled := by
  intro hmem
  have hfilled : '\n' ∈ s.row.filled := by
    rw [row, filled_append]
    exact List.mem_append_right _ hmem
  rw [← h.sound.maskLabels_written h.not_isDirective] at hfilled
  rcases Text.mem_hide hfilled with heq | hwritten
  · cases heq
  · exact hline hwritten

theorem ends_link? (h : s.Tidy) :
    (Line.link? s.row.written).map (fun (_, l) => l.ends) =
      Link.firstEnds? none (s.head.row ++ tailRow s.trail s.knots).filled := by
  have hblank := isBlank_of_mem_written s.indent_blank
  have hstart : ∀ c ∈ s.indent.written, Identifier.isStart c = false := fun c hc =>
    Identifier.not_isStart_of_not_isChar (Identifier.not_isChar_of_isBlank (hblank c hc))
  rw [Line.link?, h.sound.maskLabels_written h.not_isDirective, Link.ends_first?, row,
    filled_append, filled_of_isBlank s.indent_blank, Link.firstEnds?_append_of_not_isStart hstart]
  exact Link.firstEnds?_before (Identifier.apart_endOf_of_isBlank hblank) _

section Knot

variable {ks : List Knot} {next : Connector × Text} (h : s.Tidy) (hknots : s.knots = k :: ks)
  (hhead : s.head.row = front ++ [.node e]) (hnext : k.target? = some next)
  (hline : '\n' ∉ s.row.written)

include h hknots hhead hnext hline

/-- The link starts at the last node of the first group, or at the first declaration before it. -/
theorem ends_link?_eq_linkFrom : (Line.link? s.row.written).map (fun (_, l) => l.ends) =
    some (linkFrom front.nodes e.id next
      ((if e.label.isSome then Link.tail? (tailRow s.trail s.knots).filled else none).or
        (Link.inline? (tailRow s.trail s.knots).filled))) := by
  have hapart := h.apart_row
  have hhead_anchored := h.head_anchored
  have hmem := h.not_mem_filled hline
  have htail : Link.tail? (tailRow s.trail s.knots).filled = some next := by
    rw [hknots] at hapart ⊢
    rw [← hnext]
    exact tail?_tailRow_cons (h.knots_listed k (hknots ▸ List.mem_cons_self))
      (apart_of_tailRow_cons hapart.of_append.2)
  rw [h.ends_link?]
  rw [filled_append] at hmem ⊢
  rw [List.mem_append, not_or] at hmem
  rw [hhead] at hapart hhead_anchored hmem ⊢
  exact firstEnds?_eq_linkFrom (fun _ => rfl) (Core.grouped_concat hhead) hapart.of_append.1
    hhead_anchored (ends_tailRow s.trail_blank s.knots) htail hmem.1

theorem ends_link?_or : (Line.link? s.row.written).map (fun (_, l) => l.ends) = some (e.id, next) ∨
    ∃ f ∈ front.nodes, f.label.isSome = true ∧
      ∃ found, (Line.link? s.row.written).map (fun (_, l) => l.ends) = some (f.id, found) := by
  rw [h.ends_link?_eq_linkFrom hknots hhead hnext hline]
  rcases linkFrom_eq_or front.nodes e.id next _ with heq | ⟨f, hf, hlabel, found, heq⟩
  · exact .inl (congrArg some heq)
  · exact .inr ⟨f, hf, hlabel, found, congrArg some heq⟩

/-- When no label of an arrow holds an arrow, the link is known. -/
theorem ends_link?_eq (hplain : ∀ k ∈ s.knots, k.tip.Plain) :
    (Line.link? s.row.written).map (fun (_, l) => l.ends) =
      some (linkFrom front.nodes e.id next (landing? s.row.groups s.knots)) := by
  have hmem := h.not_mem_filled hline
  rw [filled_append, List.mem_append, not_or] at hmem
  rw [h.ends_link?_eq_linkFrom hknots hhead hnext hline, groups_row,
    inline?_tailRow hhead s.trail_blank h.knots_listed h.apart_row.of_append.2 hplain hmem.2]

end Knot

end Tidy
end Strand

end Chartwright
