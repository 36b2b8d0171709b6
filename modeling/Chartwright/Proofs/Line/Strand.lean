import Chartwright.Proofs.Line.RowChain
/-!
A row in groups.

Every row falls in one way into an indent, a group, and then arrows with a group behind each
(`Row.exists_strand`). The blanks before an arrow and behind it go to the arrow, as they do when a
line is taken apart, so a group neither begins nor ends with a blank. If every group holds
something, the segments and connectors of the line are the groups and arrows of the strand
(`Strand.eq_chain`).
-/
namespace Chartwright

open Row

/-- A group of nodes as it is written, without the blanks around it. -/
structure Core where
  row : Row
  grouped : ∀ l ∈ row, l.isArrow = false
  front : ∀ l ∈ row.head?, l.isBlank = false
  back : ∀ l ∈ row.getLast?, l.isBlank = false

/-- An arrow with the blanks around it, and the group behind it. -/
structure Knot where
  gap : Row
  tip : Tip
  space : Row
  core : Core
  gap_blank : ∀ l ∈ gap, l.isBlank = true
  space_blank : ∀ l ∈ space, l.isBlank = true

/-- Groups with arrows between them. -/
structure Strand where
  indent : Row
  head : Core
  knots : List Knot
  trail : Row
  indent_blank : ∀ l ∈ indent, l.isBlank = true
  trail_blank : ∀ l ∈ trail, l.isBlank = true

namespace Strand

/-- The arrows and groups behind the first group, and the end of the row. -/
def tailRow (trail : Row) (knots : List Knot) : Row :=
  knots.flatMap (fun k => k.gap ++ (.arrow k.tip :: (k.space ++ k.core.row))) ++ trail

theorem tailRow_cons (trail : Row) (k : Knot) (ks : List Knot) :
    tailRow trail (k :: ks) =
      k.gap ++ (.arrow k.tip :: (k.space ++ (k.core.row ++ tailRow trail ks))) := by
  simp [tailRow]

def row (s : Strand) : Row := s.indent ++ (s.head.row ++ tailRow s.trail s.knots)

end Strand

namespace Row

theorem exists_tailRow {indent trail : Row} (hindent : ∀ l ∈ indent, l.isBlank = true)
    (htrail : ∀ l ∈ trail, l.isBlank = true) (knots : List Knot) :
    ∃ knots' trail', (∀ l ∈ trail', l.isBlank = true) ∧
      indent ++ Strand.tailRow trail knots = Strand.tailRow trail' knots' := by
  cases knots with
  | nil => exact ⟨[], indent ++ trail, List.forall_mem_append.2 ⟨hindent, htrail⟩, rfl⟩
  | cons k ks =>
    let k' : Knot :=
      { k with
        gap := indent ++ k.gap
        gap_blank := List.forall_mem_append.2 ⟨hindent, k.gap_blank⟩ }
    exact ⟨k' :: ks, trail, htrail, by simp [Strand.tailRow, k']⟩

theorem isArrow_of_isBlank {l : Lexeme} (h : l.isBlank = true) : l.isArrow = false := by
  cases l with
  | blank => rfl
  | _ => cases h

/-- A part of a group before a strand. -/
theorem exists_strand_cons {l : Lexeme} (hblank : l.isBlank = false) (harrow : l.isArrow = false)
    (s : Strand) :
    ∃ s' : Strand, s'.row = l :: s.row := by
  by_cases hhead : s.head.row = []
  · let head : Core := ⟨[l], List.forall_mem_singleton.2 harrow, by simp [hblank], by simp [hblank]⟩
    obtain ⟨knots, trail, htrail, heq⟩ := exists_tailRow s.indent_blank s.trail_blank s.knots
    exact ⟨⟨[], head, knots, trail, by simp, htrail⟩, by simp [Strand.row, hhead, head, heq]⟩
  · let head : Core :=
      { row := l :: (s.indent ++ s.head.row)
        grouped := by
          refine List.forall_mem_cons.2
            ⟨harrow, List.forall_mem_append.2 ⟨fun l' h => ?_, s.head.grouped⟩⟩
          exact isArrow_of_isBlank (s.indent_blank l' h)
        front := by simp [hblank]
        back := by
          intro l' hl'
          obtain ⟨last, hlast⟩ :=
            Option.ne_none_iff_exists'.1 (mt List.getLast?_eq_none_iff.1 hhead)
          refine s.head.back l' ?_
          rw [← List.cons_append, List.getLast?_append, hlast, Option.some_or] at hl'
          rwa [hlast] }
    exact ⟨⟨[], head, s.knots, s.trail, by simp, s.trail_blank⟩, by simp [Strand.row, head]⟩

/-- A row falls into groups. -/
theorem exists_strand (r : Row) : ∃ s : Strand, s.row = r := by
  let none : Core := ⟨[], by simp, by simp, by simp⟩
  induction r with
  | nil => exact ⟨⟨[], none, [], [], by simp, by simp⟩, rfl⟩
  | cons l rest ih =>
    obtain ⟨s, rfl⟩ := ih
    cases l with
    | blank c hc =>
      exact ⟨{ s with
        indent := .blank c hc :: s.indent
        indent_blank := List.forall_mem_cons.2 ⟨rfl, s.indent_blank⟩ }, rfl⟩
    | arrow p =>
      let k : Knot := ⟨[], p, s.indent, s.head, by simp, s.indent_blank⟩
      exact ⟨⟨[], none, k :: s.knots, s.trail, by simp, s.trail_blank⟩, by
        simp [Strand.row, Strand.tailRow, none, k]⟩
    | ampersand => exact exists_strand_cons rfl rfl s
    | node e => exact exists_strand_cons rfl rfl s

end Row

/-! ## Blanks and groups -/

namespace Lexeme

variable {l : Lexeme} {p : Char → Bool}

theorem stops_filled (hblank : l.isBlank = false) (harrow : l.isArrow = false)
    (hand : p '&' = false) (hp : ∀ c, Identifier.isChar c = true → p c = false) (t : Text) :
    Text.Stops p (l.filled ++ t) := by
  cases l with
  | blank => cases hblank
  | arrow => cases harrow
  | ampersand => exact Text.stops_cons.2 hand
  | node e =>
    rw [filled, Token.filled, List.append_assoc]
    exact Identifier.stops_append e.id_valid hp _

theorem tight_written (hblank : l.isBlank = false) (harrow : l.isArrow = false) :
    Text.Tight l.written := by
  cases l with
  | blank => cases hblank
  | arrow => cases harrow
  | ampersand =>
    exact Text.tight_of_forall (List.cons_ne_nil _ _) (List.forall_mem_singleton.2 (by decide))
  | node e => exact e.tight_written

end Lexeme

namespace Row

theorem isBlank_of_mem_written {x : Row} (hx : ∀ l ∈ x, l.isBlank = true) :
    ∀ c ∈ x.written, Text.isBlank c = true := by
  intro c hc
  obtain ⟨l, hl, hmem⟩ := mem_written.1 hc
  have hblank := hx l hl
  cases l with
  | blank d hd =>
    obtain rfl : c = d := List.mem_singleton.1 hmem
    exact hd
  | _ => cases hblank

theorem filled_of_isBlank {x : Row} (hx : ∀ l ∈ x, l.isBlank = true) : x.filled = x.written := by
  induction x with
  | nil => rfl
  | cons l rest ih =>
    rw [filled_cons, written_cons, ih fun l' h => hx l' (List.mem_cons_of_mem _ h)]
    cases l with
    | blank c hc => rfl
    | _ => cases hx _ List.mem_cons_self

@[simp] theorem written_append (x y : Row) : written (x ++ y) = written x ++ written y :=
  List.flatMap_append ..

@[simp] theorem filled_append (x y : Row) : filled (x ++ y) = filled x ++ filled y :=
  List.flatMap_append ..

variable {l : Lexeme} {rest : Row}

theorem back_of_cons (h : ∀ l' ∈ (l :: rest).getLast?, l'.isBlank = false) :
    ∀ l' ∈ rest.getLast?, l'.isBlank = false := by
  intro l' hl'
  apply h
  rw [List.getLast?_cons, Option.mem_def.1 hl']
  rfl

/-- Behind the blanks before it, what goes on in a group is no arrow. -/
theorem stops_arrow_filled {r : Row} (hne : r ≠ []) (hgrouped : ∀ l ∈ r, l.isArrow = false)
    (hback : ∀ l ∈ r.getLast?, l.isBlank = false) (y : Text) :
    Text.Stops (fun c => c == '-' || c == '=') (Text.trimLeft (r.filled ++ y)) := by
  induction r with
  | nil => exact absurd rfl hne
  | cons l rest ih =>
    have harrow := hgrouped l List.mem_cons_self
    cases hblank : l.isBlank with
    | true =>
      have hrest : rest ≠ [] := by
        rintro rfl
        rw [hback l rfl] at hblank
        cases hblank
      cases l with
      | blank c hc =>
        have htrim : Text.trimLeft (filled (.blank c hc :: rest) ++ y) =
            Text.trimLeft (filled rest ++ y) := by
          simp [Lexeme.filled, Text.trimLeft, hc]
        rw [htrim]
        exact ih hrest (fun l hl => hgrouped l (List.mem_cons_of_mem _ hl)) (back_of_cons hback)
      | _ => cases hblank
    | false =>
      have hstart := Lexeme.stops_filled hblank harrow (p := Text.isBlank) (by decide)
        (fun _ => Identifier.not_isBlank_of_isChar) (filled rest ++ y)
      rw [filled_cons, List.append_assoc, Text.trimLeft_of_stops hstart]
      exact Lexeme.stops_filled hblank harrow (by decide)
        (fun _ => Identifier.not_arrow_of_isChar) _

/-- No connector begins in a group. -/
theorem quiet_filled {r : Row} (hgrouped : ∀ l ∈ r, l.isArrow = false)
    (hback : ∀ l ∈ r.getLast?, l.isBlank = false) (y : Text) : Chain.Quiet y r.filled := by
  induction r with
  | nil => trivial
  | cons l rest ih =>
    have hlater := ih (fun l hl => hgrouped l (List.mem_cons_of_mem _ hl)) (back_of_cons hback)
    rw [filled_cons]
    refine Chain.Quiet.append ?_ hlater
    cases l with
    | blank c hc =>
      exact ⟨Connector.read?_of_stops (stops_arrow_filled (List.cons_ne_nil _ _) hgrouped hback y),
        trivial⟩
    | ampersand => exact Chain.quiet_of_isQuiet (List.forall_mem_singleton.2 (by decide)) _
    | arrow p => cases hgrouped _ List.mem_cons_self
    | node e => exact Chain.quiet_of_isQuiet e.isQuiet_of_mem_filled _

theorem groups_of_grouped {r : Row} (hgrouped : ∀ l ∈ r, l.isArrow = false) :
    r.groups = [r.nodes] := by
  induction r with
  | nil => rfl
  | cons l rest ih =>
    have hrest := ih fun l hl => hgrouped l (List.mem_cons_of_mem _ hl)
    cases l with
    | arrow p => cases hgrouped _ List.mem_cons_self
    | _ => simp [groups, nodes, hrest]

end Row

namespace Core

variable {c : Core}

theorem stops_filled (hne : c.row ≠ []) {p : Char → Bool} (hand : p '&' = false)
    (hp : ∀ c, Identifier.isChar c = true → p c = false) (t : Text) :
    Text.Stops p (c.row.filled ++ t) := by
  obtain ⟨l, rest, hrow⟩ := List.exists_cons_of_ne_nil hne
  have hfront := c.front l (by rw [hrow]; rfl)
  have hgrouped := c.grouped l (by rw [hrow]; exact List.mem_cons_self)
  rw [hrow, filled_cons, List.append_assoc]
  exact Lexeme.stops_filled hfront hgrouped hand hp _

theorem tight_written (hne : c.row ≠ []) : Text.Tight c.row.written := by
  obtain ⟨l, rest, hrow⟩ := List.exists_cons_of_ne_nil hne
  have hfirst := Lexeme.tight_written (c.front l (by rw [hrow]; rfl))
    (c.grouped l (by rw [hrow]; exact List.mem_cons_self))
  refine ⟨?_, ?_, ?_⟩
  · rw [hrow, written_cons]
    simp [hfirst.ne_nil]
  · rw [hrow, written_cons]
    exact Text.stops_append_of_ne_nil hfirst.ne_nil hfirst.front _
  · obtain ⟨front, last, hback⟩ : ∃ front last, c.row = front ++ [last] :=
      ⟨_, _, (List.dropLast_concat_getLast hne).symm⟩
    have hlast := Lexeme.tight_written (c.back last (by rw [hback]; simp))
      (c.grouped last (by rw [hback]; simp))
    rw [hback, written_append, written_cons, written_nil, List.append_nil, List.reverse_append]
    exact Text.stops_append_of_ne_nil (by simpa using hlast.ne_nil) hlast.back _

theorem quiet_filled (c : Core) (y : Text) : Chain.Quiet y c.row.filled :=
  Row.quiet_filled c.grouped c.back y

/-- The segment of a line that a group is. -/
def segment (c : Core) : Segment := ⟨c.row.written, c.row.nodes.map Token.written⟩

theorem tokensOf_written (h : Sound c.row) :
    Segment.tokensOf c.row.written c.row.filled = c.row.nodes.map Token.written := by
  have hgroups := h.groups_written
  rw [Chain.groups_of_quiet (c.quiet_filled []) h.shows.length_eq,
    groups_of_grouped c.grouped] at hgroups
  exact (List.cons.inj hgroups).1

end Core

/-! ## The chain of a strand -/

namespace Knot

/-- The connector of a line that a knot is. -/
def connector (k : Knot) : Text := k.gap.written ++ (k.tip.written ++ k.space.written)

end Knot

theorem Chain.quiet_of_isBlank {x : Text} (hx : ∀ c ∈ x, Text.isBlank c = true) : Quiet [] x := by
  induction x with
  | nil => trivial
  | cons c cs ih =>
    refine ⟨Connector.read?_of_stops ?_, ih fun d hd => hx d (List.mem_cons_of_mem _ hd)⟩
    have htrim : Text.trimLeft (c :: cs ++ []) = [] := Text.trimLeft_append hx (Text.stops_nil _)
    rw [htrim]
    exact Text.stops_nil _

namespace Strand

variable {c : Core} {trail : Row} {knots : List Knot}

/-- A knot is read as a connector when a group follows. -/
theorem read?_connector (k : Knot) (hcore : k.core.row ≠ []) (t : Text) :
    ∃ found : Connector, found.written = k.connector ∧
      Connector.read? (found.written ++ (k.core.row.filled ++ t)) =
        some (found, k.core.row.filled ++ t) := by
  have hgap := isBlank_of_mem_written k.gap_blank
  have hspace := isBlank_of_mem_written k.space_blank
  have hblank := k.core.stops_filled hcore (p := Text.isBlank) (by decide)
    (fun _ => Identifier.not_isBlank_of_isChar) t
  have hbar := k.core.stops_filled hcore (p := (· == '|')) (by decide)
    (fun c hc => by simpa using Identifier.ne_of_isChar hc (by decide)) t
  have hlabel : EdgeLabel.read? (k.space.written ++ (k.core.row.filled ++ t)) = none := by
    refine EdgeLabel.read?_of_stops ?_
    rwa [Text.trimLeft_append hspace hblank]
  have hwritten := k.tip.written_connector k.gap.written k.space.written
  refine ⟨_, hwritten, ?_⟩
  rw [hwritten, List.append_assoc, List.append_assoc, k.tip.read?_append hgap fun _ => hlabel,
    Text.blanks_append hspace hblank, Text.trimLeft_append hspace hblank]

theorem quiet_indented {indent : Row} (hindent : ∀ l ∈ indent, l.isBlank = true) (hc : c.row ≠ [])
    (y : Text) : Chain.Quiet y (indent.written ++ c.row.filled) := by
  rw [← filled_of_isBlank hindent, ← filled_append]
  refine Row.quiet_filled
    (List.forall_mem_append.2 ⟨fun l hl => isArrow_of_isBlank (hindent l hl), c.grouped⟩) ?_ y
  intro l hl
  obtain ⟨last, hlast⟩ := Option.ne_none_iff_exists'.1 (mt List.getLast?_eq_none_iff.1 hc)
  refine c.back l ?_
  rw [List.getLast?_append, hlast, Option.some_or] at hl
  rwa [hlast]

theorem segmentsOf_row_nil {indent : Row} (hindent : ∀ l ∈ indent, l.isBlank = true)
    (hc : c.row ≠ []) (htrail : ∀ l ∈ trail, l.isBlank = true) (hsound : Sound c.row) :
    Chain.segmentsOf (indent ++ (c.row ++ tailRow trail [])).written
      (indent ++ (c.row ++ tailRow trail [])).filled = [c.segment] ∧
      Chain.connectorsOf (indent ++ (c.row ++ tailRow trail [])).written
        (indent ++ (c.row ++ tailRow trail [])).filled = [] := by
  have htight := c.tight_written hc
  have hfront := isBlank_of_mem_written hindent
  have hblank := isBlank_of_mem_written htrail
  have hquiet : Chain.Quiet [] ((indent.written ++ c.row.filled) ++ trail.written) :=
    (quiet_indented hindent hc _).append (Chain.quiet_of_isBlank hblank)
  have hlength := hsound.shows.length_eq
  have hwritten : (indent ++ (c.row ++ tailRow trail [])).written =
      indent.written ++ (c.row.written ++ trail.written) := by
    simp [tailRow]
  have hfilled : (indent ++ (c.row ++ tailRow trail [])).filled =
      (indent.written ++ c.row.filled) ++ trail.written := by
    simp [tailRow, filled_of_isBlank hindent, filled_of_isBlank htrail]
  rw [hwritten, hfilled, Chain.connectorsOf, Chain.connectorSpans_of_quiet hquiet,
    Chain.segmentsOf_of_quiet hquiet (by simp [hlength]), htight.trim_append hfront hblank,
    List.append_assoc,
    Segment.tokensOf_blanks_append hfront (Text.not_mem_of_isBlank hfront (by decide)) rfl,
    Segment.tokensOf_append_blanks hblank
      (Text.not_mem_of_isBlank hblank (by decide)) hlength rfl,
    c.tokensOf_written hsound]
  exact ⟨rfl, rfl⟩

/-- A group and an arrow before the rest of a strand are the first segment and connector. -/
theorem segmentsOf_row_cons {indent : Row} {k : Knot} (hindent : ∀ l ∈ indent, l.isBlank = true)
    (hc : c.row ≠ []) (hcore : k.core.row ≠ []) (hsound : Sound c.row) (trail : Row)
    (knots : List Knot) :
    Chain.segmentsOf (indent ++ (c.row ++ tailRow trail (k :: knots))).written
      (indent ++ (c.row ++ tailRow trail (k :: knots))).filled =
        c.segment :: Chain.segmentsOf (k.core.row ++ tailRow trail knots).written
          (k.core.row ++ tailRow trail knots).filled ∧
      Chain.connectorsOf (indent ++ (c.row ++ tailRow trail (k :: knots))).written
        (indent ++ (c.row ++ tailRow trail (k :: knots))).filled =
          k.connector :: Chain.connectorsOf (k.core.row ++ tailRow trail knots).written
            (k.core.row ++ tailRow trail knots).filled := by
  have htight := c.tight_written hc
  have hfront := isBlank_of_mem_written hindent
  have hparts : c.row ++ tailRow trail (k :: knots) =
      c.row ++ ((k.gap ++ (.arrow k.tip :: k.space)) ++ (k.core.row ++ tailRow trail knots)) := by
    simp [tailRow_cons]
  obtain ⟨found, hfound, hread⟩ := read?_connector k hcore (tailRow trail knots).filled
  have hwritten : (indent ++ (c.row ++ tailRow trail (k :: knots))).written =
      (indent.written ++ c.row.written) ++
        (k.connector ++ (k.core.row ++ tailRow trail knots).written) := by
    simp [hparts, Knot.connector, Lexeme.written]
  have hfilled : (indent ++ (c.row ++ tailRow trail (k :: knots))).filled =
      (indent.written ++ c.row.filled) ++
        (found.written ++ (k.core.row ++ tailRow trail knots).filled) := by
    simp [hparts, hfound, Knot.connector, Lexeme.filled, filled_of_isBlank hindent,
      filled_of_isBlank k.gap_blank, filled_of_isBlank k.space_blank]
  have hlength : (indent.written ++ c.row.written).length =
      (indent.written ++ c.row.filled).length := by
    simp [hsound.shows.length_eq]
  have htrim : Text.trim (indent.written ++ c.row.written) = c.row.written := by
    have hself := htight.trim_append hfront Text.isBlank_of_mem_nil
    rwa [List.append_nil] at hself
  rw [← filled_append] at hread
  rw [hwritten, hfilled,
    Chain.segmentsOf_append (quiet_indented hindent hc _) hread hlength (by rw [hfound]),
    Chain.connectorsOf_append (quiet_indented hindent hc _) hread hlength (by rw [hfound]), htrim,
    Segment.tokensOf_blanks_append hfront (Text.not_mem_of_isBlank hfront (by decide)) rfl,
    c.tokensOf_written hsound]
  exact ⟨rfl, rfl⟩

/-- The segments and connectors of groups with arrows between them. -/
theorem segmentsOf_row {indent : Row} (hindent : ∀ l ∈ indent, l.isBlank = true) (hc : c.row ≠ [])
    (hknots : ∀ k ∈ knots, k.core.row ≠ []) (htrail : ∀ l ∈ trail, l.isBlank = true)
    (h : Sound (c.row ++ tailRow trail knots)) :
    Chain.segmentsOf (indent ++ (c.row ++ tailRow trail knots)).written
      (indent ++ (c.row ++ tailRow trail knots)).filled =
        c.segment :: knots.map (·.core.segment) ∧
      Chain.connectorsOf (indent ++ (c.row ++ tailRow trail knots)).written
        (indent ++ (c.row ++ tailRow trail knots)).filled = knots.map (·.connector) := by
  induction knots generalizing indent c with
  | nil => exact segmentsOf_row_nil hindent hc htrail h.of_append.1
  | cons k ks ih =>
    rw [List.forall_mem_cons] at hknots
    obtain ⟨hcore, hlater⟩ := hknots
    obtain ⟨hsegments, hconnectors⟩ :=
      segmentsOf_row_cons hindent hc hcore h.of_append.1 trail ks
    have hrest : Sound (k.core.row ++ tailRow trail ks) := by
      have hparts : c.row ++ tailRow trail (k :: ks) =
          (c.row ++ (k.gap ++ (.arrow k.tip :: k.space))) ++ (k.core.row ++ tailRow trail ks) := by
        simp [tailRow_cons]
      exact (hparts ▸ h).of_append.2
    have hih := ih (List.forall_mem_nil _) hcore hlater hrest
    rw [List.nil_append] at hih
    exact ⟨hsegments.trans (congrArg _ hih.1), hconnectors.trans (congrArg _ hih.2)⟩

variable {s : Strand}

/-- Every group of the strand holds something. -/
structure Full (s : Strand) : Prop where
  head : s.head.row ≠ []
  knots : ∀ k ∈ s.knots, k.core.row ≠ []

theorem indent_written (hfull : s.Full) : Line.indent s.row.written = s.indent.written := by
  have htight := s.head.tight_written hfull.head
  rw [row, written_append, written_append]
  exact Text.blanks_append (isBlank_of_mem_written s.indent_blank)
    (Text.stops_append_of_ne_nil htight.ne_nil htight.front _)

/-- A strand that begins with a group of nodes is no directive if no node of the group is called
like a keyword. -/
theorem not_isDirective (hfull : s.Full) (h : Sound s.row)
    (hnames : ∀ e ∈ s.head.row.nodes, Keyword.isKeyword e.id = false) :
    Line.isDirective s.row.written = false := by
  have hindent := isBlank_of_mem_written s.indent_blank
  have hlater := h.of_append.2
  obtain ⟨l, rest, hhead⟩ := List.exists_cons_of_ne_nil hfull.head
  have hfront := s.head.front l (by rw [hhead]; rfl)
  have hgrouped := s.head.grouped l (by rw [hhead]; exact List.mem_cons_self)
  rw [hhead] at hnames hlater
  rw [row, hhead, written_append, List.cons_append, written_cons]
  cases l with
  | blank => cases hfront
  | arrow => cases hgrouped
  | ampersand => exact Line.not_isDirective_ampersand hindent _
  | node e =>
    have hends := (sound_cons_node.1 hlater).2.1
    exact not_isDirective_node hindent (hnames e List.mem_cons_self) (ends_written hends)

/-- The groups and arrows of a strand as they are written. -/
def chain (s : Strand) : Chain :=
  ⟨s.indent.written, s.head.segment :: s.knots.map (·.core.segment), s.knots.map (·.connector)⟩

/-- A line that is a strand is taken apart into its groups and arrows. -/
theorem eq_chain (hfull : s.Full) (h : Sound s.row) (hline : Line.isDirective s.row.written = false)
    {k : Chain} (hk : Line.chain? s.row.written = some k) : k = s.chain := by
  obtain ⟨hsegments, hconnectors⟩ :=
    segmentsOf_row s.indent_blank hfull.head hfull.knots s.trail_blank h.of_append.2
  rw [Line.eq_of_chain? hk, h.maskLabels_written hline, indent_written hfull, row, hsegments,
    hconnectors, chain]

theorem groups_grouped_append {x : Row} (hx : ∀ l ∈ x, l.isArrow = false) (r : Row) :
    groups (x ++ r) = (groups r).modifyHead (nodes x ++ ·) := by
  induction x with
  | nil => cases hr : groups r <;> simp [nodes, hr]
  | cons l rest ih =>
    have hrest := ih fun l hl => hx l (List.mem_cons_of_mem _ hl)
    cases l with
    | arrow p => cases hx _ List.mem_cons_self
    | node e => simp [groups, nodes, hrest, Function.comp_def]
    | _ => simpa [groups, nodes] using hrest

theorem nodes_of_isBlank {x : Row} (hx : ∀ l ∈ x, l.isBlank = true) : nodes x = [] := by
  induction x with
  | nil => rfl
  | cons l rest ih =>
    cases l with
    | blank => exact ih fun l hl => hx l (List.mem_cons_of_mem _ hl)
    | _ => cases hx _ List.mem_cons_self

theorem groups_blank_append {x : Row} (hx : ∀ l ∈ x, l.isBlank = true) (r : Row) :
    groups (x ++ r) = groups r := by
  rw [groups_grouped_append (fun l hl => isArrow_of_isBlank (hx l hl)), nodes_of_isBlank hx]
  cases groups r <;> rfl

/-- The groups of a strand are its groups. -/
theorem groups_row (s : Strand) :
    s.row.groups = s.head.row.nodes :: s.knots.map (·.core.row.nodes) := by
  have htail : ∀ (c : Core) (knots : List Knot),
      groups (c.row ++ tailRow s.trail knots) = c.row.nodes :: knots.map (·.core.row.nodes) := by
    intro c knots
    induction knots generalizing c with
    | nil =>
      have hrow : tailRow s.trail [] = s.trail := rfl
      rw [groups_grouped_append c.grouped, hrow, groups_of_grouped fun l hl =>
          isArrow_of_isBlank (s.trail_blank l hl),
        nodes_of_isBlank s.trail_blank]
      simp
    | cons k ks ih =>
      rw [groups_grouped_append c.grouped, tailRow_cons, groups_blank_append k.gap_blank, groups,
        groups_blank_append k.space_blank, ih k.core]
      simp
  rw [row, groups_blank_append s.indent_blank, htail]

end Strand
end Chartwright
