import Chartwright.Proofs.Line.RowOfTokens
/-!
What a deletion makes of a row.
-/
namespace Chartwright

/-! ## The chain of a line -/

namespace Segment

variable {line masked : Text}

/-- A span may begin in the blanks before it. -/
theorem ofSpan_start (hshows : Chain.Shows line masked) {n : Nat}
    (hblank : ∀ c ∈ line.take n, Text.isBlank c = true) (stop : Nat) :
    ofSpan line masked ⟨0, stop⟩ = ofSpan line masked ⟨n, stop⟩ := by
  have hcut : ∀ t : Text,
      (⟨0, stop⟩ : Span).cut t = (t.take stop).take n ++ (⟨n, stop⟩ : Span).cut t := by
    intro t
    rw [Span.cut, List.drop_zero, Span.cut, List.take_append_drop]
  have hfront : ∀ c ∈ (line.take stop).take n, Text.isBlank c = true := by
    intro c hc
    rw [List.take_take, Nat.min_comm, ← List.take_take] at hc
    exact hblank c (List.mem_of_mem_take hc)
  have hlength : ((line.take stop).take n).length = ((masked.take stop).take n).length := by
    simp only [List.length_take, hshows.length_eq]
  have hand : '&' ∉ (masked.take stop).take n := by
    intro hmem
    have hparts : Chain.Shows
        ((line.take stop).take n ++ ((line.take stop).drop n ++ line.drop stop))
        ((masked.take stop).take n ++ ((masked.take stop).drop n ++ masked.drop stop)) := by
      simpa only [← List.append_assoc, List.take_append_drop] using hshows
    exact absurd (hfront _ ((hparts.of_append hlength).1.mem hmem (by decide))) (by decide)
  rw [ofSpan, ofSpan, hcut line, hcut masked, Text.trim_append_left hfront,
    tokensOf_blanks_append hfront hand hlength]

/-- And it may end in the blanks behind it. -/
theorem ofSpan_stop (hshows : Chain.Shows line masked) {n : Nat}
    (hblank : ∀ c ∈ line.drop n, Text.isBlank c = true) (start : Nat) :
    ofSpan line masked ⟨start, line.length⟩ = ofSpan line masked ⟨start, n⟩ := by
  have hcut : ∀ t : Text, t.length = line.length →
      (⟨start, line.length⟩ : Span).cut t =
        (⟨start, n⟩ : Span).cut t ++ (t.drop n).drop (start - (t.take n).length) := by
    intro t ht
    rw [Span.cut, ← ht, List.take_length, Span.cut, ← List.drop_append, List.take_append_drop]
  have hback : ∀ c ∈ (line.drop n).drop (start - (line.take n).length), Text.isBlank c = true :=
    fun c hc => hblank c (List.mem_of_mem_drop hc)
  have hlength : (line.take n).length = (masked.take n).length := by
    simp only [List.length_take, hshows.length_eq]
  have hand : '&' ∉ (masked.drop n).drop (start - (masked.take n).length) := by
    intro hmem
    have hparts : Chain.Shows (line.take n ++ line.drop n) (masked.take n ++ masked.drop n) := by
      simpa only [List.take_append_drop] using hshows
    have hline := (hparts.of_append hlength).2.mem (List.mem_of_mem_drop hmem) (by decide)
    exact absurd (hblank _ hline) (by decide)
  have hcuts : ((⟨start, n⟩ : Span).cut line).length = ((⟨start, n⟩ : Span).cut masked).length := by
    simp only [Span.cut, List.length_drop, List.length_take, hshows.length_eq]
  have hbacks : ((line.drop n).drop (start - (line.take n).length)).length =
      ((masked.drop n).drop (start - (masked.take n).length)).length := by
    simp only [List.length_drop, List.length_take, hshows.length_eq]
  rw [ofSpan, ofSpan, hcut line rfl, hcut masked hshows.length_eq.symm,
    Text.trim_append_blanks hback, tokensOf_append_blanks hback hand hcuts hbacks]

end Segment

namespace Chain

theorem map_gaps_start {α : Type} {f : Span → α} {start start' : Nat}
    (h : ∀ stop, f ⟨start, stop⟩ = f ⟨start', stop⟩) (stop : Nat) (spans : List Span) :
    (gaps start stop spans).map f = (gaps start' stop spans).map f := by
  cases spans with
  | nil => simp [gaps, h]
  | cons s rest => simp [gaps, h]

theorem map_gaps_stop {α : Type} {f : Span → α} {stop stop' : Nat}
    (h : ∀ start, f ⟨start, stop⟩ = f ⟨start, stop'⟩) (start : Nat) (spans : List Span) :
    (gaps start stop spans).map f = (gaps start stop' spans).map f := by
  induction spans generalizing start with
  | nil => simp [gaps, h]
  | cons s rest ih => simp [gaps, ih]

end Chain

namespace Line

variable {line : Line} {k : Chain}

theorem shows_maskLabels (line : Line) : Chain.Shows line (maskLabels line) := Chain.shows_hide ..

theorem hasArrow_of_connector {front m : Text} (h : maskLabels line = front ++ m)
    (hm : (Connector.read? m).isSome = true) : hasArrow line = true := by
  have hshows := shows_maskLabels line
  rw [h] at hshows
  obtain ⟨x, y, rfl, -, -, hy⟩ := hshows.exists_append
  obtain ⟨gap, arrow, rest, -, hspelling, rfl⟩ := hy.exists_arrow hm
  refine Bool.of_not_eq_false fun hnot => ?_
  have hnone := Arrow.read?_of_suffix (s := arrow ++ rest) hnot ⟨x ++ gap, List.append_assoc ..⟩
  rw [hspelling.read?_append] at hnone
  cases hnone

/-- A chain is made of the segments and connectors of the line. -/
theorem eq_of_chain? (h : chain? line = some k) :
    k = ⟨indent line, Chain.segmentsOf line (maskLabels line),
      Chain.connectorsOf line (maskLabels line)⟩ := by
  simp only [chain?, Option.ite_none_left_eq_some, Option.some.injEq] at h
  obtain ⟨-, rfl⟩ := h
  congr 1
  have hfront : ∀ c ∈ line.take (indent line).length, Text.isBlank c = true := by
    have hprefix : indent line <+: line := ⟨_, Text.blanks_append_trimLeft line⟩
    rw [← List.prefix_iff_eq_take.1 hprefix]
    exact fun c => Text.isBlank_of_mem_blanks
  obtain ⟨run, hrun, hblank⟩ := Text.exists_append_eq_trimRight line
  have hback : ∀ c ∈ line.drop (Text.trimRight line).length, Text.isBlank c = true := by
    have hdrop : ∀ x : Text, line = x ++ run → line.drop x.length = run := by
      rintro x rfl
      exact List.drop_left ..
    rwa [hdrop _ hrun]
  have hshows := shows_maskLabels line
  rw [Chain.segmentsOf, Chain.map_gaps_start (Segment.ofSpan_start hshows hfront),
    Chain.map_gaps_stop (Segment.ofSpan_stop hshows hback)]

theorem connectors_ne_nil (h : chain? line = some k) : k.connectors ≠ [] := by
  simp only [chain?, Option.ite_none_left_eq_some, Option.some.injEq] at h
  obtain ⟨hne, rfl⟩ := h
  simpa using hne

theorem chain?_eq_none_iff : chain? line = none ↔ Chain.connectorSpans (maskLabels line) = [] := by
  rw [chain?]
  split
  · next h => simpa using h
  · next h => simpa using h

end Line

/-! ## Groups -/

namespace Row

variable {r : Row}

theorem Sound.shows (h : Sound r) : Chain.Shows r.written r.filled :=
  h.filled_written ▸ Chain.shows_hide ..

theorem endsToken_filled (h : endsNode r = true) : Chain.EndsToken r.filled := by
  induction r with
  | nil => exact .inl (Text.stops_nil _)
  | cons l rest ih =>
    rw [filled_cons]
    cases l with
    | blank c hc => exact (ih h).blanks_append (List.forall_mem_singleton.2 hc)
    | ampersand => exact .inl (Text.stops_cons.2 (by decide))
    | arrow p =>
      rw [Lexeme.filled, Tip.written, List.append_assoc]
      exact .inr (Connector.isSome_read?_append p.spelled _)
    | node e => cases h

/-- The groups of nodes in a row: an arrow begins another one. -/
def groups : Row → List (List Token)
  | [] => [[]]
  | .node e :: rest => (groups rest).modifyHead (e :: ·)
  | .arrow _ :: rest => [] :: groups rest
  | .blank _ _ :: rest => groups rest
  | .ampersand :: rest => groups rest

theorem groups_ne_nil (r : Row) : r.groups ≠ [] := by
  induction r with
  | nil => exact List.cons_ne_nil _ _
  | cons l rest ih =>
    cases l with
    | node e => simpa [groups] using ih
    | arrow p => exact List.cons_ne_nil _ _
    | _ => exact ih

theorem nodes_eq_flatten (r : Row) : r.nodes = r.groups.flatten := by
  induction r with
  | nil => rfl
  | cons l rest ih =>
    cases l with
    | node e =>
      obtain ⟨g, gs, hgroups⟩ := List.exists_cons_of_ne_nil (groups_ne_nil rest)
      rw [nodes, groups, ih, hgroups]
      rfl
    | _ => simpa [nodes, groups] using ih

/-- The tokens of the groups on a sound row are its nodes. -/
theorem Sound.groups_written (h : Sound r) :
    Chain.groups r.written r.filled = r.groups.map (·.map Token.written) := by
  induction h with
  | nil => rfl
  | @blank c hc rest later ih =>
    rw [written_cons, filled_cons, groups, ← ih]
    exact Chain.groups_cons_blank hc later.shows.length_eq
  | @ampersand rest later ih =>
    rw [written_cons, filled_cons, groups, ← ih]
    exact Chain.groups_cons_ampersand '&' later.shows.length_eq
  | @arrow p rest later ih =>
    have hlabel : EdgeLabel.read? rest.filled = none :=
      later.shows.edgeLabel_read? (EdgeLabel.read?_of_stops (stops_bar rest))
    rw [written_cons, filled_cons, groups, List.map_cons, ← ih]
    exact Chain.groups_arrow_append p (fun _ => hlabel) later.shows
  | @node e rest later apart closed ih =>
    have hgroups :=
      Chain.groups_token_append e.tight_written e.and_not_mem_filled e.length_filled.symm
      (Chain.quiet_of_isQuiet e.isQuiet_of_mem_filled _) later.shows (endsToken_filled apart)
    rw [written_cons, filled_cons, groups]
    refine hgroups.trans ?_
    rw [ih]
    cases groups rest <;> rfl

/-! ## Sound rows, part by part -/

end Row

theorem Token.Closed.of_bars {e : Token} {rest rest' : Text} (h : e.Closed rest)
    (hbars : '|' ∈ rest' → '|' ∈ rest) : e.Closed rest' := by
  intro b text hlabel
  refine Line.confined_of_bars (b.firm_closer _) (fun hmem => ?_) (h b text hlabel)
  simp only [List.mem_append] at hmem ⊢
  exact hmem.imp_right (·.imp_right hbars)

namespace Row

variable {r : Row} {l : Lexeme}

/-- Between two nodes there is an ampersand or an arrow. -/
def Apart : Row → Prop
  | [] => True
  | .node _ :: rest => endsNode rest = true ∧ Apart rest
  | .blank _ _ :: rest => Apart rest
  | .ampersand :: rest => Apart rest
  | .arrow _ :: rest => Apart rest

/-- A part that may stand before another: if it is a node, it is closed with a bar behind it, in
case that has one. -/
def Bears (l l' : Lexeme) : Prop := ∀ e, l = .node e → '|' ∈ l'.written → e.Closed ['|']

theorem mem_written {c : Char} {r : Row} : c ∈ r.written ↔ ∃ l ∈ r, c ∈ l.written :=
  List.mem_flatMap

theorem sound_cons_node {e : Token} :
    Sound (.node e :: r) ↔ Sound r ∧ endsNode r = true ∧ e.Closed r.written :=
  ⟨fun h => by cases h with | node later apart closed => exact ⟨later, apart, closed⟩,
    fun ⟨later, apart, closed⟩ => .node later apart closed⟩

section NotNode

variable (h : ∀ e, l ≠ .node e)
include h

theorem sound_cons_of_ne : Sound (l :: r) ↔ Sound r := by
  refine ⟨Sound.later, fun later => ?_⟩
  cases l with
  | blank => exact .blank later
  | ampersand => exact .ampersand later
  | arrow => exact .arrow later
  | node e => exact absurd rfl (h e)

theorem apart_cons_of_ne : Apart (l :: r) ↔ Apart r := by
  cases l with
  | node e => exact absurd rfl (h e)
  | _ => exact Iff.rfl

theorem nodes_cons_of_ne : nodes (l :: r) = nodes r := by
  cases l with
  | node e => exact absurd rfl (h e)
  | _ => rfl

theorem bears_of_ne (l' : Lexeme) : Bears l l' := fun e he => absurd he (h e)

end NotNode

theorem closed_written_iff {e : Token} :
    e.Closed r.written ↔ e.Closed [] ∧ ∀ l ∈ r, Bears (.node e) l := by
  constructor
  · intro h
    refine ⟨h.of_bars fun hmem => absurd hmem List.not_mem_nil, ?_⟩
    rintro l hl e' ⟨⟩ hbar
    exact h.of_bars fun _ => mem_written.2 ⟨l, hl, hbar⟩
  · rintro ⟨hself, hbears⟩
    by_cases hbar : '|' ∈ r.written
    · obtain ⟨l, hl, hmem⟩ := mem_written.1 hbar
      exact (hbears l hl e rfl hmem).of_bars fun _ => List.mem_singleton.2 rfl
    · exact hself.of_bars fun hmem => absurd hmem hbar

/-- A row is sound if its nodes are apart, each is closed by itself, and each bears what stands
behind it. -/
theorem sound_iff : Sound r ↔ Apart r ∧ (∀ e ∈ r.nodes, e.Closed []) ∧ r.Pairwise Bears := by
  induction r with
  | nil => exact ⟨fun _ => ⟨trivial, List.forall_mem_nil _, .nil⟩, fun _ => .nil⟩
  | cons l rest ih =>
    rw [List.pairwise_cons]
    by_cases hnode : ∃ e, l = .node e
    · obtain ⟨e, rfl⟩ := hnode
      rw [sound_cons_node, ih, closed_written_iff, nodes, List.forall_mem_cons, Apart]
      constructor
      · rintro ⟨⟨hrest, hnodes, hpairs⟩, hends, hself, hbears⟩
        exact ⟨⟨hends, hrest⟩, ⟨hself, hnodes⟩, hbears, hpairs⟩
      · rintro ⟨⟨hends, hrest⟩, ⟨hself, hnodes⟩, hbears, hpairs⟩
        exact ⟨⟨hrest, hnodes, hpairs⟩, hends, hself, hbears⟩
    · have hne : ∀ e, l ≠ .node e := fun e he => hnode ⟨e, he⟩
      have hbears : ∀ l' ∈ rest, Bears l l' := fun l' _ => bears_of_ne hne l'
      rw [sound_cons_of_ne hne, ih, apart_cons_of_ne hne, nodes_cons_of_ne hne,
        and_iff_right hbears]

theorem mem_nodes {e : Token} : e ∈ r.nodes ↔ .node e ∈ r := by
  induction r with
  | nil => simp [nodes]
  | cons l rest ih => cases l <;> simp [nodes, ih]

section Append

variable {x y : Row}

theorem nodes_append : nodes (x ++ y) = nodes x ++ nodes y := by
  induction x with
  | nil => rfl
  | cons l rest ih => cases l <;> simp [nodes, ih]

theorem endsNode_of_append (h : endsNode (x ++ y) = true) : endsNode x = true := by
  induction x with
  | nil => rfl
  | cons l rest ih =>
    cases l with
    | blank c hc => exact ih h
    | _ => exact h

theorem endsNode_append (hx : endsNode x = true) (hy : endsNode y = true) :
    endsNode (x ++ y) = true := by
  induction x with
  | nil => exact hy
  | cons l rest ih =>
    cases l with
    | blank c hc => exact ih hx
    | _ => exact hx

theorem Apart.of_append (h : Apart (x ++ y)) : Apart x ∧ Apart y := by
  induction x with
  | nil => exact ⟨trivial, h⟩
  | cons l rest ih =>
    cases l with
    | node e =>
      obtain ⟨hends, hlater⟩ := h
      exact ⟨⟨endsNode_of_append hends, (ih hlater).1⟩, (ih hlater).2⟩
    | _ => exact ih h

theorem Apart.append (hx : Apart x) (hy : Apart y) (hends : endsNode y = true) :
    Apart (x ++ y) := by
  induction x with
  | nil => exact hy
  | cons l rest ih =>
    cases l with
    | node e => exact ⟨endsNode_append hx.1 hends, ih hx.2⟩
    | _ => exact ih hx

theorem Sound.of_append (h : Sound (x ++ y)) : Sound x ∧ Sound y := by
  obtain ⟨hapart, hnodes, hpairs⟩ := sound_iff.1 h
  rw [nodes_append] at hnodes
  obtain ⟨hx, hy, -⟩ := List.pairwise_append.1 hpairs
  exact ⟨sound_iff.2 ⟨hapart.of_append.1, fun e he => hnodes e (List.mem_append_left _ he), hx⟩,
    sound_iff.2 ⟨hapart.of_append.2, fun e he => hnodes e (List.mem_append_right _ he), hy⟩⟩

end Append

end Row

namespace Lexeme

def isBlank : Lexeme → Bool
  | blank _ _ => true
  | _ => false

def isArrow : Lexeme → Bool
  | arrow _ => true
  | _ => false

/-- Arrows and nodes. -/
def isSolid : Lexeme → Bool
  | arrow _ => true
  | node _ => true
  | _ => false

end Lexeme

namespace Row

variable {r r' : Row}

theorem bears_of_not_isSolid {l l' : Lexeme}
    (h : l.isSolid = true → l'.isSolid = true → Bears l l') : Bears l l' := by
  rintro e rfl hbar
  cases l' with
  | blank c hc =>
    obtain rfl : '|' = c := List.mem_singleton.1 hbar
    exact absurd hc (by decide)
  | ampersand => exact absurd hbar (by decide)
  | arrow p => exact h rfl rfl e rfl hbar
  | node e' => exact h rfl rfl e rfl hbar

theorem Sound.of_sublist (h : Sound r) (hapart : Apart r')
    (hsub : (r'.filter Lexeme.isSolid).Sublist (r.filter Lexeme.isSolid)) : Sound r' := by
  obtain ⟨-, hnodes, hpairs⟩ := sound_iff.1 h
  refine sound_iff.2 ⟨hapart, fun e he => hnodes e ?_, ?_⟩
  · have hmem : Lexeme.node e ∈ r'.filter Lexeme.isSolid := List.mem_filter.2 ⟨mem_nodes.1 he, rfl⟩
    exact mem_nodes.2 (List.mem_filter.1 (hsub.subset hmem)).1
  · have hsolid := (List.Pairwise.filter Lexeme.isSolid hpairs).sublist hsub
    exact (List.pairwise_filter.1 hsolid).imp bears_of_not_isSolid

end Row
end Chartwright
