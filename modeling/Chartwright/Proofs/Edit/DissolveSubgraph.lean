import Chartwright.Edit.Command
import Chartwright.Proofs.Buffer.Joined
import Chartwright.Proofs.Buffer.Without
import Chartwright.Proofs.Line.OuterBlanks
/-!
What deleting a subgraph leaves.

Its opening and its closing line go, and the lines between them are dedented. Both lines are
directives that set no style, and dedenting changes no view, so nodes, edges and styles are as
before. The two lines match, so all other matching lines still do, and the lines of the subgraph
fall to the opening that was around it (`keptInnermost?_pair`). So the other subgraphs stay as they
are, up to their lines, except that the one directly around it takes its members in
(`deleteSubgraph_isDissolved`).
-/
namespace Chartwright

namespace Buffer

variable {b b' : Buffer} {line : Line} {g h : Subgraph} {i k o c : Nat}

/-! ## Dedenting -/

theorem exists_eq_append_dedent (line : Line) :
    ∃ x, line = x ++ dedent line ∧ ∀ c ∈ x, Text.isBlank c = true := by
  unfold dedent
  split
  · exact ⟨['\t'], rfl, List.forall_mem_singleton.2 (by decide)⟩
  · refine ⟨_, (List.take_append_drop ..).symm, fun c hc => ?_⟩
    have hspaces :=
      List.prefix_iff_eq_take.1 (List.takeWhile_prefix (l := line) fun c => decide (c = ' '))
    have hc : c ∈ line.takeWhile fun c => decide (c = ' ') := by
      rw [hspaces]
      exact (List.take_prefix_take_left (Nat.min_le_right ..)).subset hc
    have hspace := List.all_eq_true.1 (List.all_takeWhile (p := fun c => decide (c = ' '))) c hc
    rw [of_decide_eq_true hspace]
    decide

theorem view_dedent (line : Line) : Line.view (dedent line) = Line.view line := by
  obtain ⟨x, hline, hx⟩ := exists_eq_append_dedent line
  conv => rhs; rw [hline, Line.view_blanks_append hx]

/-! ## The lines of the subgraph -/

/-- Line `i` is the last opening around line `k`, other than line `k` itself. -/
def Around (b : Buffer) (i k : Nat) : Prop :=
  Encloses b i k ∧ i ≠ k ∧ ∀ i', Encloses b i' k → i' ≠ k → i' ≤ i

theorem around_iff (hk : k < b.length) : Around b i k ↔ (stack (b.take k)).head? = some i := by
  have hlength : (b.take k).length = k := by
    rw [List.length_take, Nat.min_eq_left (Nat.le_of_lt hk)]
  obtain ⟨hbound, hfalls⟩ := pairwise_stack (b.take k)
  rw [hlength] at hbound
  have hmem : ∀ i, Encloses b i k ∧ i ≠ k ↔ i ∈ stack (b.take k) := by
    intro i
    rw [encloses_iff hk]
    constructor
    · rintro ⟨⟨rfl, -⟩ | hmem, hne⟩
      · exact absurd rfl hne
      · exact hmem
    · exact fun hmem => ⟨.inr hmem, Nat.ne_of_lt (hbound i hmem)⟩
  have hiff : Around b i k ↔ i ∈ stack (b.take k) ∧ ∀ i' ∈ stack (b.take k), i' ≤ i := by
    rw [Around, ← and_assoc, hmem]
    exact and_congr_right fun _ => forall_congr' fun i' => by rw [← hmem, and_imp]
  rw [hiff, head?_eq_some_iff_of_falls hfalls]

theorem paired_pair (hmatch : Matches b o c) : Paired b [o, c] := by
  intro i j hij
  simp only [List.mem_cons, List.not_mem_nil, or_false]
  constructor
  · rintro (rfl | rfl)
    · exact .inr (hij.eq_right hmatch)
    · exact absurd rfl (hmatch.ne hij)
  · rintro (rfl | rfl)
    · exact absurd rfl (hij.ne hmatch)
    · exact .inl (hij.eq_left hmatch)

/-- Without the pair its lines belong to the opening around it, and the others to their own. -/
theorem keptInnermost?_pair (hmatch : Matches b o c) (hk : k < b.length) (hne : k ≠ o) :
    keptInnermost? b [o, c] k =
      if innermost? b k = some o then (stack (b.take o)).head? else innermost? b k := by
  rw [keptInnermost?, innermost?]
  cases hopens : Line.opensSubgraph (b.line k) with
  | true => simp [hne]
  | false =>
    have hopener : ∀ i ∈ stack (b.take k), i ≠ c := by
      intro i hi
      have hline := ((mem_stack_iff (Nat.le_of_lt hk)).1 hi).2.1
      rintro rfl
      rw [Line.not_opensSubgraph_of_closesSubgraph hmatch.closes] at hline
      cases hline
    simp only [Bool.false_eq_true, if_false]
    cases hstack : stack (b.take k) with
    | nil => rfl
    | cons top st =>
      rw [hstack] at hopener
      rw [List.head?_cons]
      by_cases htop : top = o
      · subst htop
        -- what is below an opening on the stack is the stack before it
        obtain ⟨front, opening, back, hfront, hlength, -, -, hst⟩ := exists_balanced_of_stack hstack
        have htake : b.take top = front := by
          have hlt : top ≤ k := by
            have := congrArg List.length hfront
            rw [List.length_take, List.length_append, List.length_cons] at this
            omega
          rw [← Nat.min_eq_left hlt, ← List.take_take, hfront, ← hlength, List.take_left]
        have hbelow : ∀ i ∈ st, i ∉ [top, c] := by
          have hfalls := (pairwise_stack (b.take k)).2
          rw [hstack, List.pairwise_cons] at hfalls
          intro i hi
          simp [Nat.ne_of_lt (hfalls.1 i hi), hopener i (List.mem_cons_of_mem top hi)]
        rw [if_pos rfl, htake, hst, List.find?_cons_of_neg (by simp)]
        cases st with
        | nil => rfl
        | cons below rest =>
          rw [List.find?_cons_of_pos (by simpa using hbelow below List.mem_cons_self),
            List.head?_cons]
      · rw [if_neg (by simp [htop]),
          List.find?_cons_of_pos (by simp [htop, hopener top List.mem_cons_self])]

theorem isDirective_pair (hmatch : Matches b o c) {found : Opening × Text}
    (hread : Opening.read? (b.line o) = some found) :
    ∀ k ∈ [o, c], Line.isDirective (b.line k) = true ∧ StyleLine.read (b.line k) = .ok none := by
  intro k hk
  rcases List.mem_pair.1 hk with rfl | rfl
  · exact ⟨Line.isDirective_of_opening hread, StyleLine.read_of_opensSubgraph hmatch.opens⟩
  · exact ⟨Line.isDirective_of_closesSubgraph hmatch.closes,
      StyleLine.read_of_closesSubgraph hmatch.closes⟩

/-! ## The other subgraphs -/

/-- The number that a line has once the lines that open and close a subgraph are gone. -/
def lowered (g : Subgraph) (k : Nat) : Nat :=
  if k ≤ g.opening then k else if k ≤ g.closing then k - 1 else k - 2

theorem numberWithout_pair (hlt : g.opening < g.closing) (k : Nat) :
    numberWithout [g.opening, g.closing] k = lowered g k := by
  induction k with
  | zero => rw [lowered, if_pos (Nat.zero_le _)]; rfl
  | succ k ih =>
    rw [numberWithout_succ, ih]
    simp only [lowered, List.mem_cons, List.not_mem_nil, or_false]
    split_ifs <;> omega

/-- What is left of a subgraph of `b` when `g` has been dissolved. -/
structure Remains (b : Buffer) (g h h' : Subgraph) : Prop where
  id : h'.id = h.id
  title : h'.title = h.title
  opening : h'.opening = lowered g h.opening
  closing : h'.closing = lowered g h.closing
  members : ¬ Around b h.opening g.opening → h'.members = h.members
  union : Around b h.opening g.opening → ∀ name, name ∈ h'.members ↔
      name ∈ h.members ∨ name ∈ g.members
  order : Around b h.opening g.opening → ∃ lines : List Nat, lines.Pairwise (· < ·) ∧
    (∀ k, k ∈ lines ↔ k < b.length ∧ (Innermost b h.opening k ∨ Innermost b g.opening k)) ∧
    h'.members = distinct (lines.flatMap fun k => Line.identifiers (b.line k))

/-- What a buffer is after a subgraph has been dissolved. -/
structure IsDissolved (g : Subgraph) (b b' : Buffer) : Prop where
  nodes : b'.nodes.map entry = b.nodes.map entry
  edges : b'.edges.map Edge.unplaced = b.edges.map Edge.unplaced
  styles : b'.styles = b.styles
  subgraphs : List.Forall₂ (Remains b g) (b.subgraphs.filter fun h => h ≠ g) b'.subgraphs

theorem IsDissolved.of_alike (h : IsDissolved g b b') {b'' : Buffer} (halike : Alike b' b'') :
    IsDissolved g b b'' where
  nodes := halike.nodes ▸ h.nodes
  edges := halike.edges ▸ h.edges
  styles := halike.styles ▸ h.styles
  subgraphs := halike.subgraphs ▸ h.subgraphs

theorem keptMembersOf_pair (hmatch : Matches b o c) {found : Opening × Text}
    (hread : Opening.read? (b.line o) = some found) (hi : i ≠ o) :
    keptMembersOf b [o, c] i = ((List.range b.length).filter fun k =>
      innermost? b k = some i ∨
        ((stack (b.take o)).head? = some i ∧ innermost? b k = some o)).flatMap fun k =>
        Line.identifiers (b.line k) := by
  apply keptMembersOf_eq
  · intro k hk hkept
    have hne : k ≠ o := fun heq => hkept (heq ▸ List.mem_cons_self)
    rw [keptInnermost?_pair hmatch hk hne, decide_eq_true_eq]
    split
    · next hinner => simp [hinner, Ne.symm hi]
    · next hinner => simp [hinner]
  · exact fun k hk _ => Line.identifiers_of_isDirective (isDirective_pair hmatch hread k hk).1

theorem remains_keptGroup (hg : g ∈ b.subgraphs) (hh : h ∈ b.subgraphs) (hne : h ≠ g) :
    Remains b g h (keptGroup b [g.opening, g.closing] h) := by
  have hmatch := matches_of_mem_subgraphs hg
  obtain ⟨_, _, hread, -⟩ := read?_opening hg
  have hopening : h.opening ≠ g.opening := fun heq => hne (eq_of_opening hh hg heq)
  have hkept := keptMembersOf_pair hmatch hread hopening
  have haround := around_iff (i := h.opening) (lt_length_of_opens hmatch.opens)
  have hinner : ∀ {i}, ∀ k ∈ List.range b.length, innermost? b k = some i ↔ Innermost b i k :=
    fun k hk => (innermost_iff (List.mem_range.1 hk)).symm
  constructor
  case id => rfl
  case title => rfl
  case opening => exact numberWithout_pair hmatch.ordered _
  case closing => exact numberWithout_pair hmatch.ordered _
  case members =>
    intro hnot
    rw [haround] at hnot
    show distinct (keptMembersOf _ _ _) = _
    rw [hkept, members_eq hh, membersOf, linesOf]
    simp only [hnot, false_and, or_false]
  case union =>
    intro hdirect
    rw [haround] at hdirect
    intro name
    show name ∈ distinct (keptMembersOf _ _ _) ↔ _
    rw [hkept, members_eq hh, members_eq hg, mem_distinct_iff, mem_distinct_iff, mem_distinct_iff,
      membersOf, membersOf, linesOf, linesOf]
    simp only [hdirect, true_and, List.mem_flatMap, List.mem_filter, decide_eq_true_eq]
    rw [← exists_or]
    exact exists_congr fun k => by rw [and_or_left, or_and_right]
  case order =>
    intro hdirect
    rw [haround] at hdirect
    refine ⟨_, List.pairwise_lt_range.filter _, fun k => ?_, congrArg distinct hkept⟩
    simp only [hdirect, true_and, List.mem_filter, decide_eq_true_eq, List.mem_range]
    exact and_congr_right fun hk =>
      or_congr (hinner k (List.mem_range.2 hk)) (hinner k (List.mem_range.2 hk))

/-- Without the two lines of a subgraph. -/
theorem isDissolved_without (hg : g ∈ b.subgraphs) :
    IsDissolved g b (b.without [g.opening, g.closing]) := by
  have hmatch := matches_of_mem_subgraphs hg
  obtain ⟨_, _, hread, -⟩ := read?_opening hg
  have hlines := isDirective_pair hmatch hread
  have hshows := fun k hk => Line.shows_nothing_of_isDirective (hlines k hk).1
  constructor
  case nodes => exact map_entry_nodes_without (fun k hk _ => (hshows k hk).1) fun k hk _ =>
    (hshows k hk).2.1
  case edges =>
    rw [map_unplaced_edges, map_unplaced_edges]
    exact links_without fun k hk _ => (hshows k hk).2.2
  case styles => exact styles_without fun k hk _ => (hlines k hk).2
  case subgraphs =>
    have hothers : b.subgraphs.filter (fun h => h.opening ∉ [g.opening, g.closing]) =
        b.subgraphs.filter fun h => h ≠ g := by
      refine List.filter_congr fun h hh => ?_
      have hiff : h.opening = g.opening ↔ h = g := ⟨eq_of_opening hh hg, congrArg _⟩
      simp [hiff, hmatch.ne (matches_of_mem_subgraphs hh)]
    rw [subgraphs_without (paired_pair hmatch), hothers, List.forall₂_map_right_iff,
      List.forall₂_same]
    intro h hh
    obtain ⟨hmem, hne⟩ := List.mem_filter.1 hh
    exact remains_keptGroup hg hmem (of_decide_eq_true hne)

/-! ## The edit -/

theorem deleteSubgraph_eq {id : Text} (hg : b.subgraph? id = some g) : b.deleteSubgraph id =
    (b.zipIdx.filter fun entry => !List.contains [g.opening, g.closing] entry.2).map fun entry =>
      if g.encloses entry.2 then dedent entry.1 else entry.1 := by
  rw [deleteSubgraph, hg]
  refine congrArg (List.map _) (List.filter_congr fun entry _ => ?_)
  rw [Bool.eq_iff_iff]
  simp

theorem map_view_deleteSubgraph {id : Text} (hg : b.subgraph? id = some g) :
    (b.deleteSubgraph id).map Line.view = (b.without [g.opening, g.closing]).map Line.view := by
  rw [deleteSubgraph_eq hg, without, List.map_map, List.map_map]
  refine List.map_congr_left fun entry _ => ?_
  show Line.view (if g.encloses entry.2 then dedent entry.1 else entry.1) = Line.view entry.1
  split
  · exact view_dedent entry.1
  · rfl

theorem lineFeed_not_mem_deleteSubgraph {id : Text} (h : ∀ line ∈ b, '\n' ∉ line) :
    ∀ line ∈ b.deleteSubgraph id, '\n' ∉ line := by
  unfold deleteSubgraph
  split
  · exact h
  · next g _ =>
    intro line hline
    obtain ⟨⟨kept, i⟩, hentry, rfl⟩ := List.mem_map.1 hline
    have hfree := h kept (List.fst_mem_of_mem_zipIdx (List.mem_filter.1 hentry).1)
    dsimp only
    split
    · obtain ⟨x, hx, -⟩ := exists_eq_append_dedent kept
      rw [hx] at hfree
      exact fun hmem => hfree (List.mem_append_right x hmem)
    · exact hfree

/-- Deleting a subgraph dissolves the group and leaves everything else: the nodes, the edges up to
their lines, the styles, and the other subgraphs. Only the one directly around it has further
members, its own and those of the deleted one in the order of their lines. -/
theorem deleteSubgraph_isDissolved {t id : Text} (h : (ofText t).subgraph? id = some g) :
    ∃ t', Command.run t (.deleteSubgraph id) = .ok t' ∧ IsDissolved g (ofText t) (ofText t') := by
  refine ⟨_, rfl, ?_⟩
  have hg := isDissolved_without (mem_of_subgraph? h)
  exact (hg.of_alike (alike_of_views (map_view_deleteSubgraph h))).of_alike
    (alike_ofText_toText (lineFeed_not_mem_deleteSubgraph fun line hline =>
      not_mem_of_mem_ofText hline))

/-- The members of an inner subgraph, which is opened under the same identifier once more, go to the
one around it. -/
theorem deleteSubgraph_isDissolved_of_nested :
    let t := ("subgraph P\nX\nsubgraph G [g]\n\tA --> B\nsubgraph G\nC\nend\n" ++
      "subgraph\nD\nend\nend\nend\nsubgraph U\nE").toList
    let g := Subgraph.mk "G".toList "g".toList ["A".toList, "B".toList] 2 10
    (ofText t).subgraph? "G".toList = some g ∧
      ∃ t', Command.run t (.deleteSubgraph "G".toList) = .ok t' ∧
        IsDissolved g (ofText t) (ofText t') := by
  intro t g
  have hg : (ofText t).subgraph? "G".toList = some g := by decide +kernel
  exact ⟨hg, deleteSubgraph_isDissolved hg⟩

end Buffer
end Chartwright
