import Chartwright.Proofs.Edit.AddMember
/-!
A node that is removed from a subgraph.

The bare mentions of the node inside go, those in inner subgraphs included, and so does its
declaration if it is the only one inside that stands alone on its line (`released`). All these lines
hold the node alone, so every subgraph inside keeps its other members, and keeps the node if another
of its lines names it (`loses_keptGroup`). The declaration is put in behind the closing line, and
changes no subgraph that lies before it (`removeMember_isReleased`).
-/
namespace Chartwright

namespace Buffer

variable {b b' : Buffer} {gone : List Nat} {id node : Text} {line : Line} {g g' h h' : Subgraph}
  {i k : Nat}

/-! ## The lines that go -/

/-- The numbers of the lines inside a subgraph that hold nothing but a declaration of the node. -/
def standaloneInside (b : Buffer) (g : Subgraph) (node : Text) : List Nat :=
  (b.standalone node).filter g.encloses

/-- The numbers of the lines inside a subgraph that hold the bare node. -/
def bareInside (b : Buffer) (g : Subgraph) (node : Text) : List Nat :=
  (b.numbers fun line => Text.trim line = node).filter g.encloses

/-- The numbers of the lines that go when the node is removed: the bare mentions, and the
declaration that is the only one.
-/
def released (b : Buffer) (g : Subgraph) (node : Text) : List Nat :=
  if (b.standaloneInside g node).length = 1 then b.standaloneInside g node ++ b.bareInside g node
  else b.bareInside g node

theorem mem_standaloneInside : k ∈ b.standaloneInside g node ↔
    g.encloses k = true ∧ k < b.length ∧ isStandalone node (b.line k) = true := by
  rw [standaloneInside, List.mem_filter, standalone, mem_numbers_iff, and_comm]

theorem mem_bareInside :
    k ∈ b.bareInside g node ↔ g.encloses k = true ∧ k < b.length ∧ Text.trim (b.line k) = node := by
  rw [bareInside, List.mem_filter, mem_numbers_iff, decide_eq_true_eq, and_comm]

theorem standalone_of_sole (h : b.standaloneInside g node = [i]) :
    g.encloses i = true ∧ i < b.length ∧ isStandalone node (b.line i) = true :=
  mem_standaloneInside.1 (h ▸ List.mem_singleton_self i)

theorem released_of_sole (h : b.standaloneInside g node = [i]) :
    b.released g node = i :: b.bareInside g node := by
  rw [released, h, List.length_singleton, if_pos rfl, List.singleton_append]

theorem released_of_not_sole (h : ∀ i, b.standaloneInside g node ≠ [i]) :
    b.released g node = b.bareInside g node := by
  refine if_neg fun hone => ?_
  obtain ⟨i, hi⟩ := List.length_eq_one_iff.1 hone
  exact h i hi

theorem mem_released :
    k ∈ b.released g node ↔ b.standaloneInside g node = [k] ∨ k ∈ b.bareInside g node := by
  by_cases hsole : ∃ i, b.standaloneInside g node = [i]
  · obtain ⟨i, hi⟩ := hsole
    rw [released_of_sole hi, hi, List.mem_cons, List.cons.injEq, eq_comm, and_iff_left rfl]
  · have hnone : ∀ i, b.standaloneInside g node ≠ [i] := fun i hi => hsole ⟨i, hi⟩
    rw [released_of_not_sole hnone, or_iff_right (hnone k)]

theorem encloses_of_mem_released (hk : k ∈ b.released g node) :
    g.encloses k = true ∧ k < b.length := by
  rcases mem_released.1 hk with hsole | hbare
  · obtain ⟨hin, hlt, -⟩ := standalone_of_sole hsole
    exact ⟨hin, hlt⟩
  · obtain ⟨hin, hlt, -⟩ := mem_bareInside.1 hbare
    exact ⟨hin, hlt⟩

theorem place_released (node : Text) (hg : g ∈ b.subgraphs) :
    numberWithout (b.released g node) (g.closing + 1) ≤ (b.without (b.released g node)).length := by
  rw [length_without]
  exact numberWithout_le _ (stack_closing hg).1

/-- The edit, when the subgraph has the node as a member. -/
theorem removeMember_eq (hg : b.subgraph? id = some g) (hmem : node ∈ g.members) :
    (∃ i, b.standaloneInside g node = [i] ∧ b.removeMember id node =
      (b.without (b.released g node)).insertAt (numberWithout (b.released g node) (g.closing + 1))
        [Line.indent (b.line g.closing) ++ Text.trim (b.line i)]) ∨
    ((∀ i, b.standaloneInside g node ≠ [i]) ∧
      b.removeMember id node = b.without (b.released g node)) := by
  rw [removeMember, hg]
  dsimp only
  rw [if_neg (by simpa using hmem)]
  split
  · next i hsole =>
    have hsole : b.standaloneInside g node = [i] := hsole
    have hbefore : ∀ k ∈ b.released g node, k < g.closing + 1 := fun k hk => by
      have hin := (encloses_of_mem_released hk).1
      rw [Subgraph.encloses, Bool.and_eq_true, decide_eq_true_eq, decide_eq_true_eq] at hin
      omega
    have hplace : g.closing + 1 ≤ b.length := (stack_closing (mem_of_subgraph? hg)).1
    refine .inl ⟨i, hsole, ?_⟩
    rw [← without_insertAt_of_lt hplace hbefore, released_of_sole hsole]
    rfl
  · next hnone =>
    have hnone : ∀ i, b.standaloneInside g node ≠ [i] := hnone
    rw [released_of_not_sole hnone]
    exact .inr ⟨hnone, rfl⟩

section Named

variable (hnode : Identifier.valid node = true) (hname : Keyword.isKeyword node = false)

include hnode hname

theorem holdsAlone_of_mem_released (hk : k ∈ b.released g node) :
    Line.HoldsAlone node (b.line k) := by
  rcases mem_released.1 hk with hsole | hbare
  · obtain ⟨-, -, hstands⟩ := standalone_of_sole hsole
    exact Line.holdsAlone_of_isStandalone hstands
  · exact Line.holdsAlone_of_trim_eq hnode hname (mem_bareInside.1 hbare).2.2

theorem plain_released (b : Buffer) (g : Subgraph) : Plain b (b.released g node) := fun _ hk =>
  have halone := holdsAlone_of_mem_released hnode hname hk
  ⟨halone.opens, halone.closes⟩

end Named

/-! ## The subgraphs without them -/

/-- A subgraph without lines that hold the node alone. -/
structure Loses (b : Buffer) (gone : List Nat) (node : Text) (h h' : Subgraph) : Prop where
  id : h'.id = h.id
  title : h'.title = h.title
  opening : h'.opening = numberWithout gone h.opening
  closing : h'.closing = numberWithout gone h.closing
  others : h'.members.filter (fun name => name ≠ node) = h.members.filter fun name => name ≠ node
  keeps : node ∈ h'.members ↔ ∃ k ∉ gone, Innermost b h.opening k ∧
      node ∈ Line.identifiers (b.line k)
  untouched : (∀ k ∈ gone, ¬ Innermost b h.opening k) → h'.members = h.members

theorem lt_length_of_mem_identifiers (h : node ∈ Line.identifiers (b.line k)) : k < b.length := by
  refine Nat.lt_of_not_le fun hge => ?_
  rw [Buffer.line, List.getElem?_eq_none hge] at h
  cases h

theorem loses_keptGroup (hplain : Plain b gone)
    (halone : ∀ k ∈ gone, Line.identifiers (b.line k) = [node]) (hh : h ∈ b.subgraphs) :
    Loses b gone node h (keptGroup b gone h) := by
  have hkept : (keptGroup b gone h).members =
      distinct (((linesOf b h.opening).filter fun k => k ∉ gone).flatMap fun k =>
        Line.identifiers (b.line k)) :=
    congrArg distinct (keptMembersOf_plain hplain h.opening)
  refine ⟨rfl, rfl, rfl, rfl, ?_, ?_, fun hnone => ?_⟩
  · have hfilter : ∀ names : List Text, (distinct names).filter (fun name => name ≠ node) =
        distinct (names.filter fun name => name ≠ node) :=
      fun names => (distinctBy_filter id node names).symm
    rw [hkept, members_eq hh, membersOf, hfilter, hfilter, List.filter_flatMap, List.filter_flatMap,
      flatMap_filter_eq]
    congr 1
    refine List.flatMap_congr fun k _ => ?_
    split
    · rfl
    · next hgone =>
      have hgone : k ∈ gone := by simpa using hgone
      rw [halone k hgone, List.filter_cons_of_neg (by simp), List.filter_nil]
  · rw [hkept, mem_distinct_iff, List.mem_flatMap]
    refine exists_congr fun k => ?_
    rw [List.mem_filter, mem_linesOf_iff, decide_eq_true_eq]
    constructor
    · rintro ⟨⟨⟨-, hinner⟩, hleft⟩, hnames⟩
      exact ⟨hleft, hinner, hnames⟩
    · rintro ⟨hleft, hinner, hnames⟩
      exact ⟨⟨⟨lt_length_of_mem_identifiers hnames, hinner⟩, hleft⟩, hnames⟩
  · have hlines : (linesOf b h.opening).filter (fun k => k ∉ gone) = linesOf b h.opening := by
      refine List.filter_eq_self.2 fun k hk => ?_
      exact decide_eq_true fun hgone => hnone k hgone (mem_linesOf_iff.1 hk).2
    rw [hkept, hlines, members_eq hh, membersOf]

/-! ## The node in the subgraph itself -/

/-- A line that names something is neither the opening nor the closing line. -/
theorem encloses_of_spans (hg : g ∈ b.subgraphs) (hspans : g.spans k = true)
    (hnames : node ∈ Line.identifiers (b.line k)) : g.encloses k = true := by
  obtain ⟨o, rest, hread, -⟩ := read?_opening hg
  have hopening : k ≠ g.opening := by
    rintro rfl
    rw [Line.identifiers_of_isDirective (Line.isDirective_of_opening hread)] at hnames
    cases hnames
  have hclosing : k ≠ g.closing := by
    rintro rfl
    rw [Line.identifiers_of_isDirective
        (Line.isDirective_of_closesSubgraph (matches_of_mem_subgraphs hg).closes)] at hnames
    cases hnames
  rw [Subgraph.spans, Bool.and_eq_true, decide_eq_true_eq, decide_eq_true_eq] at hspans
  rw [Subgraph.encloses, Bool.and_eq_true, decide_eq_true_eq, decide_eq_true_eq]
  omega

theorem encloses_of_innermost (hg : g ∈ b.subgraphs) (hinner : Innermost b g.opening k)
    (hnames : node ∈ Line.identifiers (b.line k)) : g.encloses k = true := by
  have hlt := lt_length_of_mem_identifiers hnames
  exact encloses_of_spans hg (spans_of_innermost? hg hlt ((innermost_iff hlt).1 hinner)) hnames

theorem mem_identifiers_of_isStandalone (h : isStandalone node line = true) :
    node ∈ Line.identifiers line := by
  rw [(Line.holdsAlone_of_isStandalone h).identifiers]
  exact List.mem_singleton_self node

theorem trim_ne_of_isStandalone (h : isStandalone node line = true) : Text.trim line ≠ node := by
  obtain ⟨d, -, rfl, htrim⟩ := Line.isStandalone_iff.1 h
  have hopener : d.bracket.opener ≠ [] := by cases d.bracket <;> decide
  simp [htrim, Declaration.written, hopener]

/-- If all lines of the subgraph that name the node hold it alone, it is a member no longer, unless
a declaration on one of them is not the only one inside. -/
theorem not_mem_iff_of_alone (hg : g ∈ b.subgraphs) (hloses : Loses b (b.released g node) node g g')
    (halone : ∀ k, Innermost b g.opening k → node ∈ Line.identifiers (b.line k) →
      Text.trim (b.line k) = node ∨ isStandalone node (b.line k) = true) :
    node ∉ g'.members ↔ ∀ k, Innermost b g.opening k → isStandalone node (b.line k) = true →
      b.standaloneInside g node = [k] := by
  rw [hloses.keeps]
  constructor
  · intro hnone k hinner hstands
    have hgone : k ∈ b.released g node := Decidable.of_not_not fun hleft =>
      hnone ⟨k, hleft, hinner, mem_identifiers_of_isStandalone hstands⟩
    exact (mem_released.1 hgone).resolve_right fun hbare =>
      trim_ne_of_isStandalone hstands (mem_bareInside.1 hbare).2.2
  · rintro hsole ⟨k, hleft, hinner, hnames⟩
    refine hleft (mem_released.2 ?_)
    rcases halone k hinner hnames with hbare | hstands
    · exact .inr (mem_bareInside.2 ⟨encloses_of_innermost hg hinner hnames,
        lt_length_of_mem_identifiers hnames, hbare⟩)
    · exact .inl (hsole k hinner hstands)

/-! ## The edit -/

/-- What a buffer is after a node has been removed from a subgraph. The subgraphs inside lose the
lines that go, and nothing else; the only declaration inside that stands alone on its line is moved
behind the subgraph, and all others are as before.
-/
structure IsReleased (id node : Text) (g g' : Subgraph) (b b' : Buffer) : Prop where
  found : b'.subgraph? id = some g'
  itself : Loses b (b.released g node) node g g'
  inner : ∀ h ∈ b.subgraphs, g.opening ≤ h.opening → h.closing ≤ g.closing →
    ∃ h' ∈ b'.subgraphs, Loses b (b.released g node) node h h'
  direct : (∀ k, Innermost b g.opening k → node ∈ Line.identifiers (b.line k) →
      Text.trim (b.line k) = node ∨ isStandalone node (b.line k) = true) →
    (node ∉ g'.members ↔ ∀ k, Innermost b g.opening k → isStandalone node (b.line k) = true →
      b.standaloneInside g node = [k])
  relocated : ∀ i, b.standaloneInside g node = [i] →
    (Line.declarations (b'.line (g'.closing + 1))).map Declaration.content =
        (Line.declarations (b.line i)).map Declaration.content ∧
      b'.declared.Perm b.declared ∧ ∀ k ∈ b'.standalone node, g'.spans k = false
  kept : (∀ i, b.standaloneInside g node ≠ [i]) → b'.declared = b.declared

section Released

variable (hnode : Identifier.valid node = true) (hname : Keyword.isKeyword node = false)

include hnode hname

theorem identifiers_of_mem_released (hk : k ∈ b.released g node) :
    Line.identifiers (b.line k) = [node] :=
  (holdsAlone_of_mem_released hnode hname hk).identifiers

theorem numberWithout_closing (hg : g ∈ b.subgraphs) :
    numberWithout (b.released g node) (g.closing + 1) =
      numberWithout (b.released g node) g.closing + 1 := by
  have hkept :=
    (plain_released hnode hname b g).not_mem_of_closes (matches_of_mem_subgraphs hg).closes
  rw [numberWithout_succ, if_neg hkept]

theorem declared_without_bare (hnone : ∀ i, b.standaloneInside g node ≠ [i]) :
    (b.without (b.released g node)).declared = b.declared := by
  refine flatMap_without fun k hk _ => ?_
  obtain ⟨-, -, hbare⟩ := mem_bareInside.1 ((mem_released.1 hk).resolve_left (hnone k))
  exact Line.declared_of_trim_eq hnode hname hbare

theorem declared_without_released (hsole : b.standaloneInside g node = [i]) :
    (b.without (b.released g node)).declared = (b.without [i]).declared := by
  refine flatMap_without_congr (List.forall_mem_singleton.2 (mem_released.2 (.inl hsole)))
    fun k hk hki _ => ?_
  have hbare := (mem_released.1 hk).resolve_left fun hself =>
    hki (by rw [← hsole, hself]; exact List.mem_singleton_self k)
  exact Line.declared_of_trim_eq hnode hname (mem_bareInside.1 hbare).2.2

theorem isReleased_of_bare (hg : b.subgraph? id = some g)
    (hnone : ∀ i, b.standaloneInside g node ≠ [i]) :
    IsReleased id node g (keptGroup b (b.released g node) g) b (b.without (b.released g node)) := by
  have hmem := mem_of_subgraph? hg
  have hplain := plain_released hnode hname b g
  have hloses : ∀ h ∈ b.subgraphs,
      Loses b (b.released g node) node h (keptGroup b (b.released g node) h) :=
    fun h hh => loses_keptGroup hplain (fun k hk => identifiers_of_mem_released hnode hname hk) hh
  constructor
  case found => exact subgraph?_without_plain hplain hg
  case itself => exact hloses g hmem
  case inner =>
    intro h hh _ _
    rw [subgraphs_without_plain hplain]
    exact ⟨_, List.mem_map_of_mem hh, hloses h hh⟩
  case direct => exact not_mem_iff_of_alone hmem (hloses g hmem)
  case relocated => exact fun i hsole => absurd hsole (hnone i)
  case kept => exact fun _ => declared_without_bare hnode hname hnone

/-- A declaration that stands alone on its line is not left inside. -/
theorem not_spans_of_standalone (hg : g ∈ b.subgraphs) (hsole : b.standaloneInside g node = [i])
    {n : Nat} (hn : n < (b.without (b.released g node)).length)
    (hstands : isStandalone node ((b.without (b.released g node)).line n) = true) :
    (keptGroup b (b.released g node) g).spans n = false := by
  obtain ⟨k, hk, hkept, rfl, hline⟩ := exists_of_line_without hn
  rw [hline] at hstands
  refine Bool.eq_false_iff.2 fun hspans => hkept (mem_released.2 (.inl ?_))
  have hclosing :=
    (plain_released hnode hname b g).not_mem_of_closes (matches_of_mem_subgraphs hg).closes
  rw [Subgraph.spans, Bool.and_eq_true, decide_eq_true_eq, decide_eq_true_eq] at hspans
  have hold : g.spans k = true := by
    rw [Subgraph.spans, Bool.and_eq_true, decide_eq_true_eq, decide_eq_true_eq]
    exact ⟨(numberWithout_le_iff hkept).1 hspans.1, (numberWithout_le_iff hclosing).1 hspans.2⟩
  have hin := encloses_of_spans hg hold (mem_identifiers_of_isStandalone hstands)
  have hmem : k ∈ b.standaloneInside g node := mem_standaloneInside.2 ⟨hin, hk, hstands⟩
  rw [hsole, List.mem_singleton] at hmem
  rw [hsole, hmem]

/-- Nor is it where it is put in. -/
theorem not_spans_of_moved (hg : g ∈ b.subgraphs) (hsole : b.standaloneInside g node = [i])
    (hk : k ∈ standalone ((b.without (b.released g node)).insertAt
      (numberWithout (b.released g node) (g.closing + 1)) [line]) node) :
    (keptGroup b (b.released g node) g).spans k = false := by
  have hplace := place_released node hg
  by_cases hbefore : k < numberWithout (b.released g node) (g.closing + 1)
  · obtain ⟨-, hstands⟩ := mem_numbers_iff.1 hk
    have hfront :
        k <
        ((b.without (b.released g node)).take
        (numberWithout (b.released g node) (g.closing + 1))).length := by
      rwa [List.length_take_of_le hplace]
    have hsame := line_insertAt (b.without (b.released g node))
      (numberWithout (b.released g node) (g.closing + 1)) line k
    rw [moved, if_pos hfront] at hsame
    rw [hsame] at hstands
    exact not_spans_of_standalone hnode hname hg hsole (Nat.lt_of_lt_of_le hbefore hplace) hstands
  · have hclosing : (keptGroup b (b.released g node) g).closing + 1 = _ :=
      (numberWithout_closing hnode hname hg).symm
    rw [Subgraph.spans, Bool.and_eq_false_iff, decide_eq_false_iff_not, decide_eq_false_iff_not]
    omega

theorem perm_declared_of_moved (hsole : b.standaloneInside g node = [i])
    (hdeclared : (Line.declarations line).map Declaration.content =
    (Line.declarations (b.line i)).map Declaration.content)
    (n : Nat) : ((b.without (b.released g node)).insertAt n [line]).declared.Perm b.declared := by
  have hin := (putIn_insertAt line (b.without (b.released g node)) n).perm_declared
  have hout := (putIn_eraseIdx (standalone_of_sole hsole).2.1).perm_declared
  rw [eraseIdx_eq_without] at hout
  rw [hdeclared, declared_without_released hnode hname hsole] at hin
  exact hin.trans hout.symm

theorem isReleased_of_moved {indent : Text} (hindent : ∀ c ∈ indent, Text.isBlank c = true)
    (hg : b.subgraph? id = some g) (hsole : b.standaloneInside g node = [i]) :
    IsReleased id node g (keptGroup b (b.released g node) g) b
      ((b.without (b.released g node)).insertAt (numberWithout (b.released g node) (g.closing + 1))
        [indent ++ Text.trim (b.line i)]) := by
  have hmem := mem_of_subgraph? hg
  obtain ⟨-, -, hstands⟩ := standalone_of_sole hsole
  have hview := Line.view_reindent hindent (Line.not_isDirective_of_isStandalone hstands)
  have halone := (Line.holdsAlone_of_isStandalone hstands).of_view hview
  have hdeclared : (Line.declarations (indent ++ Text.trim (b.line i))).map Declaration.content =
      (Line.declarations (b.line i)).map Declaration.content := congrArg Line.View.declared hview
  have hplain := plain_released hnode hname b g
  have hplace := place_released node hmem
  have hnext := numberWithout_closing hnode hname hmem
  have hloses : ∀ h ∈ b.subgraphs,
      Loses b (b.released g node) node h (keptGroup b (b.released g node) h) :=
    fun h hh => loses_keptGroup hplain (fun k hk => identifiers_of_mem_released hnode hname hk) hh
  constructor
  case found =>
    refine subgraph?_insertAt_behind hplace halone.opens halone.closes
      (subgraph?_without_plain hplain hg) ?_
    exact Nat.lt_of_lt_of_eq (Nat.lt_succ_self _) hnext.symm
  case itself => exact hloses g hmem
  case inner =>
    intro h hh _ hle
    refine ⟨_, mem_subgraphs_insertAt hplace halone.opens halone.closes ?_ ?_, hloses h hh⟩
    · rw [subgraphs_without_plain hplain]
      exact List.mem_map_of_mem hh
    · exact Nat.lt_of_le_of_lt (numberWithout_le _ hle)
        (Nat.lt_of_lt_of_eq (Nat.lt_succ_self _) hnext.symm)
  case direct => exact not_mem_iff_of_alone hmem (hloses g hmem)
  case relocated =>
    intro j hj
    obtain rfl : i = j := (List.cons.inj (hsole.symm.trans hj)).1
    refine ⟨?_, perm_declared_of_moved hnode hname hsole hdeclared _, fun k =>
      not_spans_of_moved hnode hname hmem hsole⟩
    rw [show (keptGroup b (b.released g node) g).closing + 1 = _ from hnext.symm,
      line_insertAt_self hplace, hdeclared]
  case kept => exact fun hnone => absurd hsole (hnone i)

theorem isReleased_removeMember (hlines : ∀ line ∈ b, '\n' ∉ line) (hg : b.subgraph? id = some g)
    (hmem : node ∈ g.members) :
    ∃ g', IsReleased id node g g' b (b.removeMember id node) := by
  refine ⟨keptGroup b (b.released g node) g, ?_⟩
  rcases removeMember_eq hg hmem with ⟨i, hsole, hedit⟩ | ⟨hnone, hedit⟩
  · rw [hedit]
    exact isReleased_of_moved hnode hname
      (fun c hc => (blank_of_mem_indent hlines g.closing c hc).1) hg hsole
  · rw [hedit]
    exact isReleased_of_bare hnode hname hg hnone

end Released

theorem lineFeed_not_mem_removeMember (hlines : ∀ line ∈ b, '\n' ∉ line) :
    ∀ line ∈ b.removeMember id node, '\n' ∉ line := by
  intro line hline
  unfold removeMember at hline
  split at hline
  · exact hlines line hline
  · next g _ =>
    split at hline
    · exact hlines line hline
    · dsimp only at hline
      split at hline
      · next i _ =>
        rcases mem_insertAt.1 (mem_of_mem_without hline) with hold | hnew
        · exact hlines line hold
        · rw [List.mem_singleton.1 hnew, List.mem_append, not_or]
          exact ⟨fun hmem => (blank_of_mem_indent hlines g.closing _ hmem).2 rfl,
            fun hmem => lineFeed_not_mem_line hlines i (Text.mem_of_mem_trim hmem)⟩
      · exact hlines line (mem_of_mem_without hline)

/-- A node that is removed from a subgraph is taken off all lines inside that hold nothing else, of
inner subgraphs too, unless several declarations of it stand alone there. -/
theorem removeMember_isReleased {t : Text} (hg : (ofText t).subgraph? id = some g)
    (hnode : Identifier.valid node = true) (hname : Keyword.isKeyword node = false)
    (hmem : node ∈ g.members) :
    ∃ t', Command.run t (.removeMember id node) = .ok t' ∧
      ∃ g', IsReleased id node g g' (ofText t) (ofText t') := by
  have hlines : ∀ line ∈ ofText t, '\n' ∉ line := fun line hline => not_mem_of_mem_ofText hline
  obtain ⟨g', hreleased⟩ := isReleased_removeMember hnode hname hlines hg hmem
  have hne : (ofText t).removeMember id node ≠ [] := by
    intro hnil
    have hfound := hreleased.found
    rw [hnil] at hfound
    cases hfound
  refine ⟨_, rfl, g', ?_⟩
  rw [Command.onLines, ofText_toText hne (lineFeed_not_mem_removeMember hlines)]
  exact hreleased

/-- The declaration is in an inner subgraph, and the node is mentioned around it, linked and
declared behind. -/
theorem removeMember_isReleased_of_nested :
    let t :=
  "subgraph G [g]\n\tA\nsubgraph H\nA\n  A[a] \nB\nend\nA --> B\nend\nA[x]\nsubgraph U".toList
    let g := Subgraph.mk "G".toList "g".toList ["A".toList, "B".toList] 0 8
    (ofText t).subgraph? "G".toList = some g ∧ "A".toList ∈ g.members ∧
      ∃ t', Command.run t (.removeMember "G".toList "A".toList) = .ok t' ∧
        ∃ g', IsReleased "G".toList "A".toList g g' (ofText t) (ofText t') := by
  intro t g
  have hg : (ofText t).subgraph? "G".toList = some g := by decide +kernel
  have hmem : "A".toList ∈ g.members := by decide
  exact ⟨hg, hmem, removeMember_isReleased hg (by decide) (by decide) hmem⟩

/-- A bare mention goes from an inner subgraph too. And with a declaration alone on its line in the
subgraph and another one in an inner subgraph, the node stays a member. -/
theorem loses_inner_mention_and_keeps_several :
    let mentioned := "subgraph G\nA\nsubgraph H\nA\nend\nend".toList
    let declared := "subgraph G\nA[a]\nsubgraph H\nA[b]\nend\nend".toList
    (∃ t', Command.run mentioned (.removeMember "G".toList "A".toList) = .ok t' ∧
      (ofText mentioned).subgraphs =
        [⟨"H".toList, "H".toList, ["A".toList], 2, 4⟩,
          ⟨"G".toList, "G".toList, ["A".toList], 0, 5⟩] ∧
      (ofText t').subgraphs =
        [⟨"H".toList, "H".toList, [], 1, 2⟩, ⟨"G".toList, "G".toList, [], 0, 3⟩]) ∧
    ∃ t', Command.run declared (.removeMember "G".toList "A".toList) = .ok t' ∧
      (ofText declared).subgraph? "G".toList = some ⟨"G".toList, "G".toList, ["A".toList], 0, 5⟩ ∧
      (ofText t').subgraph? "G".toList = some ⟨"G".toList, "G".toList, ["A".toList], 0, 5⟩ := by
  intro mentioned declared
  refine ⟨⟨"subgraph G\nsubgraph H\nend\nend".toList, ?_⟩, declared, ?_⟩
  · exact ⟨by decide +kernel, by decide +kernel, by decide +kernel⟩
  · exact ⟨by decide +kernel, by decide +kernel, by decide +kernel⟩

end Buffer
end Chartwright
