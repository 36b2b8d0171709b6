import Chartwright.Proofs.Buffer.Matching
/-!
The subgraphs of a buffer, by its matching lines.

Each frame on the stack of the scan collects the identifiers on the lines whose innermost opening is
the frame's (`tracks_of_mem`), and each closing line turns the frame on top into a subgraph, if the
frame has a head (`closed_concat`). So the subgraphs are the pairs of matching lines whose opening
names an identifier, in the order of the closing lines, with what stands on the lines between them
and in no inner pair (`subgraphs_eq_matching`).
-/
namespace Chartwright

namespace Buffer

variable {b : Buffer} {line : Line} {i j k : Nat}

/-! ## The lines of an opening -/

/-- The numbers of the lines whose innermost opening is line `i`. -/
def linesOf (b : Buffer) (i : Nat) : List Nat :=
  (List.range b.length).filter fun k => innermost? b k = some i

/-- The identifiers on those lines, repeats included. -/
def membersOf (b : Buffer) (i : Nat) : List Text :=
  (linesOf b i).flatMap fun k => Line.identifiers (b.line k)

/-- The subgraph that opens on line `i` and closes on line `j`, if the opening names an
identifier. -/
def group? (b : Buffer) (i j : Nat) : Option Subgraph :=
  (Opening.read? (b.line i)).map fun (o, _) => ⟨o.id, o.caption, distinct (membersOf b i), i, j⟩

theorem line_append_of_lt (h : k < b.length) (y : Buffer) : Buffer.line (b ++ y) k = b.line k := by
  rw [Buffer.line, Buffer.line, List.getElem?_append_left h]

theorem innermost?_append (h : k < b.length) (y : Buffer) :
    innermost? (b ++ y) k = innermost? b k := by
  rw [innermost?, innermost?, line_append_of_lt h, List.take_append_of_le_length (Nat.le_of_lt h)]

theorem innermost?_concat (b : Buffer) (line : Line) :
    innermost? (b ++ [line]) b.length =
      if Line.opensSubgraph line then some b.length else b.stack.head? := by
  rw [innermost?, line_append_cons, List.take_left']
  rfl

theorem innermost?_le (h : innermost? b k = some i) : i ≤ k := by
  rw [innermost?] at h
  split at h
  · exact Nat.le_of_eq (Option.some.inj h).symm
  · have hlt := (pairwise_stack (b.take k)).1 i (List.mem_of_mem_head? h)
    rw [List.length_take] at hlt
    omega

theorem linesOf_concat (b : Buffer) (line : Line) (i : Nat) :
    linesOf (b ++ [line]) i =
      linesOf b i ++ if innermost? (b ++ [line]) b.length = some i then [b.length] else [] := by
  have hbefore : ∀ k ∈ List.range b.length,
      decide (innermost? (b ++ [line]) k = some i) = decide (innermost? b k = some i) :=
    fun k hk => by
    rw [innermost?_append (List.mem_range.1 hk)]
  rw [linesOf, List.length_append, List.length_singleton, List.range_succ, List.filter_append,
    List.filter_congr hbefore, List.filter_singleton, Bool.cond_decide]
  rfl

theorem membersOf_concat (b : Buffer) (line : Line) (i : Nat) :
    membersOf (b ++ [line]) i =
      membersOf b i ++
        if innermost? (b ++ [line]) b.length = some i then Line.identifiers line else [] := by
  have hbefore : ∀ k ∈ linesOf b i, Line.identifiers (Buffer.line (b ++ [line]) k) =
      Line.identifiers (b.line k) :=
    fun k hk => by rw [line_append_of_lt (List.mem_range.1 (List.mem_filter.1 hk).1)]
  rw [membersOf, linesOf_concat, List.flatMap_append, List.flatMap_congr hbefore]
  split
  · rw [List.flatMap_singleton, line_append_cons]
    rfl
  · rfl

theorem membersOf_concat_of_directive (h : Line.isDirective line = true) (i : Nat) :
    membersOf (b ++ [line]) i = membersOf b i := by
  rw [membersOf_concat, Line.identifiers_of_isDirective h, ite_self, List.append_nil]

theorem membersOf_length (b : Buffer) : membersOf b b.length = [] := by
  have hlines : linesOf b b.length = [] := by
    refine List.filter_eq_nil_iff.2 fun k hk => ?_
    rw [decide_eq_true_eq]
    intro h
    exact absurd (innermost?_le h) (Nat.not_le.2 (List.mem_range.1 hk))
  rw [membersOf, hlines, List.flatMap_nil]

theorem group?_concat (h : Matches b i j) (line : Line) :
    group? (b ++ [line]) i j = group? b i j := by
  have hi := lt_length_of_opens h.opens
  have houtside : innermost? (b ++ [line]) b.length ≠ some i := by
    rw [innermost?_concat]
    split
    · exact fun heq => absurd (Option.some.inj heq) (Nat.ne_of_gt hi)
    · intro heq
      have hmem : i ∈ stack (b.take b.length) := by
        rw [List.take_length]
        exact List.mem_of_mem_head? heq
      exact ((mem_stack_iff (Nat.le_refl _)).1 hmem).2.2 j (lt_length_of_closes h.closes) h
  rw [group?, group?, line_append_of_lt hi, membersOf_concat, if_neg houtside, List.append_nil]

/-! ## The frames of the scan -/

/-- A frame has the head that its opening line names, and what stands on the lines of that
opening. -/
structure Tracks (b : Buffer) (f : Subgraph.Frame) : Prop where
  head : f.head = (Opening.read? (b.line f.opening)).map fun (o, _) => (o.id, o.caption)
  members : f.head.isSome = true → f.members = membersOf b f.opening

theorem Tracks.concat {f : Subgraph.Frame} (h : Tracks b f) (hlt : f.opening < b.length)
    (hmembers : membersOf (b ++ [line]) f.opening = membersOf b f.opening) :
    Tracks (b ++ [line]) f where
  head := by rw [line_append_of_lt hlt, h.head]
  members hsome := by rw [hmembers, h.members hsome]

theorem Tracks.close? {f : Subgraph.Frame} (h : Tracks b f) (j : Nat) :
    f.close? j = group? b f.opening j := by
  have hmembers := h.members
  rw [Subgraph.Frame.close?, group?, h.head]
  rw [h.head] at hmembers
  cases hread : Opening.read? (b.line f.opening) with
  | none => rfl
  | some found =>
    rw [hread] at hmembers
    simp only [Option.map_some, hmembers rfl]

theorem Tracks.ofLine (b : Buffer) (line : Line) :
    Tracks (b ++ [line]) (Subgraph.Frame.ofLine line b.length) where
  head := by rw [Subgraph.Frame.ofLine, line_append_cons]
  members hsome := by
    obtain ⟨⟨o, rest⟩, hread⟩ : ∃ found, Opening.read? line = some found := by
      rw [Subgraph.Frame.ofLine, Option.isSome_map] at hsome
      exact Option.isSome_iff_exists.1 hsome
    rw [Subgraph.Frame.ofLine, membersOf_concat_of_directive (Line.isDirective_of_opening hread),
      membersOf_length]

/-- The frames of the scan track their openings. -/
theorem tracks_of_mem (b : Buffer) : ∀ f ∈ b.nesting.frames, Tracks b f := by
  induction b using List.reverseRecOn with
  | nil => exact List.forall_mem_nil _
  | append_singleton b line ih =>
    have hbound : ∀ f ∈ (nesting b).frames, f.opening < b.length :=
      fun f hf => (pairwise_stack b).1 _ (List.mem_map_of_mem hf)
    have hfalls := (pairwise_stack b).2
    rw [nesting_concat, Subgraph.Nesting.step]
    cases hopens : Line.opensSubgraph line with
    | true =>
      rw [if_pos rfl]
      refine List.forall_mem_cons.2 ⟨.ofLine b line, fun f hf => ?_⟩
      refine (ih f hf).concat (hbound f hf) ?_
      rw [membersOf_concat, innermost?_concat, hopens, if_pos rfl, if_neg, List.append_nil]
      exact fun heq => absurd (Option.some.inj heq) (Nat.ne_of_gt (hbound f hf))
    | false =>
      rw [if_neg Bool.false_ne_true]
      have htop : innermost? (b ++ [line]) b.length = (stack b).head? := by
        rw [innermost?_concat, hopens, if_neg Bool.false_ne_true]
      rw [stack] at htop hfalls
      cases hcloses : Line.closesSubgraph line with
      | true =>
        have hkept : ∀ f ∈ (nesting b).frames, Tracks (b ++ [line]) f := fun f hf =>
          (ih f hf).concat (hbound f hf)
            (membersOf_concat_of_directive (Line.isDirective_of_closesSubgraph hcloses) f.opening)
        rw [if_pos rfl]
        cases hframes : (nesting b).frames with
        | nil => simp [hframes]
        | cons f rest =>
          rw [hframes] at hkept
          exact (List.forall_mem_cons.1 hkept).2
      | false =>
        rw [if_neg Bool.false_ne_true]
        cases hframes : (nesting b).frames with
        | nil => simp [hframes]
        | cons f rest =>
          rw [hframes] at ih hbound hfalls htop
          obtain ⟨hf, hrest⟩ := List.forall_mem_cons.1 ih
          obtain ⟨hfirst, hlater⟩ := List.forall_mem_cons.1 hbound
          obtain ⟨hbelow, -⟩ := List.pairwise_cons.1 hfalls
          -- the line belongs to the frame on top, and to no other
          refine List.forall_mem_cons.2 ⟨⟨?_, fun hsome => ?_⟩, fun g hg => ?_⟩
          · rw [line_append_of_lt hfirst, hf.head]
          · rw [membersOf_concat, htop, List.map_cons, List.head?_cons, if_pos rfl,
              hf.members hsome]
          · refine (hrest g hg).concat (hlater g hg) ?_
            rw [membersOf_concat, htop, List.map_cons, List.head?_cons, if_neg, List.append_nil]
            exact fun heq => absurd (Option.some.inj heq)
              (Nat.ne_of_gt (hbelow _ (List.mem_map_of_mem hg)))

/-! ## The subgraphs -/

/-- The subgraph that line `j` closes, if it closes one. -/
def closedOn? (b : Buffer) (j : Nat) : Option Subgraph :=
  if Line.closesSubgraph (b.line j) then (stack (b.take j)).head?.bind fun i => group? b i j
  else none

theorem closedOn?_eq_some_iff {g : Subgraph} :
    closedOn? b j = some g ↔ ∃ i, Matches b i j ∧ group? b i j = some g := by
  rw [closedOn?, Option.ite_none_right_eq_some, Option.bind_eq_some_iff]
  constructor
  · rintro ⟨hcloses, i, htop, hgroup⟩
    exact ⟨i, matches_iff.2 ⟨hcloses, htop⟩, hgroup⟩
  · rintro ⟨i, hmatch, hgroup⟩
    obtain ⟨hcloses, htop⟩ := matches_iff.1 hmatch
    exact ⟨hcloses, i, htop, hgroup⟩

theorem closedOn?_concat (h : j < b.length) (line : Line) :
    closedOn? (b ++ [line]) j = closedOn? b j := by
  rw [closedOn?, closedOn?, line_append_of_lt h, List.take_append_of_le_length (Nat.le_of_lt h)]
  split
  · next hcloses =>
    refine Option.bind_congr fun i htop => ?_
    exact group?_concat (matches_iff.2 ⟨hcloses, htop⟩) line
  · rfl

/-- What the last line closes. -/
theorem closed_concat (b : Buffer) (line : Line) :
    (nesting (b ++ [line])).closed =
      (closedOn? (b ++ [line]) b.length).toList ++ b.nesting.closed := by
  rw [closedOn?, line_append_cons, List.take_left' rfl, nesting_concat, Subgraph.Nesting.step]
  cases hcloses : Line.closesSubgraph line with
  | false =>
    rw [if_neg Bool.false_ne_true, if_neg Bool.false_ne_true]
    cases Line.opensSubgraph line with
    | true => rfl
    | false => cases b.nesting.frames <;> rfl
  | true =>
    rw [Line.not_opensSubgraph_of_closesSubgraph hcloses, if_neg Bool.false_ne_true, if_pos rfl,
      if_pos rfl, stack]
    cases hframes : (nesting b).frames with
    | nil => rfl
    | cons f rest =>
      have hmem : f ∈ (nesting b).frames := by rw [hframes]; exact List.mem_cons_self
      have htracks : Tracks (b ++ [line]) f := (tracks_of_mem b f hmem).concat
        ((pairwise_stack b).1 _ (List.mem_map_of_mem hmem))
        (membersOf_concat_of_directive (Line.isDirective_of_closesSubgraph hcloses) f.opening)
      rw [List.map_cons, List.head?_cons, Option.bind_some, ← htracks.close?]

theorem subgraphs_eq_filterMap (b : Buffer) :
    b.subgraphs = (List.range b.length).filterMap (closedOn? b) := by
  have hscan : ∀ b : Buffer, b.subgraphs = b.nesting.closed.reverse := fun _ => rfl
  rw [hscan]
  induction b using List.reverseRecOn with
  | nil => rfl
  | append_singleton b line ih =>
    have hbefore : ∀ j ∈ List.range b.length, closedOn? (b ++ [line]) j = closedOn? b j :=
      fun j hj => closedOn?_concat (List.mem_range.1 hj) line
    rw [closed_concat, List.reverse_append, ih, List.length_append, List.length_singleton,
      List.range_succ, List.filterMap_append, List.filterMap_congr hbefore]
    cases hlast : closedOn? (b ++ [line]) b.length with
    | none => simp [hlast]
    | some g => simp [hlast]

theorem mem_subgraphs_iff {g : Subgraph} :
    g ∈ b.subgraphs ↔ ∃ i j, Matches b i j ∧ group? b i j = some g := by
  rw [subgraphs_eq_filterMap, List.mem_filterMap]
  constructor
  · rintro ⟨j, -, hclosed⟩
    obtain ⟨i, hmatch, hgroup⟩ := closedOn?_eq_some_iff.1 hclosed
    exact ⟨i, j, hmatch, hgroup⟩
  · rintro ⟨i, j, hmatch, hgroup⟩
    exact ⟨j, List.mem_range.2 (lt_length_of_closes hmatch.closes),
      closedOn?_eq_some_iff.2 ⟨i, hmatch, hgroup⟩⟩

theorem exists_of_group? {g : Subgraph} (h : group? b i j = some g) :
    g.opening = i ∧ g.closing = j ∧ g.members = distinct (membersOf b i) ∧
      ∃ o rest, Opening.read? (b.line i) = some (o, rest) ∧ g.id = o.id ∧ g.title = o.caption := by
  obtain ⟨⟨o, rest⟩, hread, rfl⟩ := Option.map_eq_some_iff.1 h
  exact ⟨rfl, rfl, rfl, o, rest, hread, rfl, rfl⟩

theorem mem_subgraphs_iff_matches {g : Subgraph} :
    g ∈ b.subgraphs ↔ Matches b g.opening g.closing ∧ group? b g.opening g.closing = some g := by
  constructor
  · intro hg
    obtain ⟨i, j, hmatch, hgroup⟩ := mem_subgraphs_iff.1 hg
    obtain ⟨rfl, rfl, -⟩ := exists_of_group? hgroup
    exact ⟨hmatch, hgroup⟩
  · exact fun ⟨hmatch, hgroup⟩ => mem_subgraphs_iff.2 ⟨_, _, hmatch, hgroup⟩

theorem matches_of_mem_subgraphs {g : Subgraph} (hg : g ∈ b.subgraphs) :
    Matches b g.opening g.closing :=
  (mem_subgraphs_iff_matches.1 hg).1

theorem members_eq {g : Subgraph} (hg : g ∈ b.subgraphs) :
    g.members = distinct (membersOf b g.opening) :=
  (exists_of_group? (mem_subgraphs_iff_matches.1 hg).2).2.2.1

theorem read?_opening {g : Subgraph} (hg : g ∈ b.subgraphs) :
    ∃ o rest, Opening.read? (b.line g.opening) = some (o, rest) ∧ g.id = o.id ∧
      g.title = o.caption :=
  (exists_of_group? (mem_subgraphs_iff_matches.1 hg).2).2.2.2

theorem exists_mem_subgraphs_iff :
    (∃ g ∈ b.subgraphs, g.opening = i ∧ g.closing = j) ↔
      Matches b i j ∧ (Opening.read? (b.line i)).isSome = true := by
  constructor
  · rintro ⟨g, hg, hopening, hclosing⟩
    subst hopening hclosing
    obtain ⟨o, rest, hread, -⟩ := read?_opening hg
    exact ⟨matches_of_mem_subgraphs hg, by rw [hread]; rfl⟩
  · rintro ⟨hmatch, hread⟩
    obtain ⟨⟨o, rest⟩, hread⟩ := Option.isSome_iff_exists.1 hread
    refine ⟨⟨o.id, o.caption, distinct (membersOf b i), i, j⟩,
      mem_subgraphs_iff.2 ⟨i, j, hmatch, ?_⟩, rfl, rfl⟩
    rw [group?, hread, Option.map_some]

theorem mem_linesOf_iff : k ∈ linesOf b i ↔ k < b.length ∧ Innermost b i k := by
  rw [linesOf, List.mem_filter, List.mem_range, decide_eq_true_eq]
  exact and_congr_right fun hk => (innermost_iff hk).symm

/-- Of two subgraphs the earlier one closes first, and they do not overlap unless one lies inside of
the other. -/
theorem pairwise_subgraphs (b : Buffer) :
    b.subgraphs.Pairwise fun g h => g.closing < h.closing ∧
      (g.closing < h.opening ∨ h.opening < g.opening) := by
  rw [subgraphs_eq_filterMap, List.pairwise_filterMap]
  refine List.pairwise_lt_range.imp fun {j j'} hlt g hg h hh => ?_
  obtain ⟨i, hmatch, hgroup⟩ := closedOn?_eq_some_iff.1 hg
  obtain ⟨i', hmatch', hgroup'⟩ := closedOn?_eq_some_iff.1 hh
  obtain ⟨hi, hj, -⟩ := exists_of_group? hgroup
  obtain ⟨hi', hj', -⟩ := exists_of_group? hgroup'
  rw [hi, hj, hi', hj']
  exact ⟨hlt, hmatch.disjoint_or_nested hmatch' hlt⟩

/-- The subgraphs are the pairs of an opening that names an identifier and the `end` that it
matches, one for each pair, in the order of the closing lines; they are disjoint or nested. The
members of each are the identifiers on the lines whose innermost opening is its own, whether or not
the other openings are closed or name an identifier. -/
theorem subgraphs_eq_matching (b : Buffer) :
    (∀ i j, (∃ g ∈ b.subgraphs, g.opening = i ∧ g.closing = j) ↔
      Matches b i j ∧ (Opening.read? (b.line i)).isSome = true) ∧
    (b.subgraphs.Pairwise fun g h => g.closing < h.closing ∧
      (g.closing < h.opening ∨ h.opening < g.opening)) ∧
    ∀ g ∈ b.subgraphs,
      (∃ o rest, Opening.read? (b.line g.opening) = some (o, rest) ∧ g.id = o.id ∧
        g.title = o.caption) ∧
      ∃ lines : List Nat, lines.Pairwise (· < ·) ∧
        (∀ k, k ∈ lines ↔ k < b.length ∧ Innermost b g.opening k) ∧
          g.members = distinct (lines.flatMap fun k => Line.identifiers (b.line k)) := by
  refine ⟨fun i j => exists_mem_subgraphs_iff, pairwise_subgraphs b, fun g hg => ?_⟩
  obtain ⟨i, j, -, hgroup⟩ := mem_subgraphs_iff.1 hg
  obtain ⟨rfl, -, hmembers, hread⟩ := exists_of_group? hgroup
  exact ⟨hread, linesOf b g.opening, List.pairwise_lt_range.filter _, fun k =>
    mem_linesOf_iff, hmembers⟩

end Buffer
end Chartwright
