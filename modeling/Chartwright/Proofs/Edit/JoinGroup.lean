import Chartwright.Proofs.Buffer.Joined
import Chartwright.Proofs.Edit.InsertNode
/-!
The subgraphs after a node has been inserted.

Neither the line of the link nor the copy of a style opens or closes a subgraph, so all subgraphs
stay, and one at most gains members: the one that is open where the link is put in
(`Buffer.insertNode_isJoined`). That is the subgraph of the anchor if it has one and its last
mention inside of it is in no inner subgraph. An anchor that is a member of no subgraph may still be
mentioned in one, as by a comment, and then joins it together with the new node
(`Buffer.joins_group_of_comment`).
-/
namespace Chartwright

/-! ## The lines put in -/

namespace StyleLine

variable {indent : Text}

/-- A line for a style begins with another word than those that open or close a subgraph. -/
theorem opensSubgraph_text (hindent : ∀ c ∈ indent, Text.isBlank c = true) (id : Text) (s : Style) :
    Line.opensSubgraph (text indent id s) = false ∧
      Line.closesSubgraph (text indent id s) = false := by
  have hword : Text.trimLeft (indent ++ "style".toList) = "style".toList :=
    Text.trimLeft_append hindent (Text.stops_cons.2 (by decide))
  have hne : Text.trimLeft (indent ++ "style".toList) ≠ [] := by
    rw [hword]
    decide
  have hsplit : text indent id s = indent ++ "style".toList ++ ' ' :: (id ++ [' '] ++ s.text) := by
    simp [text, ofPairs]
  constructor
  · rw [hsplit, Line.opensSubgraph_append_cons hne (by decide), hword]
    decide
  · have hline : Text.trimLeft (text indent id s) =
        "style".toList ++ ' ' :: (id ++ [' '] ++ s.text) := by
      rw [hsplit, Text.trimLeft_append_of_ne_nil hne, hword]
    rw [Bool.eq_false_iff]
    intro hcloses
    obtain ⟨run, hrun, -⟩ := Line.exists_of_closesSubgraph hcloses
    rw [hline] at hrun
    exact absurd (List.cons.inj hrun).1 (by decide)

end StyleLine

namespace Buffer

variable {anchor id label indent : Text} {bracket : Bracket} {b b' : Buffer} {host : Option Nat}

/-- A line that begins with an identifier and a blank opens a subgraph only if that is the word for
it. -/
theorem Graft.opensSubgraph (g : Graft anchor id label bracket)
    (h : ∀ c ∈ indent, Text.isBlank c = true) :
    Line.opensSubgraph (linkFrom indent anchor id bracket label) = false := by
  have hsplit : linkFrom indent anchor id bracket label =
      indent ++
        (anchor ++ ' ' :: ("--> ".toList ++ id ++ bracket.opener ++ label ++ bracket.closer)) := by
    simp [linkFrom]
  rw [hsplit]
  exact Line.not_opensSubgraph h g.anchor_valid g.anchor_named (Text.stops_cons.2 (by decide))

theorem Graft.closesSubgraph (g : Graft anchor id label bracket)
    (h : ∀ c ∈ indent, Text.isBlank c = true) :
    Line.closesSubgraph (linkFrom indent anchor id bracket label) = false := by
  rw [Bool.eq_false_iff]
  intro hcloses
  have hdirective := Line.isDirective_of_closesSubgraph hcloses
  rw [g.not_isDirective h] at hdirective
  cases hdirective

/-! ## The subgraphs -/

/-- What the subgraphs are after a node has been linked from an anchor. They are those there were,
on the same lines with other numbers, and with the same members; the host, which is told by its
opening, has the anchor and the new node as members too. Without a subgraph of the anchor the host
is the innermost opening around the last mention, if there is one. Else it is the subgraph of the
anchor, if it has no mention inside or the last one is in no inner subgraph. -/
structure IsJoined (anchor id : Text) (host : Option Nat) (b b' : Buffer) : Prop where
  gains : ∃ move, StrictMono move ∧ (∀ i, b'.line (move i) = b.line i) ∧
    List.Forall₂ (Subgraph.Gains move host [anchor, id]) b.subgraphs b'.subgraphs
  once : ∀ g ∈ b'.subgraphs, ∀ h ∈ b'.subgraphs, id ∈ g.members → id ∈ h.members → g = h
  ungrouped : (∀ g ∈ b.subgraphs, anchor ∉ g.members) →
    ∀ last, (b.mentions anchor).getLast? = some last → ∀ i, host = some i ↔ Innermost b i last
  grouped : (∃ g ∈ b.subgraphs, anchor ∈ g.members) →
    ∃ g ∈ b.subgraphs, anchor ∈ g.members ∧ b.enclosing? anchor (b.mentions anchor) = some g ∧
      ((∀ k, lastInside? g (b.mentions anchor) = some k → Innermost b g.opening k) →
        host = some g.opening)

/-- Only the host has the new node. -/
theorem once_of_gains {move : Nat → Nat} {names : List Text}
    (hnew : ∀ g ∈ b.subgraphs, id ∉ g.members)
    (h : List.Forall₂ (Subgraph.Gains move host names) b.subgraphs b'.subgraphs) :
    ∀ g ∈ b'.subgraphs, ∀ h ∈ b'.subgraphs, id ∈ g.members → id ∈ h.members → g = h := by
  have hhost : ∀ g' ∈ b'.subgraphs, id ∈ g'.members → ∃ i, host = some i ∧ g'.opening = move i := by
    intro g' hg' hmem
    obtain ⟨g, hg, hgains⟩ := exists_of_mem_right h g' hg'
    rcases (hgains.members id).1 hmem with hold | ⟨hhost, -⟩
    · exact absurd hold (hnew g hg)
    · exact ⟨g.opening, hhost, hgains.opening⟩
  intro g hg k hk hmem hmem'
  obtain ⟨i, hi, hopening⟩ := hhost g hg hmem
  obtain ⟨j, hj, hopening'⟩ := hhost k hk hmem'
  obtain rfl : i = j := Option.some.inj (hi.symm.trans hj)
  exact eq_of_opening hg hk (hopening.trans hopening'.symm)

/-- Both lines put in move the lines behind them, and the line of the link alone brings members. -/
theorem Graft.gains_insertLinked (g : Graft anchor id label bracket)
    (h : ∀ c ∈ indent, Text.isBlank c = true) {copy? : Option (Nat × Line)} {place : Nat}
    (hplace : place ≤ b.length) (hcopy : ∀ i copy, copy? = some (i, copy) →
      ∃ indent s, (∀ c ∈ indent, Text.isBlank c = true) ∧ copy = StyleLine.text indent id s) :
    ∃ move, StrictMono move ∧
      (∀ i, Buffer.line (b.insertLinked place (linkFrom indent anchor id bracket label) copy?)
        (move i) = b.line i) ∧
      List.Forall₂ (Subgraph.Gains move (stack (b.take place)).head? [anchor, id]) b.subgraphs
        (subgraphs (b.insertLinked place (linkFrom indent anchor id bracket label) copy?)) := by
  have hnames : ∀ name, name ∈ Line.identifiers (linkFrom indent anchor id bracket label) ↔
      name ∈ [anchor, id] := by
    intro name
    rw [g.mem_identifiers h, List.mem_pair]
  have hlink := (forall₂_gains_insertAt (g.opensSubgraph h) (g.closesSubgraph h) b place).imp
    fun _ _ hgains => hgains.congr hnames
  have hline := line_insertAt b place (linkFrom indent anchor id bracket label)
  cases copy? with
  | none => exact ⟨_, strictMono_moved _, hline, hlink⟩
  | some found =>
    obtain ⟨i, copy⟩ := found
    obtain ⟨j, heq⟩ := insertLinked_some hplace (linkFrom indent anchor id bracket label) i copy
    obtain ⟨indent', s, hindent', rfl⟩ := hcopy i copy rfl
    obtain ⟨hopens, hcloses⟩ := StyleLine.opensSubgraph_text hindent' id s
    have hstyle := forall₂_gains_insertAt hopens hcloses
      (b.insertAt place [linkFrom indent anchor id bracket label]) j
    rw [Line.identifiers_of_isDirective (StyleLine.isDirective_text hindent' id s)] at hstyle
    rw [heq]
    refine ⟨_, (strictMono_moved _).comp (strictMono_moved _),
      fun k => ?_, forall₂_gains_trans hlink hstyle⟩
    rw [Function.comp_apply, line_insertAt, hline]

/-- The new node goes into one subgraph at most, and no subgraph loses a member. -/
theorem insertNode_isJoined {t anchor id label : Text} {shape : Shape} {found : List StyleLine}
    (g : Graft anchor id label shape.bracket) (hmention : (ofText t).mentions anchor ≠ [])
    (hfound : (ofText t).styles = .ok found) (hnew : ∀ g ∈ (ofText t).subgraphs, id ∉ g.members) :
    ∃ t', Command.run t (.insertNode anchor id label shape.name) = .ok t' ∧
      ∃ host, IsJoined anchor id host (ofText t) (ofText t') := by
  have hlines : ∀ line ∈ ofText t, '\n' ∉ line := fun line hline => not_mem_of_mem_ofText hline
  obtain ⟨last, hlast⟩ := Option.ne_none_iff_exists'.1 (mt List.getLast?_eq_none_iff.1 hmention)
  obtain ⟨copy?, hcopy, hwritten, hcopyLine⟩ :=
    exists_styleCopy? hlines hfound g.anchor_valid g.id_valid
  have hblank := blank_of_mem_placeAfter hlines anchor ((ofText t).mentions anchor) last
  have hplace := placeAfter_le_length hlast
  refine ⟨_, run_insertNode hlast hcopy,
    (stack
      ((ofText t).take ((ofText t).placeAfter anchor ((ofText t).mentions anchor) last).1)).head?,
      ?_⟩
  rw [ofText_insertLinked hplace (g.lineFeed_not_mem fun hmem => (hblank _ hmem).2 rfl) hcopyLine]
  have hgains := g.gains_insertLinked (fun c hc => (hblank c hc).1) hplace hwritten
  constructor
  case gains => exact hgains
  case once =>
    obtain ⟨move, -, -, hgains⟩ := hgains
    exact once_of_gains hnew hgains
  case ungrouped =>
    intro hnone last' hlast' i
    obtain rfl : last' = last := Option.some.inj (hlast'.symm.trans hlast)
    exact innermost_placeAfter g.anchor_valid g.anchor_named hlast hnone
  case grouped =>
    rintro ⟨k, hk, hmem⟩
    cases hgroup : (ofText t).enclosing? anchor ((ofText t).mentions anchor) with
    | none => exact absurd hmem (enclosing?_eq_none_iff.1 hgroup k hk)
    | some group =>
      obtain ⟨hin, hmember⟩ := mem_of_enclosing? hgroup
      exact ⟨group, hin, hmember, rfl, fun hdirect =>
        head?_stack_placeAfter g.anchor_valid g.anchor_named hgroup hdirect last⟩

/-- The last mention stands behind the subgraph of the anchor, and the last one inside of it behind
an inner subgraph. -/
theorem insertNode_isJoined_of_inner :
    let t := "subgraph G\nA[a]\nsubgraph H\nB\nend\nA --> B\nend\nA --> C\nstyle A fill:red".toList
    Graft "A".toList "N".toList "x".toList Shape.rounded.bracket ∧
      (ofText t).mentions "A".toList ≠ [] ∧
      (ofText t).styles = .ok [⟨"A".toList, { fill := some "red".toList }⟩] ∧
      (∀ g ∈ (ofText t).subgraphs, "N".toList ∉ g.members) ∧
      ∃ t', Command.run t (.insertNode "A".toList "N".toList "x".toList Shape.rounded.name) =
        .ok t' ∧ ∃ host, IsJoined "A".toList "N".toList host (ofText t) (ofText t') := by
  intro t
  have hgraft : Graft "A".toList "N".toList "x".toList Shape.rounded.bracket :=
    ⟨by decide, by decide, by decide, by decide, by decide, by decide, by decide⟩
  have hmention : (ofText t).mentions "A".toList ≠ [] := by decide +kernel
  have hstyles : (ofText t).styles = .ok [⟨"A".toList, { fill := some "red".toList }⟩] := by rfl
  have hnew : ∀ g ∈ (ofText t).subgraphs, "N".toList ∉ g.members := by decide +kernel
  exact ⟨hgraft, hmention, hstyles, hnew, insertNode_isJoined hgraft hmention hstyles hnew⟩

/-- A comment is a mention too: the anchor is a member of no subgraph, and a comment on it draws it
and the new node into one. -/
theorem joins_group_of_comment :
    let t := "A\nsubgraph G\n%% A\nend".toList
    Graft "A".toList "N".toList "x".toList Shape.rectangle.bracket ∧
      (ofText t).subgraphs = [⟨"G".toList, "G".toList, [], 1, 3⟩] ∧
      ∃ t', Command.run t (.insertNode "A".toList "N".toList "x".toList Shape.rectangle.name) =
        .ok t' ∧ (ofText t').subgraphs =
          [⟨"G".toList, "G".toList, ["A".toList, "N".toList], 1, 4⟩] := by
  intro t
  refine ⟨⟨by decide, by decide, by decide, by decide, by decide, by decide, by decide⟩,
    by decide +kernel, ?_⟩
  exact ⟨"A\nsubgraph G\n%% A\n    A --> N[x]\nend".toList, by decide +kernel, by decide +kernel⟩

end Buffer
end Chartwright
