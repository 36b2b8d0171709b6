import Chartwright.Edit.Command
import Chartwright.Proofs.Buffer.Lines
import Chartwright.Proofs.Line.StrandEdge
import Chartwright.Proofs.Line.StyleText
/-!
Deleting a node.

A deletion looks at each line by itself: it keeps the line, writes it anew without the node, or
drops it and restores the declarations it held alone. So the edge on a line is kept if its own line
is spared (`Spares`), whatever becomes of the other lines (`exists_edge_deleteNode`).
-/
namespace Chartwright

namespace Buffer

theorem perm_insertAfterHeader (new : List Line) (b : Buffer) :
    (insertAfterHeader new b).Perm (new ++ b) := by
  unfold insertAfterHeader
  split
  · exact (perm_insertAt ..).trans List.perm_append_comm
  · exact List.Perm.refl _

theorem mem_insertAfterHeader {b : Buffer} {new : List Line} {line : Line} :
    line ∈ insertAfterHeader new b ↔ line ∈ new ∨ line ∈ b := by
  rw [(perm_insertAfterHeader new b).mem_iff, List.mem_append]

variable {b : Buffer} {id : Text}

theorem mem_deleteNode {i : Nat} {line kept : Line} (hline : b[i]? = some line)
    (hkept : kept ∈ (b.lineWithout id line i).1) : kept ∈ b.deleteNode id := by
  have hmem : (line, i) ∈ b.zipIdx := List.mem_zipIdx_iff_getElem?.2 hline
  exact mem_insertAfterHeader.2 (.inr (List.mem_flatMap.2 ⟨_, List.mem_map_of_mem hmem, hkept⟩))

theorem not_mem_deleteNode (h : ∀ line ∈ b, '\n' ∉ line) :
    ∀ line ∈ b.deleteNode id, '\n' ∉ line := by
  have hparts : ∀ outcome ∈ b.zipIdx.map (fun p => b.lineWithout id p.1 p.2),
      (∀ kept ∈ outcome.1, '\n' ∉ kept) ∧ ∀ restored ∈ outcome.2, '\n' ∉ restored := by
    intro outcome houtcome
    obtain ⟨⟨line, i⟩, hline, rfl⟩ := List.mem_map.1 houtcome
    exact not_mem_lineWithout b id (h line (List.fst_mem_of_mem_zipIdx hline)) i
  intro line hline
  rcases mem_insertAfterHeader.1 hline with hline | hline
  · obtain ⟨outcome, houtcome, hline⟩ := List.mem_flatMap.1 hline
    exact (hparts outcome houtcome).2 line hline
  · obtain ⟨outcome, houtcome, hline⟩ := List.mem_flatMap.1 hline
    exact (hparts outcome houtcome).1 line hline

theorem ofText_deleteNode (t id : Text) :
    ofText (Command.onLines (·.deleteNode id) t) = (ofText t).deleteNode id ∨
      ((ofText t).deleteNode id = [] ∧ ofText (Command.onLines (·.deleteNode id) t) = [[]]) := by
  by_cases hnil : (ofText t).deleteNode id = []
  · refine .inr ⟨hnil, ?_⟩
    rw [Command.onLines, hnil]
    rfl
  · left
    rw [Command.onLines,
      ofText_toText hnil (not_mem_deleteNode fun line hline => not_mem_of_mem_ofText hline)]

/-- Every group on the line lists tokens, and none of them stands for the node. -/
def Untouched (id : Text) (line : Line) : Prop :=
  ∀ k, Line.chain? line = some k → ∀ s ∈ k.segments, s.tokens ≠ [] ∧ ∀ token ∈ s.tokens,
    isTokenOf id token = false

/-- A line without a token of the node is written anew as it was, up to the blanks at its end. -/
theorem chainWithout?_of_untouched {line : Line} {k : Chain} (h : Untouched id line)
    (hk : Line.chain? line = some k) : chainWithout? id k = some (Text.trimRight line) := by
  have htokens : ∀ s ∈ k.segments, tokensLeft id s = s.tokens := by
    intro s hs
    rw [tokensLeft, List.filter_eq_self]
    intro token htoken
    rw [(h k hk s hs).2 token htoken]
    rfl
  have hall : k.segments.all (fun s => !(tokensLeft id s).isEmpty) = true := by
    rw [List.all_eq_true]
    intro s hs
    simp [htokens s hs, (h k hk s hs).1]
  have htexts : k.segments.map (segmentWithout id) = k.segments.map (·.text) := by
    apply List.map_congr_left
    intro s hs
    rw [segmentWithout, htokens s hs, if_pos rfl]
  rw [chainWithout?, if_pos hall, htexts, Chain.interleave_of_chain? hk fun s hs => (h k hk s hs).1]

/-- A line whose edges a deletion spares: it does not mention the node, or no token on it stands for
the node, or it is a tidy strand in which every group keeps a node and the link does not depend on
the deleted one. -/
inductive Spares (id : Text) (line : Line) : Prop where
  | unmentioned (h : Identifier.mention? id line = none)
  | untouched (h : Untouched id line)
  | tidy (hid : Identifier.valid id = true) (s : Strand) (tidy : s.Tidy)
    (written : s.row.written = line)
      (kept : ∀ g ∈ s.row.groups, ∃ e ∈ g, e.id ≠ id) (spared : s.FrontBare id ∨ s.SameLanding id)

/-- What becomes of a line that is spared shows its edge. -/
theorem exists_edgeOn?_lineWithout {line : Line} (hspares : Spares id line) (hline : '\n' ∉ line)
    {i : Nat} {e : Edge} (he : edgeOn? line i = some e) (hsource : e.source ≠ id)
    (htarget : e.target ≠ id) :
    ∃ kept ∈ (b.lineWithout id line i).1, ∀ j : Nat,
      edgeOn? kept j = some { e with line := j } := by
  have hself : ∀ j : Nat, edgeOn? line j = some { e with line := j } :=
    fun j => (edgeOn?_move he j).1
  have hdirective := (edgeOn?_eq_some_iff.1 he).1
  have hstyle : StyleLine.isFor id line = false := by
    rw [Bool.eq_false_iff]
    intro h
    rw [StyleLine.isDirective_of_isFor h] at hdirective
    cases hdirective
  rw [lineWithout, hstyle, if_neg (by simp)]
  split
  -- a line that does not mention the node is kept as it is
  · exact ⟨line, List.mem_cons_self, hself⟩
  · next hmentions =>
    cases hspares with
    | unmentioned h => simp [h] at hmentions
    | untouched h =>
      cases hchain : Line.chain? line with
      | none => exact ⟨line, List.mem_cons_self, hself⟩
      | some k =>
        obtain ⟨run, hrun, hblanks⟩ := Text.exists_append_eq_trimRight line
        simp only [chainWithout?_of_untouched h hchain]
        refine ⟨_, List.mem_cons_self, fun j => ?_⟩
        rw [← edgeOn?_append_blanks hblanks, ← hrun]
        exact hself j
    | tidy hid s tidy written kept spared =>
      subst written
      cases hchain : Line.chain? s.row.written with
      | none => exact ⟨s.row.written, List.mem_cons_self, hself⟩
      | some k =>
        have hkept : ∀ g ∈ s.row.groups, ∃ e ∈ g, e.keeps id = true := fun g hg =>
          (kept g hg).imp fun e he => ⟨he.1, (Token.keeps_iff hid).2 he.2⟩
        obtain rfl := Strand.eq_chain tidy.full tidy.sound tidy.not_isDirective hchain
        have hknots : s.knots ≠ [] :=
          fun hnil => Line.connectors_ne_nil hchain (by simp [Strand.chain, hnil])
        have hrebuilt : chainWithout? id s.chain = some (s.without id).row.written := by
          rw [Strand.chainWithout?_chain, if_pos (Strand.all_groups_without id hkept)]
        have hline' := not_mem_chainWithout? (Chain.cutFrom_of_chain? hchain) hline hrebuilt
        simp only [hrebuilt]
        exact ⟨_, List.mem_cons_self,
          Strand.edgeOn?_without hid tidy hkept hknots spared hline hline' he hsource htarget⟩

/-- An edge between other nodes on a line that is spared is found again after the deletion, up to
the number of its line. -/
theorem exists_edge_deleteNode {t id : Text} {e : Edge} (he : e ∈ (ofText t).edges)
    (hsource : e.source ≠ id) (htarget : e.target ≠ id)
    (hspares : Spares id ((ofText t).line e.line.toNat)) :
    ∃ f ∈ (ofText (Command.onLines (·.deleteNode id) t)).edges, f = { e with line := f.line } := by
  obtain ⟨i, line, hline, hedge⟩ := mem_edges.1 he
  -- the line that the edge tells is the one it was found on
  have hnumber : (ofText t).line e.line.toNat = line := by
    rw [(edgeOn?_move hedge i).2, Int.toNat_natCast, Buffer.line, hline]
    rfl
  rw [hnumber] at hspares
  have hlines : ∀ line ∈ ofText t, '\n' ∉ line := fun line h => not_mem_of_mem_ofText h
  obtain ⟨kept, hkept, hshows⟩ :=
    exists_edgeOn?_lineWithout (b := ofText t) hspares
      (hlines line (List.mem_of_getElem? hline)) hedge hsource htarget
  -- the lines that are written are read back, for none of them holds a line feed
  have hmem := mem_deleteNode hline hkept
  have hread : ofText (Command.onLines (·.deleteNode id) t) = (ofText t).deleteNode id :=
    ofText_toText (List.ne_nil_of_mem hmem) (not_mem_deleteNode hlines)
  obtain ⟨j, hj⟩ := List.mem_iff_getElem?.1 hmem
  refine ⟨{ e with line := j }, ?_, rfl⟩
  rw [hread]
  exact mem_edges.2 ⟨j, kept, hj, hshows j⟩

/-- Taking `A` from a chain behind a group keeps the link from the node that is left in the
group. -/
theorem exists_edge_deleteNode_of_chain :
    (⟨"B".toList, "C".toList, [], .plain, 0⟩ : Edge) ∈ (ofText "A & B --> C --> D".toList).edges ∧
      "B".toList ≠ "A".toList ∧ "C".toList ≠ "A".toList ∧
      ∃ f ∈ (ofText (Command.onLines (·.deleteNode "A".toList) "A & B --> C --> D".toList)).edges,
        f = { (⟨"B".toList, "C".toList, [], .plain, 0⟩ : Edge) with line := f.line } := by
  have hmem : (⟨"B".toList, "C".toList, [], .plain, 0⟩ : Edge) ∈
      (ofText "A & B --> C --> D".toList).edges := by
    decide +kernel
  refine ⟨hmem, by decide, by decide, exists_edge_deleteNode hmem (by decide) (by decide) ?_⟩
  let node (name : Char) (h : Identifier.valid [name] = true) : Token := .bare [name] h
  let group (es : List Token) : Core :=
    ⟨Row.joined es, Row.grouped_joined es, Row.front_joined es, Row.back_joined es⟩
  let knot (es : List Token) : Knot :=
    { gap := [.space]
      tip := ⟨"-->".toList, none, .plain 0, by simp⟩
      space := [.space]
      core := group es
      gap_blank := List.forall_mem_singleton.2 rfl
      space_blank := List.forall_mem_singleton.2 rfl }
  let strand : Strand :=
    { indent := []
      head := group [node 'A' (by decide), node 'B' (by decide)]
      knots := [knot [node 'C' (by decide)], knot [node 'D' (by decide)]]
      trail := []
      indent_blank := List.forall_mem_nil _
      trail_blank := List.forall_mem_nil _ }
  have hclosed : ∀ (name : Char) (h : Identifier.valid [name] = true) (rest : Text),
      (node name h).Closed rest :=
    fun _ _ => Token.closed_of_none rfl
  have hlisted : ∀ (name : Char) (h : Identifier.valid [name] = true),
      (group [node name h]).Listed :=
    fun _ _ => ⟨⟨_, _, rfl⟩, ⟨[], _, rfl⟩⟩
  have htidy : strand.Tidy := {
    sound := .node (.blank (.ampersand (.blank (.node (.blank (.arrow (.blank (.node (.blank (.arrow
      (.blank (.node .nil rfl (hclosed _ _ _))))) rfl (hclosed _ _ _))))) rfl
      (hclosed _ _ _))))) rfl (hclosed _ _ _)
    head_listed :=
      ⟨⟨_, _, rfl⟩, ⟨[.node (node 'A' (by decide)), .space, .ampersand, .space], _, rfl⟩⟩
    knots_listed := List.forall_mem_cons.2 ⟨hlisted .., List.forall_mem_singleton.2 (hlisted ..)⟩
    head_named := List.forall_mem_cons.2 ⟨by decide, List.forall_mem_singleton.2 (by decide)⟩
    head_anchored :=
      List.forall_mem_cons.2 ⟨fun _ => rfl, List.forall_mem_singleton.2 fun _ => rfl⟩ }
  refine .tidy (by decide) strand htidy (by decide) ?_ (.inl ?_)
  · refine List.forall_mem_cons.2
      ⟨⟨node 'B' (by decide), List.mem_cons_of_mem _ List.mem_cons_self, by decide⟩, ?_⟩
    exact List.forall_mem_cons.2 ⟨⟨_, List.mem_cons_self, by decide⟩,
      List.forall_mem_singleton.2 ⟨_, List.mem_cons_self, by decide⟩⟩
  · intro e he _
    obtain rfl : e = node 'A' (by decide) := List.mem_singleton.1 he
    rfl

/-- An edge between other nodes that a deletion loses. -/
def LosesEdge (t id : Text) (e : Edge) : Prop :=
  e ∈ (ofText t).edges ∧ e.source ≠ id ∧ e.target ≠ id ∧
    ¬ ∃ f ∈ (ofText (Command.onLines (·.deleteNode id) t)).edges, f = { e with line := f.line }

instance (t id : Text) (e : Edge) : Decidable (LosesEdge t id e) :=
  inferInstanceAs (Decidable (_ ∧ _ ∧ _ ∧ ¬ _))

/-- Edges are lost with a line that is dropped because a group has no node left, or had none, with
words beside the name in a token, with a class that was read as the source, where a link started at
a declaration further left and its joint stands behind another node now, where that joint's label
holds an arrow, where a keyword comes to stand first on the line, and for a name that is no
identifier. -/
theorem losesEdge_of_deleteNode :
    LosesEdge "A --> B --> C".toList "C".toList ⟨"A".toList, "B".toList, [], .plain, 0⟩ ∧
    LosesEdge "A[C x] --> B -->".toList "C".toList ⟨"A".toList, "B".toList, [], .plain, 0⟩ ∧
    LosesEdge "D & A B --> C".toList "A".toList ⟨"B".toList, "C".toList, [], .plain, 0⟩ ∧
    LosesEdge "D & A:::x --> C".toList "A".toList ⟨"x".toList, "C".toList, [], .plain, 0⟩ ∧
    LosesEdge "A[x] & D & B[y] --> C".toList "B".toList ⟨"A".toList, "C".toList, [], .plain, 0⟩ ∧
    LosesEdge "A[x] & D -->|a] -->| C & B & E -->|z| F".toList "B".toList
      ⟨"A".toList, "z".toList, " C & B & E -->".toList, .plain, 0⟩ ∧
    LosesEdge "A & end[x] & B --> C".toList "A".toList ⟨"B".toList, "C".toList, [], .plain, 0⟩ ∧
    LosesEdge "A[x] --> C".toList "A[x".toList ⟨"A".toList, "C".toList, [], .plain, 0⟩ := by
  decide +kernel

end Buffer
end Chartwright
