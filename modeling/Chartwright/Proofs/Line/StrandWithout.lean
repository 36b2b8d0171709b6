import Chartwright.Edit.Node
import Chartwright.Proofs.Line.Strand
/-!
A strand without a node.

A deletion writes a group anew, with ampersands between the nodes that are left, if a token of it
stands for the node, and leaves it as it is otherwise. What comes of a sound row is a sound row
again (`Strand.sound_without`): it holds no more arrows and nodes than before, in the same order,
and a label of an arrow that could run over the brackets of a node could have done so before.
-/
namespace Chartwright

open Row

/-- A name that is followed by no part of a name stands for a node if it is the node's. -/
theorem Buffer.isTokenOf_append {id name rest : Text} (hid : Identifier.valid id = true)
    (hname : Identifier.valid name = true) (hrest : Text.Stops Identifier.isChar rest) :
    isTokenOf id (name ++ rest) = decide (name = id) := by
  have hread : (name ++ rest).takeWhile Identifier.isChar = name :=
    Text.takeWhile_append (Identifier.isChar_of_valid hname) hrest
  by_cases heq : name = id
  · have happart := Identifier.apart_head?_iff.2 hrest
    simp only [isTokenOf, heq, Text.after?_append, happart, decide_true]
  · -- a longer name may begin like the node, but then it runs on
    cases hafter : Text.after? id (name ++ rest) with
    | none => simp [isTokenOf, hafter, heq]
    | some after =>
      have happart : Identifier.apart after.head? = false := by
        rw [Bool.eq_false_iff]
        intro h
        rw [Text.after?_eq_some_iff.1 hafter,
          Text.takeWhile_append (Identifier.isChar_of_valid hid)
            (Identifier.apart_head?_iff.1 h)] at hread
        exact heq hread.symm
      simp [isTokenOf, hafter, heq, happart]

namespace Token

theorem isTokenOf_written (e : Token) {id : Text} (hid : Identifier.valid id = true) :
    Buffer.isTokenOf id e.written = decide (e.id = id) := by
  have hrest := e.stops_isChar_brackets (fun text => text) (Text.stops_nil _)
  rw [List.append_nil] at hrest
  exact Buffer.isTokenOf_append hid e.id_valid hrest

/-- The node is not the one that is deleted. -/
def keeps (id : Text) (e : Token) : Bool := !Buffer.isTokenOf id e.written

end Token

namespace Row

/-- Nodes with ampersands between them. -/
def joined : List Token → Row
  | [] => []
  | [e] => [.node e]
  | e :: f :: rest => .node e :: .space :: .ampersand :: .space :: joined (f :: rest)

theorem written_joined (es : List Token) :
    (joined es).written = Text.join " & ".toList (es.map Token.written) := by
  induction es with
  | nil => rfl
  | cons e rest ih =>
    cases rest with
    | nil => simp [joined, Text.join, Lexeme.written]
    | cons f rest =>
      rw [joined, List.map_cons, List.map_cons, Text.join, ← List.map_cons, ← ih]
      simp [Lexeme.written, Lexeme.space]

theorem nodes_joined (es : List Token) : nodes (joined es) = es := by
  induction es with
  | nil => rfl
  | cons e rest ih =>
    cases rest with
    | nil => rfl
    | cons f rest => simpa [joined, nodes, Lexeme.space] using ih

theorem apart_joined (es : List Token) : Apart (joined es) := by
  induction es with
  | nil => trivial
  | cons e rest ih =>
    cases rest with
    | nil => exact ⟨rfl, trivial⟩
    | cons f rest => exact ⟨rfl, ih⟩

theorem grouped_joined (es : List Token) : ∀ l ∈ joined es, l.isArrow = false := by
  induction es with
  | nil => simp [joined]
  | cons e rest ih =>
    cases rest with
    | nil => exact List.forall_mem_singleton.2 rfl
    | cons f rest =>
      simp only [joined, List.forall_mem_cons]
      exact ⟨rfl, rfl, rfl, rfl, ih⟩

theorem front_joined (es : List Token) : ∀ l ∈ (joined es).head?, l.isBlank = false := by
  intro l hl
  match es with
  | [] => cases hl
  | [e] =>
    cases hl
    rfl
  | e :: f :: rest =>
    cases hl
    rfl

theorem back_joined (es : List Token) : ∀ l ∈ (joined es).getLast?, l.isBlank = false := by
  induction es with
  | nil => simp [joined]
  | cons e rest ih =>
    cases rest with
    | nil =>
      intro l hl
      cases hl
      rfl
    | cons f rest =>
      intro l hl
      obtain ⟨last, hlast⟩ : ∃ last, (joined (f :: rest)).getLast? = some last := by
        refine Option.ne_none_iff_exists'.1 (mt List.getLast?_eq_none_iff.1 ?_)
        cases rest <;> exact List.cons_ne_nil _ _
      rw [joined, List.getLast?_cons, List.getLast?_cons, List.getLast?_cons, List.getLast?_cons,
        hlast] at hl
      obtain rfl : last = l := Option.some.inj hl
      exact ih last hlast

theorem filter_isSolid {r : Row} (h : ∀ l ∈ r, l.isArrow = false) :
    r.filter Lexeme.isSolid = r.nodes.map .node := by
  induction r with
  | nil => rfl
  | cons l rest ih =>
    have hrest := ih fun l hl => h l (List.mem_cons_of_mem _ hl)
    cases l with
    | arrow p => cases h _ List.mem_cons_self
    | node e =>
      rw [List.filter_cons_of_pos rfl, hrest]
      rfl
    | _ =>
      rw [List.filter_cons_of_neg (by simp [Lexeme.isSolid]), hrest]
      rfl

end Row

namespace Core

variable (id : Text) (c : Core)

/-- A group without a node: as it was if every node in it is kept, and written anew otherwise. -/
def without : Core :=
  if c.row.nodes.all (·.keeps id) then c
  else
    { row := joined (c.row.nodes.filter (·.keeps id))
      grouped := grouped_joined _
      front := front_joined _
      back := back_joined _ }

theorem nodes_without : (c.without id).row.nodes = c.row.nodes.filter (·.keeps id) := by
  rw [without]
  split
  · next h => exact (List.filter_eq_self.2 (List.all_eq_true.1 h)).symm
  · exact nodes_joined _

theorem apart_without (h : Apart c.row) : Apart (c.without id).row := by
  rw [without]
  split
  · exact h
  · exact apart_joined _

theorem sublist_without :
    ((c.without id).row.filter Lexeme.isSolid).Sublist (c.row.filter Lexeme.isSolid) := by
  rw [filter_isSolid (c.without id).grouped, filter_isSolid c.grouped, nodes_without]
  exact List.filter_sublist.map _

theorem tokensLeft_segment : Buffer.tokensLeft id c.segment = (c.without id).segment.tokens := by
  rw [Buffer.tokensLeft, segment, segment, nodes_without, List.filter_map]
  rfl

theorem segmentWithout_segment :
    Buffer.segmentWithout id c.segment = (c.without id).row.written := by
  have hleft : (Buffer.tokensLeft id c.segment).length = c.segment.tokens.length ↔
      c.row.nodes.all (·.keeps id) = true := by
    rw [tokensLeft_segment, segment, segment, List.length_map, List.length_map, nodes_without,
      List.length_filter_eq_length_iff, List.all_eq_true]
  rw [Buffer.segmentWithout, without]
  by_cases h : c.row.nodes.all (·.keeps id) = true
  · rw [if_pos (hleft.2 h), if_pos h]
    rfl
  · rw [if_neg fun heq => h (hleft.1 heq), if_neg h, tokensLeft_segment, written_joined, segment,
      nodes_without]

end Core

namespace Knot

/-- An arrow with the group behind it, without a node. -/
def without (id : Text) (k : Knot) : Knot := { k with core := k.core.without id }

end Knot

namespace Strand

variable (id : Text) {s : Strand}

/-- A strand without a node, and without the blanks at its end. -/
def without (s : Strand) : Strand :=
  { s with
    head := s.head.without id
    knots := s.knots.map (·.without id)
    trail := []
    trail_blank := List.forall_mem_nil _ }

theorem interleave_knots (c : Core) (knots : List Knot) :
    Chain.interleave (c.row.written :: knots.map (·.core.row.written)) (knots.map (·.connector)) =
      (c.row ++ tailRow [] knots).written := by
  induction knots generalizing c with
  | nil => simp [Chain.interleave, tailRow]
  | cons k ks ih =>
    rw [List.map_cons, List.map_cons, Chain.interleave, ih k.core]
    simp [tailRow_cons, Knot.connector, Lexeme.written]

/-- A strand is written anew without a node if every group keeps another one. -/
theorem chainWithout?_chain : Buffer.chainWithout? id s.chain =
    if (s.without id).row.groups.all (!·.isEmpty) then some (s.without id).row.written
    else none := by
  have hleft : ∀ c : Core,
      (Buffer.tokensLeft id c.segment).isEmpty = (c.without id).row.nodes.isEmpty := by
    intro c
    rw [c.tokensLeft_segment, Core.segment, List.isEmpty_map]
  have hall : (s.chain.segments.all fun s => !(Buffer.tokensLeft id s).isEmpty) =
      (s.without id).row.groups.all (!·.isEmpty) := by
    rw [groups_row, chain, without, List.all_cons, List.all_cons, hleft, List.all_map, List.map_map,
      List.all_map]
    simp only [Function.comp_def, hleft, Knot.without]
  have hrebuilt : s.chain.indent ++
      Chain.interleave (s.chain.segments.map (Buffer.segmentWithout id)) s.chain.connectors =
      (s.without id).row.written := by
    have htexts : (s.knots.map (·.core.segment)).map (Buffer.segmentWithout id) =
        (s.knots.map (·.without id)).map (·.core.row.written) := by
      rw [List.map_map, List.map_map]
      exact List.map_congr_left fun k _ => k.core.segmentWithout_segment id
    have hconnectors : s.knots.map (·.connector) =
        (s.knots.map (·.without id)).map (·.connector) := by
      rw [List.map_map]
      rfl
    have hrow : (s.without id).row =
        s.indent ++ ((s.head.without id).row ++ tailRow [] (s.knots.map (·.without id))) := rfl
    rw [chain, List.map_cons, s.head.segmentWithout_segment, htexts, hconnectors, interleave_knots,
      hrow, ← written_append]
  rw [Buffer.chainWithout?, hall, hrebuilt]

/-! ## Soundness -/

theorem endsNode_blank_append {x : Row} (hx : ∀ l ∈ x, l.isBlank = true) (r : Row) :
    endsNode (x ++ r) = endsNode r := by
  induction x with
  | nil => rfl
  | cons l rest ih =>
    cases l with
    | blank => exact ih fun l hl => hx l (List.mem_cons_of_mem _ hl)
    | _ => cases hx _ List.mem_cons_self

theorem apart_blank_append {x : Row} (hx : ∀ l ∈ x, l.isBlank = true) {r : Row} (h : Apart r) :
    Apart (x ++ r) := by
  induction x with
  | nil => exact h
  | cons l rest ih =>
    cases l with
    | blank => exact ih fun l hl => hx l (List.mem_cons_of_mem _ hl)
    | _ => cases hx _ List.mem_cons_self

theorem filter_isSolid_of_isBlank {x : Row} (hx : ∀ l ∈ x, l.isBlank = true) :
    x.filter Lexeme.isSolid = [] := by
  rw [filter_isSolid fun l hl => isArrow_of_isBlank (hx l hl), nodes_of_isBlank hx, List.map_nil]

theorem apart_tailRow_without {c : Core} {trail : Row} {knots : List Knot}
    (h : Apart (c.row ++ tailRow trail knots)) :
    Apart ((c.without id).row ++ tailRow [] (knots.map (·.without id))) := by
  induction knots generalizing c with
  | nil =>
    simpa [tailRow] using c.apart_without id h.of_append.1
  | cons k ks ih =>
    rw [tailRow_cons] at h
    have hlater : Apart (k.space ++ (k.core.row ++ tailRow trail ks)) := h.of_append.2.of_append.2
    rw [List.map_cons, tailRow_cons]
    refine (c.apart_without id h.of_append.1).append (apart_blank_append k.gap_blank ?_)
      (endsNode_blank_append k.gap_blank _)
    exact apart_blank_append k.space_blank (ih hlater.of_append.2)

theorem sublist_tailRow_without (c : Core) (trail : Row) (knots : List Knot) :
    (((c.without id).row ++ tailRow [] (knots.map (·.without id))).filter Lexeme.isSolid).Sublist
      ((c.row ++ tailRow trail knots).filter Lexeme.isSolid) := by
  induction knots generalizing c with
  | nil =>
    rw [List.filter_append, List.filter_append]
    exact (c.sublist_without id).append (List.nil_sublist _)
  | cons k ks ih =>
    have hshape : ∀ (c k : Core) (gap space : Row) (p : Tip) (rest : Row),
        (∀ l ∈ gap, l.isBlank = true) → (∀ l ∈ space, l.isBlank = true) →
        (c.row ++ (gap ++ (.arrow p :: (space ++ (k.row ++ rest))))).filter Lexeme.isSolid =
          c.row.filter Lexeme.isSolid ++ .arrow p :: (k.row ++ rest).filter Lexeme.isSolid := by
      intro c k gap space p rest hgap hspace
      rw [List.filter_append, List.filter_append, List.filter_cons_of_pos rfl,
        List.filter_append (space), filter_isSolid_of_isBlank hgap,
        filter_isSolid_of_isBlank hspace]
      rfl
    rw [List.map_cons, tailRow_cons, tailRow_cons, hshape _ _ _ _ _ _ k.gap_blank k.space_blank]
    refine (hshape _ (k.core.without id) _ _ k.tip _ k.gap_blank k.space_blank).symm ▸ ?_
    exact (c.sublist_without id).append ((ih k.core).cons_cons _)

/-- What a deletion leaves of a sound row is a sound row. -/
theorem sound_without (h : Sound s.row) : Sound (s.without id).row := by
  have hapart := (sound_iff.1 h).1
  refine h.of_sublist
    (apart_blank_append s.indent_blank (apart_tailRow_without id hapart.of_append.2)) ?_
  have hrow : (s.without id).row =
      s.indent ++ ((s.head.without id).row ++ tailRow [] (s.knots.map (·.without id))) := rfl
  rw [hrow, row, List.filter_append s.indent, List.filter_append s.indent]
  exact (List.Sublist.refl _).append (sublist_tailRow_without id s.head s.trail s.knots)

/-! ## What is left -/

theorem groups_without (s : Strand) :
    (s.without id).row.groups = s.row.groups.map (·.filter (·.keeps id)) := by
  rw [groups_row, groups_row, without, List.map_cons, List.map_map, List.map_map]
  simp only [Core.nodes_without, Function.comp_def, Knot.without]

theorem nodes_without (s : Strand) :
    (s.without id).row.nodes = s.row.nodes.filter (·.keeps id) := by
  rw [nodes_eq_flatten, nodes_eq_flatten, groups_without, List.filter_flatten]

theorem all_groups_without (h : ∀ g ∈ s.row.groups, ∃ e ∈ g, e.keeps id = true) :
    (s.without id).row.groups.all (!·.isEmpty) = true := by
  rw [groups_without, List.all_map, List.all_eq_true]
  intro g hg
  obtain ⟨e, he, hkeeps⟩ := h g hg
  simp only [Function.comp_apply, Bool.not_eq_true', List.isEmpty_eq_false_iff]
  exact List.ne_nil_of_mem (List.mem_filter.2 ⟨he, hkeeps⟩)

theorem full_of_groups (h : [] ∉ s.row.groups) : s.Full := by
  have hrow : ∀ c : Core, c.row.nodes ∈ s.row.groups → c.row ≠ [] := by
    intro c hc hnil
    rw [hnil] at hc
    exact h hc
  rw [groups_row] at hrow
  refine ⟨hrow _ List.mem_cons_self, fun k hk => hrow _ (List.mem_cons_of_mem _ ?_)⟩
  exact List.mem_map_of_mem hk

/-- A strand without a trail ends in a group. -/
theorem trimRight_written (htrail : s.trail = []) (hfull : s.Full) :
    Text.trimRight s.row.written = s.row.written := by
  have tight : ∀ (c : Core) (knots : List Knot), c.row ≠ [] → (∀ k ∈ knots, k.core.row ≠ []) →
      (c.row ++ tailRow [] knots).written ≠ [] ∧
        Text.Stops Text.isBlank (c.row ++ tailRow [] knots).written.reverse := by
    intro c knots hc hknots
    induction knots generalizing c with
    | nil =>
      have htight := c.tight_written hc
      simpa [tailRow] using And.intro htight.ne_nil htight.back
    | cons k ks ih =>
      obtain ⟨hne, hback⟩ :=
        ih k.core (hknots k List.mem_cons_self) fun k' hk' => hknots k' (List.mem_cons_of_mem _ hk')
      have hparts : (c.row ++ tailRow [] (k :: ks)).written =
          (c.row ++ (k.gap ++ (.arrow k.tip :: k.space))).written ++
            (k.core.row ++ tailRow [] ks).written := by
        simp [tailRow_cons]
      rw [hparts, List.reverse_append]
      refine ⟨List.append_ne_nil_of_right_ne_nil _ hne, ?_⟩
      exact Text.stops_append_of_ne_nil (mt List.reverse_eq_nil_iff.1 hne) hback _
  obtain ⟨hne, hback⟩ := tight s.head s.knots hfull.head hfull.knots
  have htrim := Text.trimRight_append (t := s.row.written) Text.isBlank_of_mem_nil ?_
  · rwa [List.append_nil] at htrim
  · rw [row, htrail, written_append, List.reverse_append]
    exact Text.stops_append_of_ne_nil (mt List.reverse_eq_nil_iff.1 hne) hback _

end Strand
end Chartwright
