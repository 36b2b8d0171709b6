import Chartwright.Proofs.Line.EdgeOn
import Chartwright.Proofs.Line.LinkRead
import Chartwright.Proofs.Line.StyleText
import Chartwright.Proofs.Line.View
import Chartwright.Proofs.Text.Distinct
/-!
What a buffer shows, line by line.

Edges, declared nodes and styles are found on single lines, so up to line numbers they do not depend
on what stands around their line. What is found can be written again: the ends of an edge are
identifiers and its label holds no bar (`Edge.readable_of_edgeOn?`), and a declared label is held by
its brackets (`Line.exists_of_mem_declarations`).
-/
namespace Chartwright

/-! ## Edges -/

/-- The ends of an edge are identifiers, the source no keyword, and the label fits between bars on
one line. -/
structure Edge.Readable (e : Edge) : Prop where
  source_valid : Identifier.valid e.source = true
  target_valid : Identifier.valid e.target = true
  source_named : Keyword.isKeyword e.source = false
  bar_not_mem : '|' ∉ e.label
  lineFeed_not_mem : '\n' ∉ e.label

theorem Edge.readable_of_edgeOn? {line : Line} {i : Nat} {e : Edge} (hline : '\n' ∉ line)
    (h : Buffer.edgeOn? line i = some e) : e.Readable := by
  obtain ⟨-, column, l, hlink, hkeyword, rfl⟩ := Buffer.edgeOn?_eq_some_iff.1 h
  obtain ⟨front, rest, hmask, -, -, hread, -⟩ := Link.exists_of_first? hlink
  obtain ⟨hsource, htarget, hbar⟩ := Link.valid_of_read? hread
  have hfeed : '\n' ∉ Line.maskLabels line :=
    fun hmem => (Text.mem_hide hmem).elim (by decide) hline
  refine ⟨hsource, htarget, hkeyword, ?_, ?_⟩
  · rw [Link.edge]
    cases hlabel : l.connector.label with
    | none => exact List.not_mem_nil
    | some label => exact hbar label hlabel
  · rw [Link.edge]
    cases hlabel : l.connector.label with
    | none => exact List.not_mem_nil
    | some label =>
      intro hmem
      have hmem : '\n' ∈ label.text := hmem
      refine hfeed (hmask ▸ List.mem_append_right _ (List.mem_append_left _ ?_))
      simp [Link.written, Connector.written, Connector.labelPart, hlabel, EdgeLabel.written, hmem]

namespace Buffer

variable {b : Buffer}

/-- The edges of a buffer without the numbers of their lines. -/
def links (b : Buffer) : List Edge := b.filterMap fun line => edgeOn? line 0

theorem links_append (b c : Buffer) : links (b ++ c) = links b ++ links c := List.filterMap_append

theorem map_unplaced_edges (b : Buffer) : b.edges.map Edge.unplaced = b.links := by
  have hread : (fun p : Line × Nat => (edgeOn? p.1 p.2).map Edge.unplaced) =
      (fun line => edgeOn? line 0) ∘ Prod.fst :=
    funext fun p => edgeOn?_unplaced p.1 p.2
  calc b.edges.map Edge.unplaced
      = b.zipIdx.filterMap fun p => (edgeOn? p.1 p.2).map Edge.unplaced := by
        rw [edges, List.map_filterMap]
    _ = (b.zipIdx.map Prod.fst).filterMap fun line => edgeOn? line 0 := by
        rw [hread, List.filterMap_map]
    _ = b.links := by rw [List.zipIdx_map_fst, links]

/-! ## Declarations -/

/-- What is declared in a buffer: identifiers with brackets and a label, from the first line on. -/
def declared (b : Buffer) : List (Text × Bracket × Text) :=
  b.flatMap fun line => (Line.declarations line).map Declaration.content

theorem declared_append (b c : Buffer) : declared (b ++ c) = declared b ++ declared c :=
  List.flatMap_append

theorem mem_declared {entry : Text × Bracket × Text} :
    entry ∈ b.declared ↔ ∃ line ∈ b, ∃ d ∈ Line.declarations line, d.content = entry := by
  simp only [declared, List.mem_flatMap, List.mem_map]

theorem mem_declaredNodes {node : Node} : node ∈ b.declaredNodes ↔
    ∃ i line, b[i]? = some line ∧ ∃ d ∈ Line.declarations line,
      node = ⟨d.id, d.label, d.bracket.shape, i⟩ := by
  simp only [declaredNodes, List.mem_flatMap, Prod.exists, List.mem_zipIdx_iff_getElem?,
    List.mem_map, eq_comm]
  exact exists_comm

theorem mem_referredNodes {node : Node} : node ∈ b.referredNodes ↔ ∃ i line, b[i]? = some line ∧
    Line.hasArrow line = true ∧ ∃ name ∈ Line.identifiers line,
      node = ⟨name, name, .rectangle, i⟩ := by
  simp only [referredNodes, List.mem_flatMap, Prod.exists, List.mem_zipIdx_iff_getElem?,
    List.mem_ite_nil_right, List.mem_map, eq_comm]
  exact exists_comm

/-- If all declarations of an identifier agree, the node has their label and shape. -/
theorem exists_mem_nodes {id label : Text} {bracket : Bracket}
    (hmem : (id, bracket, label) ∈ b.declared)
    (h : ∀ entry ∈ b.declared, entry.1 = id → entry = (id, bracket, label)) :
    ∃ node ∈ b.nodes, node.id = id ∧ node.label = label ∧ node.shape = bracket.shape := by
  obtain ⟨line, hline, d, hd, heq⟩ := mem_declared.1 hmem
  cases heq
  obtain ⟨i, hi⟩ := List.mem_iff_getElem?.1 hline
  have hnode : (⟨d.id, d.label, d.bracket.shape, i⟩ : Node) ∈ b.declaredNodes :=
    mem_declaredNodes.2 ⟨i, line, hi, d, hd, rfl⟩
  -- the first declared node with the identifier is the one that is kept
  have hsome : (b.declaredNodes.find? fun node => decide (node.id = d.id)).isSome = true :=
    List.find?_isSome.2 ⟨_, hnode, decide_eq_true rfl⟩
  obtain ⟨node, hfirst⟩ := Option.isSome_iff_exists.1 hsome
  have hfound : b.nodes.find? (fun node => decide (node.id = d.id)) = some node := by
    rw [nodes, find?_distinctBy, List.find?_append, hfirst]
    rfl
  have hname : node.id = d.id := by simpa using List.find?_some hfirst
  obtain ⟨j, other, hj, d', hd', rfl⟩ := mem_declaredNodes.1 (List.mem_of_find?_eq_some hfirst)
  have hsame := h d'.content (mem_declared.2 ⟨other, List.mem_of_getElem? hj, d', hd', rfl⟩) hname
  simp only [Declaration.content, Prod.mk.injEq] at hsame
  exact ⟨_, List.mem_of_find?_eq_some hfound, hname, hsame.2.2, congrArg Bracket.shape hsame.2.1⟩

theorem mem_ids_of_mem_declared {used : List Text} (h : b.ids = .ok used)
    {entry : Text × Bracket × Text} (hentry : entry ∈ b.declared) : entry.1 ∈ used := by
  obtain ⟨found, -, rfl⟩ := Except.exists_of_map_eq_ok h
  obtain ⟨line, hline, d, hd, rfl⟩ := mem_declared.1 hentry
  obtain ⟨i, hi⟩ := List.mem_iff_getElem?.1 hline
  have hnode : (⟨d.id, d.label, d.bracket.shape, i⟩ : Node) ∈ b.declaredNodes ++ b.referredNodes :=
    List.mem_append_left _ (mem_declaredNodes.2 ⟨i, line, hi, d, hd, rfl⟩)
  obtain ⟨node, hmem, hid⟩ : ∃ node ∈ b.nodes, node.id = d.id := exists_mem_distinctBy hnode
  have hlisted : d.id ∈ b.nodes.map (·.id) := List.mem_map.2 ⟨node, hmem, hid⟩
  exact mem_distinct (List.mem_append_left _ (List.mem_append_left _ hlisted))

/-! ## Styles -/

/-- The style that a line sets, if it sets one that can be read. -/
def styleOn? (line : Line) : Option StyleLine :=
  match StyleLine.read line with
  | .ok found => found
  | .error _ => none

theorem styles_eq (h : ∀ line ∈ b, ∃ found, StyleLine.read line = .ok found) :
    b.styles = .ok (distinctBy (·.id) (b.filterMap styleOn?)) := by
  have hread : b.mapM StyleLine.read = .ok (b.map styleOn?) := by
    induction b with
    | nil => rfl
    | cons line rest ih =>
      obtain ⟨found, hfound⟩ := h line List.mem_cons_self
      have hhead : styleOn? line = found := by rw [styleOn?, hfound]
      rw [List.mapM_cons, hfound, ih fun l hl => h l (List.mem_cons_of_mem _ hl),
        List.map_cons, hhead]
      rfl
  rw [styles, hread, Except.map, List.filterMap_map]
  rfl

theorem exists_read_of_styles {found : List StyleLine} (h : b.styles = .ok found) :
    ∀ line ∈ b, ∃ r, StyleLine.read line = .ok r := by
  obtain ⟨all, hall, -⟩ := Except.exists_of_map_eq_ok h
  clear h
  induction b generalizing all with
  | nil => simp
  | cons line rest ih =>
    rw [List.mapM_cons] at hall
    cases hline : StyleLine.read line with
    | error e =>
      rw [hline] at hall
      cases hall
    | ok r =>
      rw [hline] at hall
      cases hrest : rest.mapM StyleLine.read with
      | error e =>
        simp only [bind, Except.bind, hrest] at hall
        cases hall
      | ok later => exact List.forall_mem_cons.2 ⟨⟨r, hline⟩, ih later hrest⟩

theorem style?_eq (h : ∀ line ∈ b, ∃ found, StyleLine.read line = .ok found) (id : Text) :
    b.style? id =
      .ok (((b.filterMap styleOn?).find? fun s => decide (s.id = id)).map (·.style)) := by
  rw [style?, styles_eq h, Except.map, find?_distinctBy]

theorem read_of_styleOn? {line : Line} {found : StyleLine} (h : styleOn? line = some found) :
    StyleLine.read line = .ok (some found) := by
  unfold styleOn? at h
  split at h
  · next r hread => rw [hread, h]
  · cases h

theorem writable_of_style? {id : Text} {s : Style} (h : b.style? id = .ok (some s)) :
    s.Writable := by
  obtain ⟨found, hfound, -⟩ := Except.exists_of_map_eq_ok h
  rw [style?_eq (exists_read_of_styles hfound)] at h
  obtain ⟨x, hx, rfl⟩ := Option.map_eq_some_iff.1 (Except.ok.inj h)
  obtain ⟨line, -, hline⟩ := List.mem_filterMap.1 (List.mem_of_find?_eq_some hx)
  exact StyleLine.writable_of_read (read_of_styleOn? hline)

theorem brief_merge_style? {id : Text} {present : Option Style} {style : Style}
    (h : b.style? id = .ok present) : ((present.getD .empty).merge style).Brief ↔ style.Brief := by
  refine ⟨Style.Brief.of_merge, Style.Brief.merge ?_⟩
  cases present with
  | none => exact Style.brief_empty
  | some s => exact (writable_of_style? h).brief

theorem mem_ids_of_mem_styles {used : List Text} (h : b.ids = .ok used) {s : StyleLine}
    (hs : s ∈ b.filterMap styleOn?) : s.id ∈ used := by
  obtain ⟨found, hfound, rfl⟩ := Except.exists_of_map_eq_ok h
  rw [styles_eq (exists_read_of_styles hfound)] at hfound
  cases hfound
  obtain ⟨other, hmem, hid⟩ : ∃ other ∈ distinctBy StyleLine.id (b.filterMap styleOn?),
    other.id = s.id :=
    exists_mem_distinctBy hs
  exact mem_distinct (List.mem_append_right _ (List.mem_map.2 ⟨other, hmem, hid⟩))

end Buffer
end Chartwright
