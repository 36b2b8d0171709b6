import Chartwright.Proofs.Buffer.Shown
import Chartwright.Proofs.Line.Places
/-!
The ends of edges among the nodes.

An end of an edge stands on its line as a whole identifier. So it is a node unless it is hidden from
the scan for identifiers, in the label of an arrow or in a class suffix
(`Line.mem_identifiers_of_place`), or is a keyword, which no node is called by
(`nodes_edges_wellFormed`).
-/
namespace Chartwright

namespace Buffer

variable {b : Buffer} {i : Nat}

theorem not_isKeyword_of_mem_nodes {n : Node} (h : n ∈ b.nodes) :
    Keyword.isKeyword n.id = false := by
  rcases List.mem_append.1 (mem_distinctBy h) with h | h
  · obtain ⟨i, line, -, d, hd, rfl⟩ := mem_declaredNodes.1 h
    obtain ⟨-, -, -, -, -, hname, -⟩ := Line.exists_of_mem_declarations hd
    exact hname
  · obtain ⟨i, line, -, -, name, hname, rfl⟩ := mem_referredNodes.1 h
    rw [Line.identifiers] at hname
    split at hname
    · cases hname
    · simpa using (List.mem_filter.1 (mem_distinctBy hname)).2

theorem exists_mem_nodes_of_identifiers {name : Text} (hi : i < b.length)
    (harrow : Line.hasArrow (b.line i) = true) (h : name ∈ Line.identifiers (b.line i)) :
    ∃ n ∈ b.nodes, n.id = name := by
  have hnode : (⟨name, name, .rectangle, i⟩ : Node) ∈ referredNodes b :=
    mem_referredNodes.2 ⟨i, b.line i, getElem?_eq_line hi, harrow, name, h, rfl⟩
  exact exists_mem_distinctBy (List.mem_append_right (declaredNodes b) hnode)

/-- Nodes are called by different names, none of them a keyword. The source of an edge is a node
unless it stands in the label of an arrow or in a class suffix; so is the target, if it is no
keyword, and then only. -/
theorem nodes_edges_wellFormed (b : Buffer) :
    (b.nodes.map (·.id)).Nodup ∧ (∀ n ∈ b.nodes, Keyword.isKeyword n.id = false) ∧
    ∀ e ∈ b.edges, ∃ (i column : Nat) (l : Link), e.line = i ∧
      Line.link? (b.line i) = some (column, l) ∧ e.source = l.source ∧ e.target = l.target ∧
      (Line.hidesAt (b.line i) column = false → ∃ n ∈ b.nodes, n.id = e.source) ∧
      (Line.hidesAt (b.line i) (column + l.targetStart) = false →
        ((∃ n ∈ b.nodes, n.id = e.target) ↔ Keyword.isKeyword e.target = false)) := by
  refine ⟨nodup_map_distinctBy .., fun n hn => not_isKeyword_of_mem_nodes hn, fun e he => ?_⟩
  obtain ⟨i, line, hi, hedge⟩ := mem_edges.1 he
  obtain ⟨hplain, column, l, hlink, hname, rfl⟩ := edgeOn?_eq_some_iff.1 hedge
  obtain rfl : b.line i = line := by rw [Buffer.line, hi, Option.getD_some]
  have hi := (List.getElem?_eq_some_iff.1 hi).1
  obtain ⟨hstart, hend, harrow⟩ := Line.places_of_link? hlink
  refine ⟨i, column, l, rfl, hlink, rfl, rfl, fun hshown => ?_, fun hshown => ⟨?_, fun hnot => ?_⟩⟩
  · exact exists_mem_nodes_of_identifiers hi harrow
      (Line.mem_identifiers_of_place hplain hstart hshown hname)
  · rintro ⟨n, hn, hid⟩
    exact hid ▸ not_isKeyword_of_mem_nodes hn
  · exact exists_mem_nodes_of_identifiers hi harrow
      (Line.mem_identifiers_of_place hplain hend hshown hnot)

/-- A target that is a keyword, a source in a class suffix and a source in the label of an arrow are
no nodes. -/
theorem dangling_ends :
    (∃ e ∈ edges ["A --> end".toList], ∀ n ∈ nodes ["A --> end".toList], n.id ≠ e.target) ∧
    (∃ e ∈ edges ["A:::hot --> B".toList], ∀ n ∈ nodes ["A:::hot --> B".toList], n.id ≠ e.source) ∧
    ∃ e ∈ edges ["A -->|x --> B| & C".toList], ∀ n ∈ nodes ["A -->|x --> B| & C".toList],
      n.id ≠ e.source := by
  decide

end Buffer
end Chartwright
