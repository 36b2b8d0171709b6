import Chartwright.Buffer.Entities
/-!
The edge on a line.

It is the link of the line, unless the line is a directive or the link starts with a keyword
(`Buffer.edgeOn?_eq_some_iff`). The number of its line is all that it has of the place where the
line stands (`Buffer.edgeOn?_eq_map`).
-/
namespace Chartwright

/-- The edge that a link on line `i` is. -/
def Link.edge (l : Link) (i : Nat) : Edge where
  source := l.source
  target := l.target
  label := (l.connector.label.map (·.text)).getD []
  arrow := Arrow.ofSpelling l.connector.arrow
  line := i

/-- An edge without the number of its line. -/
def Edge.unplaced (e : Edge) : Edge := { e with line := 0 }

namespace Buffer

variable {line : Line} {i : Nat} {e : Edge}

/-- The edge on a line is its link, if the line is no directive and the link does not start with a
keyword. -/
theorem edgeOn?_eq_some_iff : edgeOn? line i = some e ↔
    Line.isDirective line = false ∧ ∃ column l, Line.link? line = some (column, l) ∧
      Keyword.isKeyword l.source = false ∧ e = l.edge i := by
  rw [edgeOn?, Option.ite_none_left_eq_some, Bool.not_eq_true]
  refine and_congr_right fun _ => ?_
  cases Line.link? line with
  | none => simp
  | some found =>
    simp only [Option.ite_none_left_eq_some, Bool.not_eq_true, Option.some.injEq]
    constructor
    · rintro ⟨hname, rfl⟩
      exact ⟨_, _, rfl, hname, rfl⟩
    · rintro ⟨column, l, rfl, hname, rfl⟩
      exact ⟨hname, rfl⟩

theorem edgeOn?_eq_map (line : Line) (i : Nat) :
    edgeOn? line i = (edgeOn? line 0).map fun e => { e with line := i } := by
  rw [edgeOn?, edgeOn?]
  split
  · rfl
  · split
    · rfl
    · split <;> rfl

theorem edgeOn?_move (h : edgeOn? line i = some e) (j : Nat) :
    edgeOn? line j = some { e with line := j } ∧ e.line = i := by
  obtain ⟨hline, column, l, hlink, hname, rfl⟩ := edgeOn?_eq_some_iff.1 h
  exact ⟨edgeOn?_eq_some_iff.2 ⟨hline, column, l, hlink, hname, rfl⟩, rfl⟩

theorem edgeOn?_unplaced (line : Line) (i : Nat) :
    (edgeOn? line i).map Edge.unplaced = edgeOn? line 0 := by
  rw [edgeOn?_eq_map line i, Option.map_map]
  exact (edgeOn?_eq_map line 0).symm

theorem mem_edges {b : Buffer} :
    e ∈ b.edges ↔ ∃ i line, b[i]? = some line ∧ edgeOn? line i = some e := by
  simp only [edges, List.mem_filterMap, Prod.exists, List.mem_zipIdx_iff_getElem?]
  exact exists_comm

end Buffer
end Chartwright
