import Chartwright.Buffer.Entities
import Chartwright.Proofs.Line.Directive
/-!
What the scans read off one line.

A scan goes line by line, and reads of a line no more than its view (`Line.View`). A directive adds
no nodes and edges to it (`Line.shows_nothing_of_isDirective`), and a line does one thing at most:
it opens a subgraph, closes one, or sets a style (`Line.not_opensSubgraph_of_closesSubgraph`,
`StyleLine.read_of_opensSubgraph`, `StyleLine.read_of_closesSubgraph`).
-/
namespace Chartwright

/-- What a declaration says, wherever it stands on its line. -/
def Declaration.content (d : Declaration) : Text × Bracket × Text := (d.id, d.bracket, d.label)

namespace Line

/-- What a line declares: identifiers with a label and a shape. -/
def declares (line : Line) : List (Text × Text × Shape) :=
  (declarations line).map fun d => (d.id, d.label, d.bracket.shape)

/-- What a line only refers to, if it holds an arrow: identifiers that carry themselves as
labels. -/
def refers (line : Line) : List (Text × Text × Shape) :=
  if hasArrow line then (identifiers line).map fun name => (name, name, .rectangle) else []

theorem mem_refers {line : Line} {name : Text} {shown : Text × Shape}
    (h : (name, shown) ∈ refers line) : name ∈ identifiers line ∧ shown = (name, .rectangle) := by
  unfold refers at h
  split at h
  · obtain ⟨other, hother, heq⟩ := List.mem_map.1 h
    cases heq
    exact ⟨hother, rfl⟩
  · cases h

/-- What a line declares, refers to and names, the edge and the style on it, and what it does to the
open subgraphs. -/
structure View where
  declared : List (Text × Bracket × Text)
  refers : List (Text × Text × Shape)
  identifiers : List Text
  edge : Option Edge
  style : Except Integer.TooLong (Option StyleLine)
  opens : Bool
  closes : Bool
  heading : Option (Text × Text)

/-- The view of a line, its edge numbered as on the first line. -/
def view (line : Line) : View where
  declared := (declarations line).map Declaration.content
  refers := refers line
  identifiers := identifiers line
  edge := Buffer.edgeOn? line 0
  style := StyleLine.read line
  opens := opensSubgraph line
  closes := closesSubgraph line
  heading := (Opening.read? line).map fun (o, _) => (o.id, o.caption)

/-- The view without what a line names and links. -/
def View.outline (v : View) : View :=
  { v with declared := [], refers := [], identifiers := [], edge := none }

/-- A directive declares, refers to and links nothing. -/
theorem shows_nothing_of_isDirective {line : Line} (h : isDirective line = true) :
    declares line = [] ∧ refers line = [] ∧ Buffer.edgeOn? line 0 = none := by
  refine ⟨?_, ?_, if_pos h⟩
  · rw [declares, declarations_of_isDirective h, List.map_nil]
  · rw [refers, identifiers_of_isDirective h, List.map_nil, ite_self]

/-- The word `end` opens nothing. -/
theorem not_opensSubgraph_of_closesSubgraph {line : Line} (h : closesSubgraph line = true) :
    opensSubgraph line = false := by
  obtain ⟨run, hrun, -⟩ := exists_of_closesSubgraph h
  rw [opensSubgraph, hrun]
  rfl

end Line

namespace StyleLine

theorem read_of_after?_eq_none {line : Line}
    (h : Text.after? "style".toList (Text.trimLeft line) = none) : read line = .ok none := by
  rw [read, parts?, afterWord?, h]
  rfl

/-- A line that opens a subgraph sets no style. -/
theorem read_of_opensSubgraph {line : Line} (h : Line.opensSubgraph line = true) :
    read line = .ok none := by
  apply read_of_after?_eq_none
  rw [Line.opensSubgraph] at h
  split at h
  · next rest hword =>
    rw [Text.after?_eq_some_iff.1 hword]
    rfl
  · cases h

/-- Nor does a line that closes one. -/
theorem read_of_closesSubgraph {line : Line} (h : Line.closesSubgraph line = true) :
    read line = .ok none := by
  apply read_of_after?_eq_none
  obtain ⟨run, hrun, -⟩ := Line.exists_of_closesSubgraph h
  rw [hrun]
  rfl

end StyleLine
end Chartwright
