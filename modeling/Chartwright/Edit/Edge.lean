import Chartwright.Edit.Node
import Chartwright.Buffer.Locate
/-!
Edits of edges: adding one, deleting one, and changing its label or arrow. An edge is found again by
its line, source and target; one whose line now shows another link is out of date, and editing it
changes nothing.
-/
namespace Chartwright.Buffer

/-- A buffer with one more edge, on a line after the last that is not blank. -/
def connect (b : Buffer) (source target label : Text) (arrow : Arrow) : Buffer :=
  b.append [linkLine source arrow label target]

/-- The link that an edge was found as, with its column, if its line still shows it. -/
def linkOf? (b : Buffer) (e : Edge) : Option (Nat × Link) := do
  let line ← b.lineAt? e.line
  let (column, l) ← Line.link? line
  if l.source = e.source && l.target = e.target then some (column, l) else none

/-- The place of the arrow of a link that starts at `column`. -/
def arrowSpan (column : Nat) (l : Link) : Span :=
  let start := column + l.source.length + l.inline.length + l.connector.gap.length
  ⟨start, start + l.connector.arrow.length⟩

/-- The place of the label part of a link, empty and right after the arrow when it has none. -/
def labelPartSpan (column : Nat) (l : Link) : Span :=
  let start := (arrowSpan column l).stop
  ⟨start, start + l.connector.labelPart.length⟩

/-- The buffer with a span of the line of an edge replaced. -/
def spliceEdgeLine (b : Buffer) (e : Edge) (s : Span) (new : Text) : Buffer :=
  b.set e.line.toNat (s.splice new (b.line e.line.toNat))

/-- A buffer without the line of an edge. -/
def deleteEdge (b : Buffer) (e : Edge) : Buffer :=
  match b.linkOf? e with
  | none => b
  | some _ => b.eraseIdx e.line.toNat

/-- Another label for an edge; an empty one removes the label. -/
def relabelEdge (b : Buffer) (e : Edge) (label : Text) : Buffer :=
  match b.linkOf? e with
  | none => b
  | some (column, l) => b.spliceEdgeLine e (labelPartSpan column l) (writeLabel label)

/-- Another arrow for an edge; nothing if the edge is out of date. -/
def rearrowEdge? (b : Buffer) (e : Edge) : Option (Arrow → Buffer) :=
  (b.linkOf? e).map fun (column, l) arrow => b.spliceEdgeLine e (arrowSpan column l) arrow.glyph

end Chartwright.Buffer
