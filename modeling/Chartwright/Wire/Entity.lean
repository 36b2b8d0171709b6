import Chartwright.Buffer.Locate
import Chartwright.Buffer.Summary
import Chartwright.Wire.Checked
/-!
Entities as JSON values, and the checks that read them back. Entities that a client describes carry
line numbers that no buffer vouches for, so these are arbitrary integers.
-/
namespace Chartwright

namespace Direction

def toJson (d : Direction) : Json := .text d.token

end Direction

namespace Shape

def check : Check Shape := Check.choice named?

end Shape

namespace Arrow

def check : Check Arrow := Check.choice named?

end Arrow

namespace Style

/-- All five properties, null where one is not set. -/
def toJson (s : Style) : Json :=
  .ofMembers [("fill", .ofText? s.fill), ("stroke", .ofText? s.stroke),
    ("stroke_width", .ofInt? s.strokeWidth), ("color", .ofText? s.color), ("rx", .ofInt? s.rx)]

/-- The properties that are set. -/
def setMembers (s : Style) : List (String × Json) :=
  (s.fill.map fun t => ("fill", Json.text t)).toList ++
    (s.stroke.map fun t => ("stroke", Json.text t)).toList ++
    (s.strokeWidth.map fun n => ("stroke_width", Json.int n)).toList ++
    (s.color.map fun t => ("color", Json.text t)).toList ++
    (s.rx.map fun n => ("rx", Json.int n)).toList

def setToJson (s : Style) : Json := .ofMembers s.setMembers

def check (whole : Fault) : Check Style :=
  Check.record whole fun ms =>
    (fun fill stroke strokeWidth color rx => ({ fill, stroke, strokeWidth, color, rx } : Style)) <$>
      Check.fieldOr "fill" none (Check.optional Check.text) ms <*>
      Check.fieldOr "stroke" none (Check.optional Check.text) ms <*>
      Check.fieldOr "stroke_width" none (Check.optional Check.integer) ms <*>
      Check.fieldOr "color" none (Check.optional Check.text) ms <*>
      Check.fieldOr "rx" none (Check.optional Check.integer) ms

end Style

namespace Edge

def toJson (e : Edge) : Json :=
  .ofMembers [("source", .text e.source), ("target", .text e.target), ("label", .text e.label),
    ("arrow_type", .text e.arrow.glyph), ("line_index", .int e.line)]

/-- The members of an edge under their present names. -/
def renamed (ms : List (Text × Json)) : List (Text × Json) :=
  Check.rename "lineIndex" "line_index" (Check.rename "arrowType" "arrow_type"
    (Check.rename "to" "target" (Check.rename "from" "source" ms)))

def check (whole : Fault) : Check Edge :=
  Check.record whole fun ms =>
    let ms := renamed ms
    (fun source target label arrow line => ({ source, target, label, arrow, line } : Edge)) <$>
      Check.field "source" Check.text ms <*> Check.field "target" Check.text ms <*>
      Check.fieldOr "label" [] Check.text ms <*>
      Check.fieldOr "arrow_type" .plain Arrow.check ms <*>
      Check.field "line_index" Check.integer ms

end Edge

namespace Node

def toJson (n : Node) : Json :=
  .ofMembers [("id", .text n.id), ("label", .text n.label), ("shape", .text n.shape.name),
    ("line_index", .ofNat n.line)]

end Node

namespace Subgraph

def toJson (g : Subgraph) : Json :=
  .ofMembers [("id", .text g.id), ("title", .text g.title), ("nodes", .ofTexts g.members),
    ("line_start", .ofNat g.opening), ("line_end", .ofNat g.closing)]

end Subgraph

namespace Location

def toJson (l : Location) : Json :=
  .ofMembers [("line", .ofNat l.line), ("column", .ofNat l.column)]

end Location

/-- A node as a client describes it. -/
structure NodeRecord where
  id : Text
  label : Text
  shape : Shape
  line : Int
deriving DecidableEq, Repr

namespace NodeRecord

def toJson (n : NodeRecord) : Json :=
  .ofMembers [("id", .text n.id), ("label", .text n.label), ("shape", .text n.shape.name),
    ("line_index", .int n.line)]

def check (whole : Fault) : Check NodeRecord :=
  Check.record whole fun ms =>
    NodeRecord.mk <$> Check.field "id" Check.text ms <*> Check.field "label" Check.text ms <*>
      Check.fieldOr "shape" .rectangle Shape.check ms <*>
      Check.fieldOr "line_index" (-1) Check.integer ms

end NodeRecord

/-- A subgraph as a client describes it. -/
structure SubgraphRecord where
  id : Text
  title : Text
  members : List Text
  opening : Int
  closing : Int
deriving DecidableEq, Repr

namespace SubgraphRecord

def toJson (g : SubgraphRecord) : Json :=
  .ofMembers [("id", .text g.id), ("title", .text g.title), ("nodes", .ofTexts g.members),
    ("line_start", .int g.opening), ("line_end", .int g.closing)]

def check (whole : Fault) : Check SubgraphRecord :=
  Check.record whole fun ms =>
    SubgraphRecord.mk <$> Check.field "id" Check.text ms <*> Check.field "title" Check.text ms <*>
      Check.fieldOr "nodes" [] (Check.listOf Check.text) ms <*>
      Check.field "line_start" Check.integer ms <*> Check.field "line_end" Check.integer ms

end SubgraphRecord

/-- A location as a client describes it. -/
structure LocationRecord where
  line : Int
  column : Int
deriving DecidableEq, Repr

namespace LocationRecord

def toJson (l : LocationRecord) : Json :=
  .ofMembers [("line", .int l.line), ("column", .int l.column)]

def check (whole : Fault) : Check LocationRecord :=
  Check.record whole fun ms =>
    LocationRecord.mk <$> Check.field "line" Check.integer ms <*>
      Check.fieldOr "column" 0 Check.integer ms

end LocationRecord

namespace Connections

def toJson (c : Connections) : Json :=
  .ofMembers [("id", .text c.id), ("label", .text c.label), ("connections", .ofNat c.total),
    ("incoming", .ofNat c.incoming), ("outgoing", .ofNat c.outgoing)]

end Connections

namespace Summary

def toJson (s : Summary) : Json :=
  .ofMembers [("direction", s.direction.toJson), ("total_nodes", .ofNat s.nodes),
    ("total_edges", .ofNat s.edges), ("total_subgraphs", .ofNat s.subgraphs),
    ("styled_ids", .ofTexts s.styled),
    ("nodes_by_shape", .object (s.byShape.map fun (shape, n) => (shape.name, .ofNat n))),
    ("edges_by_arrow", .object (s.byArrow.map fun (arrow, n) => (arrow.glyph, .ofNat n))),
    ("most_connected_nodes", .list (s.mostConnected.map Connections.toJson)),
    ("orphan_nodes", .ofTexts s.orphans)]

end Summary
end Chartwright
