import Chartwright.Wire.Entity
/-!
Requests: what a client may ask for, as values that have been checked. Members that may be left out
have defaults; members that are not known are ignored.
-/
namespace Chartwright

namespace Request

/-- Replace the whole text. -/
structure SetCode where
  code : Text
  record : Bool
deriving DecidableEq, Repr

structure SetDirection where
  direction : Direction
deriving DecidableEq, Repr

/-- Insert a node after an anchor; without an identifier one is allocated. -/
structure InsertNode where
  anchor : Text
  label : Text
  shape : Shape
  id : Option Text
deriving DecidableEq, Repr

/-- Relabel a node, reshape it, or both. -/
structure UpdateNode where
  label : Option Text
  shape : Option Shape
deriving DecidableEq, Repr

structure CreateEdge where
  source : Text
  target : Text
  label : Option Text
  arrow : Arrow
deriving DecidableEq, Repr

/-- Relabel an edge, change its arrow, or both. -/
structure UpdateEdge where
  edge : Edge
  label : Option Text
  arrow : Option Arrow
deriving DecidableEq, Repr

structure OfEdge where
  edge : Edge
deriving DecidableEq, Repr

structure CreateSubgraph where
  id : Text
  title : Text
  members : List Text
deriving DecidableEq, Repr

structure UpdateSubgraph where
  title : Text
deriving DecidableEq, Repr

/-- Select a node, an edge or a subgraph, whichever is given first; nothing given clears the
selection. -/
structure Select where
  node : Option Text
  edge : Option Edge
  group : Option Text
deriving DecidableEq, Repr

structure RenderResult where
  error : Option Text
deriving DecidableEq, Repr

structure ResolveElement where
  element : Text
deriving DecidableEq, Repr

structure OpenFile where
  path : Text
deriving DecidableEq, Repr

structure SaveFile where
  path : Option Text
deriving DecidableEq, Repr

/-- What a new node is called when no label is given. -/
def defaultNodeLabel : Text := "New Node".toList

namespace SetCode

def check (whole : Fault) : Check SetCode :=
  Check.record whole fun ms =>
    SetCode.mk <$> Check.field "code" Check.text ms <*>
      Check.fieldOr "record_history" true Check.boolean ms

def toJson (r : SetCode) : Json :=
  .ofMembers [("code", .text r.code), ("record_history", .bool r.record)]

end SetCode

namespace SetDirection

def check (whole : Fault) : Check SetDirection :=
  Check.record whole fun ms =>
    SetDirection.mk <$> Check.field "direction" (Check.choice Direction.named?) ms

def toJson (r : SetDirection) : Json := .ofMembers [("direction", r.direction.toJson)]

end SetDirection

namespace InsertNode

def check (whole : Fault) : Check InsertNode :=
  Check.record whole fun ms =>
    InsertNode.mk <$> Check.field "anchor_id" Check.text ms <*>
      Check.fieldOr "label" defaultNodeLabel Check.text ms <*>
      Check.fieldOr "shape" .rectangle Shape.check ms <*>
      Check.fieldOr "node_id" none (Check.optional Check.text) ms

def toJson (r : InsertNode) : Json :=
  .ofMembers [("anchor_id", .text r.anchor), ("label", .text r.label),
    ("shape", .text r.shape.name), ("node_id", .ofText? r.id)]

end InsertNode

namespace UpdateNode

def check (whole : Fault) : Check UpdateNode :=
  Check.record whole fun ms =>
    UpdateNode.mk <$> Check.fieldOr "label" none (Check.optional Check.text) ms <*>
      Check.fieldOr "shape" none (Check.optional Shape.check) ms

def toJson (r : UpdateNode) : Json :=
  .ofMembers [("label", .ofText? r.label), ("shape", .ofText? (r.shape.map Shape.name))]

end UpdateNode

namespace CreateEdge

def check (whole : Fault) : Check CreateEdge :=
  Check.record whole fun ms =>
    let ms := Check.rename "to" "target" (Check.rename "from" "source" ms)
    CreateEdge.mk <$> Check.field "source" Check.text ms <*> Check.field "target" Check.text ms <*>
      Check.fieldOr "label" none (Check.optional Check.text) ms <*>
      Check.fieldOr "arrow_type" .plain Arrow.check ms

def toJson (r : CreateEdge) : Json :=
  .ofMembers [("source", .text r.source), ("target", .text r.target), ("label", .ofText? r.label),
    ("arrow_type", .text r.arrow.glyph)]

end CreateEdge

namespace UpdateEdge

def check (whole : Fault) : Check UpdateEdge :=
  Check.record whole fun ms =>
    UpdateEdge.mk <$> Check.field "edge" (Edge.check whole) ms <*>
      Check.fieldOr "label" none (Check.optional Check.text) ms <*>
      Check.fieldOr "arrow_type" none (Check.optional Arrow.check) ms

def toJson (r : UpdateEdge) : Json :=
  .ofMembers [("edge", r.edge.toJson), ("label", .ofText? r.label),
    ("arrow_type", .ofText? (r.arrow.map Arrow.glyph))]

end UpdateEdge

namespace OfEdge

def check (whole : Fault) : Check OfEdge :=
  Check.record whole fun ms => OfEdge.mk <$> Check.field "edge" (Edge.check whole) ms

def toJson (r : OfEdge) : Json := .ofMembers [("edge", r.edge.toJson)]

end OfEdge

namespace CreateSubgraph

def check (whole : Fault) : Check CreateSubgraph :=
  Check.record whole fun ms =>
    CreateSubgraph.mk <$> Check.field "id" Check.text ms <*>
      Check.fieldOr "title" [] Check.text ms <*>
      Check.fieldOr "node_ids" [] (Check.listOf Check.text) ms

def toJson (r : CreateSubgraph) : Json :=
  .ofMembers [("id", .text r.id), ("title", .text r.title), ("node_ids", .ofTexts r.members)]

end CreateSubgraph

namespace UpdateSubgraph

def check (whole : Fault) : Check UpdateSubgraph :=
  Check.record whole fun ms => UpdateSubgraph.mk <$> Check.field "title" Check.text ms

def toJson (r : UpdateSubgraph) : Json := .ofMembers [("title", .text r.title)]

end UpdateSubgraph

namespace Select

def check (whole : Fault) : Check Select :=
  Check.record whole fun ms =>
    Select.mk <$> Check.fieldOr "node_id" none (Check.optional Check.text) ms <*>
      Check.fieldOr "edge" none (Check.optional (Edge.check whole)) ms <*>
      Check.fieldOr "group_id" none (Check.optional Check.text) ms

def toJson (r : Select) : Json :=
  .ofMembers [("node_id", .ofText? r.node), ("edge", (r.edge.map Edge.toJson).getD .null),
    ("group_id", .ofText? r.group)]

end Select

namespace RenderResult

def check (whole : Fault) : Check RenderResult :=
  Check.record whole fun ms =>
    RenderResult.mk <$> Check.fieldOr "error" none (Check.optional Check.text) ms

def toJson (r : RenderResult) : Json := .ofMembers [("error", .ofText? r.error)]

end RenderResult

namespace ResolveElement

def check (whole : Fault) : Check ResolveElement :=
  Check.record whole fun ms => ResolveElement.mk <$> Check.field "element_id" Check.text ms

def toJson (r : ResolveElement) : Json := .ofMembers [("element_id", .text r.element)]

end ResolveElement

namespace OpenFile

def check (whole : Fault) : Check OpenFile :=
  Check.record whole fun ms => OpenFile.mk <$> Check.field "file_path" Check.text ms

end OpenFile

namespace SaveFile

def check (whole : Fault) : Check SaveFile :=
  Check.record whole fun ms =>
    SaveFile.mk <$> Check.fieldOr "file_path" none (Check.optional Check.text) ms

end SaveFile
end Request
end Chartwright
