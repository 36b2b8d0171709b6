import Chartwright.Text.Basic
/-!
Endpoints: what a path and a method name. A fixed name wins over a parameter in the same place, for
the methods that it has; parameters are never empty.

One line feed may follow a path that ends in a fixed name; at the end of a parameter it belongs to
the parameter.
-/
namespace Chartwright

inductive Endpoint where
  | health | state | code | setCode | summary | undo | redo | direction | setDirection
  | nodes | insertNode | nextId | node (id : Text) | updateNode (id : Text) | deleteNode (id : Text)
  | duplicateNode (id : Text) | nodeLocation (id : Text)
  | nodeStyle (id : Text) | restyleNode (id : Text)
  | edges | createEdge | updateEdge | deleteEdge | edgeLocation
  | subgraphs | createSubgraph | updateSubgraph (id : Text) | deleteSubgraph (id : Text)
  | addMember (subgraph node : Text) | removeMember (subgraph node : Text)
  | restyleSubgraph (id : Text)
  | styles | selection | select | renderResult | resolveElement
  | newFile | openFile | saveFile | shapes | arrows
deriving DecidableEq, Repr

namespace Endpoint

/-- The endpoints by method of a path that ends in a fixed name, the path given by its segments. -/
def ofNamed : List String → List (String × Endpoint)
  | ["api", "health"] => [("GET", health)]
  | ["api", "state"] => [("GET", state)]
  | ["api", "code"] => [("GET", code), ("PUT", setCode)]
  | ["api", "diagram", "summary"] => [("GET", summary)]
  | ["api", "undo"] => [("POST", undo)]
  | ["api", "redo"] => [("POST", redo)]
  | ["api", "direction"] => [("GET", direction), ("PUT", setDirection)]
  | ["api", "nodes"] => [("GET", nodes), ("POST", insertNode)]
  | ["api", "nodes", "next-id"] => [("GET", nextId)]
  | ["api", "nodes", id, "duplicate"] => [("POST", duplicateNode id.toList)]
  | ["api", "nodes", id, "location"] => [("GET", nodeLocation id.toList)]
  | ["api", "nodes", id, "style"] =>
    [("GET", nodeStyle id.toList), ("PATCH", restyleNode id.toList)]
  | ["api", "edges"] => [("GET", edges), ("POST", createEdge), ("PATCH", updateEdge)]
  | ["api", "edges", "delete"] => [("POST", deleteEdge)]
  | ["api", "edges", "location"] => [("POST", edgeLocation)]
  | ["api", "subgraphs"] => [("GET", subgraphs), ("POST", createSubgraph)]
  | ["api", "subgraphs", id, "style"] => [("PATCH", restyleSubgraph id.toList)]
  | ["api", "styles"] => [("GET", styles)]
  | ["api", "selection"] => [("GET", selection), ("PUT", select)]
  | ["api", "render-result"] => [("POST", renderResult)]
  | ["api", "resolve-element"] => [("POST", resolveElement)]
  | ["api", "file", "new"] => [("POST", newFile)]
  | ["api", "file", "open"] => [("POST", openFile)]
  | ["api", "file", "save"] => [("POST", saveFile)]
  | ["api", "enums", "shapes"] => [("GET", shapes)]
  | ["api", "enums", "arrows"] => [("GET", arrows)]
  | _ => []

/-- The endpoints by method of a path that ends in a parameter, the path given by its segments. -/
def ofParameter : List String → List (String × Endpoint)
  | ["api", "nodes", id] =>
    [("GET", node id.toList), ("PATCH", updateNode id.toList), ("DELETE", deleteNode id.toList)]
  | ["api", "subgraphs", id] =>
    [("PATCH", updateSubgraph id.toList), ("DELETE", deleteSubgraph id.toList)]
  | ["api", "subgraphs", id, "nodes", member] =>
    [("POST", addMember id.toList member.toList), ("DELETE", removeMember id.toList member.toList)]
  | _ => []

/-- The segments of a path, none of them empty; nothing for a text that is no such path. -/
def segments? (path : Text) : Option (List String) :=
  match Text.pieces '/' path with
  | [] :: segments => if segments.any List.isEmpty then none else some (segments.map String.ofList)
  | _ => none

/-- The endpoints of a path by method, those at a fixed name first; none when the path names
nothing. -/
def ofPath (path : Text) : List (String × Endpoint) :=
  ((segments? (Text.withoutLineFeed path)).map ofNamed).getD [] ++
    ((segments? path).map ofParameter).getD []

/-- A path without the slashes at its end. -/
def withoutSlashes (path : Text) : Text := (path.reverse.dropWhile (· = '/')).reverse

end Endpoint
end Chartwright
