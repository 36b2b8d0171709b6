import Chartwright.Api.Endpoint
import Chartwright.Json.Encoding
import Chartwright.Session.Basic
import Chartwright.Wire.Request
/-!
Replies: what a session answers to a request at an endpoint.

A body is read and checked before anything else happens, so a refused body leaves the session as it
is. Targets that are not found are no errors: the reply says that nothing has changed.
-/
namespace Chartwright

/-- What a handler does not foresee: an error of the session, or a number to be shown that is not
finite. -/
inductive Unforeseen where
  | session (e : SessionError)
  | notFinite
deriving DecidableEq, Repr

namespace Unforeseen

def message : Unforeseen → Text
  | session e => e.message
  | notFinite => "Out of range float values are not JSON compliant".toList

end Unforeseen

/-- A status with a body, or an error that the handler did not foresee. -/
inductive Reply where
  | answered (status : Nat) (body : Json)
  | failed (e : Unforeseen)
deriving Repr

/-- What a session needs of its surroundings: the files, and the file that it is saved to when none
is named. -/
structure Desk where
  session : Session
  store : Store
  stateFile : Option Path
deriving DecidableEq, Repr

/-- The outcome of a request: the reply, the desk after it, whether listeners were called, and
whether the result of a rendering was reported. -/
structure Served where
  reply : Reply
  desk : Desk
  changed : Bool := false
  reported : Bool := false

namespace Reply

/-- An unforeseen error is answered as one of the server. -/
def status : Reply → Nat
  | answered status _ => status
  | failed _ => 500

/-- A reply as it is sent: a body that cannot be written is an unforeseen error. -/
def sent : Reply → Reply
  | answered status body =>
    match (body.write .message).failure with
    | some e => failed (.session (.tooLong e))
    | none => answered status body
  | failed e => failed e

def success (body : List (String × Json)) : Reply :=
  answered 200 (.ofMembers (("success", .bool true) :: body))

/-- Whether something has changed. -/
def changed (isChanged : Bool) (more : List (String × Json)) : Reply :=
  success (("changed", .bool isChanged) :: more)

def detail (status : Nat) (message : Text) : Reply :=
  answered status (.ofMembers [("detail", .text message)])

/-- The body that is refused, issue by issue. -/
def refused (issues : List (List Json × Text)) : Reply :=
  answered 422 (.list (issues.map fun (place, code) =>
    .ofMembers [("loc", .list (.text "body".toList :: place)), ("type", .text code)]))

def ofStep : Step → Json
  | .member name => .text name
  | .item i => .ofNat i

/-- What is wrong with a body. The values at fault are shown as well, so they must be ones that can
be written. -/
def ofIssues (issues : List Issue) : Reply :=
  if issues.all (·.value.isFinite) then
    refused (issues.map fun i => (i.place.map ofStep, i.fault.code))
  else failed .notFinite

end Reply

namespace Body

/-- The reply to a body that is not read to the end for another reason than that it is no JSON. -/
def unreadable : Reply := Reply.detail 400 "There was an error parsing the body".toList

/-- A body as JSON. -/
def parse (body : Text) : Except Reply Json :=
  match Json.Encoding.decode? body with
  | none => .error unreadable
  | some t =>
    match Json.read t with
    | .ok j => .ok j
    | .error (.refused _ offset) =>
      .error (Reply.refused [([.ofNat offset], "json_invalid".toList)])
    | .error _ => .error unreadable

/-- A body as a value that passes a check, or the reply that refuses it. -/
def read {α : Type} (check : Fault → Check α) (body : Text) : Except Reply α :=
  if body.isEmpty then .error (Reply.ofIssues [⟨[], .missing, .null⟩])
  else do
    match check .notRecord (← parse body) with
    | .sound a => .ok a
    | .faulty issues => .error (Reply.ofIssues issues)

end Body

namespace Desk

/-- A reply without any effect. -/
def answer (d : Desk) (reply : Reply) : Served := ⟨reply, d, false, false⟩

/-- The outcome of an operation on the session, and the reply made of its result or failure. -/
def respond {α : Type} (d : Desk) (o : Outcome α) (reply : Except SessionError α → Reply) :
    Served :=
  ⟨reply o.result, { d with session := o.session }, !o.notices.isEmpty, false⟩

/-- The same where no failure is foreseen. -/
def perform {α : Type} (d : Desk) (o : Outcome α) (reply : α → Reply) : Served :=
  d.respond o fun
    | .ok a => reply a
    | .error e => .failed (.session e)

/-- An operation that says only whether it changed something. -/
def change (d : Desk) (o : Outcome Bool) : Served := d.perform o (Reply.changed · [])

/-- A reply that shows something of the text which can fail to be recovered. -/
def recovered {α : Type} (reply : α → Reply) : Except Integer.TooLong α → Reply
  | .ok a => reply a
  | .error e => .failed (.session (.tooLong e))

/-- A request whose body must pass a check. -/
def withBody {α : Type} (d : Desk) (body : Text) (check : Fault → Check α) (serve : α → Served) :
    Served :=
  match Body.read check body with
  | .ok a => serve a
  | .error reply => d.answer reply

/-- A node relabelled, reshaped, or both, as one step of the history. -/
def updateNode (d : Desk) (id : Text) (r : Request.UpdateNode) : Served :=
  let code := d.session.code
  let relabelled :=
    (r.label.map fun label => Command.onLines (·.relabelNode id label) code).getD code
  let reshaped :=
    r.shape.map fun shape =>
      Command.onLines (fun b => ((b.reshapeNode? id).map fun f => f shape).getD b) relabelled
  d.change (d.session.setCode (reshaped.getD relabelled) true)

/-- An edge relabelled, its arrow changed, or both; the second on the edge as the first has left
it. -/
def updateEdge (d : Desk) (r : Request.UpdateEdge) : Served :=
  let relabelled :=
    match r.label with
    | some label => d.session.relabelEdge r.edge label
    | none => d.session.keep false
  d.change (relabelled.andThen fun changed s =>
    match r.arrow with
    | none => s.keep changed
    | some arrow =>
      let now := (s.buffer.edges.find? (·.line = r.edge.line)).getD r.edge
      (s.rearrowEdge (if changed then now else r.edge) arrow.glyph).map (· || changed))

/-- The entity that is given first is selected; if none is, nothing is any more. -/
def targetOf (r : Request.Select) : Target :=
  match r.node, r.edge, r.group with
  | some id, _, _ => .node id
  | none, some e, _ => .edge e
  | none, none, some id => .group id
  | none, none, none => .none

def openFile (d : Desk) (r : Request.OpenFile) : Served :=
  let o := d.session.load d.store (Path.ofText r.path)
  d.respond o fun
    | .ok code =>
      Reply.success [("code", .text code), ("file_path", .ofText? (o.session.path.map Path.toText))]
    | .error e =>
      match e with
      | .noStateFile _ => Reply.detail 404 e.message
      | .invalidState _ _ | .tooLong _ =>
        Reply.detail 400 ("Failed to open file: ".toList ++ e.message)
      | e => .failed (.session e)

/-- The path that a request is saved to: the one it names, or the state file when neither it nor the
session has one. -/
def saveTarget (d : Desk) (r : Request.SaveFile) : Option Path :=
  match r.path with
  | some t => Session.pathOf? t
  | none => if d.session.path.isNone then d.stateFile else none

def saveFile (d : Desk) (r : Request.SaveFile) : Served :=
  let (store, o) := d.session.save d.store (d.saveTarget r)
  ({ d with store := store } : Desk).respond o fun
    | .ok path => Reply.success [("file_path", .text path.toText)]
    | .error e =>
      match e with
      | .file ⟨.nul, _⟩ => Reply.detail 400 e.message
      | .file _ => Reply.detail 500 ("Failed to save: ".toList ++ e.message)
      | e => Reply.detail 400 e.message

def nodeReply (d : Desk) (id : Text) : Reply :=
  match d.session.buffer.nodes.find? (·.id = id) with
  | some n => Reply.success [("node", n.toJson)]
  | none => Reply.detail 404 "Node not found".toList

def locationReply (missing : String) : Option Location → Reply
  | some l => Reply.success [("location", l.toJson)]
  | none => Reply.detail 404 missing.toList

def historyReply (missing : String) : Option Text → Reply
  | some code => Reply.success [("code", .text code)]
  | none => .answered 200 (.ofMembers [("success", .bool false), ("message", .text missing.toList)])

/-- The element of a rendered drawing traced back to its node, and whether that is in use. -/
def elementReply (d : Desk) (element : Text) : Reply :=
  match RenderedElement.node? element with
  | none => Reply.success [("node_id", .null), ("exists", .bool false)]
  | some node =>
    recovered (fun ids =>
      Reply.success [("node_id", .text node), ("exists", .bool (ids.contains node))])
      d.session.buffer.ids

/-- A request served at an endpoint; `connections` is how many clients are connected, and `now` the
time. -/
def serve (d : Desk) (connections now : Nat) (body : Text) : Endpoint → Served
  | .health =>
    d.answer (.answered 200
      (.ofMembers [("status", .text "ok".toList), ("connections", .ofNat connections)]))
  | .state => d.answer (.answered 200 d.session.toJson)
  | .code => d.answer (.answered 200 (.ofMembers [("code", .text d.session.code)]))
  | .setCode =>
    d.withBody body Request.SetCode.check fun r => d.change (d.session.setCode r.code r.record)
  | .summary =>
    d.answer (recovered (fun summary => Reply.success [("summary", summary.toJson)])
      (Summary.ofText Summary.defaultTop d.session.code))
  | .undo => d.perform d.session.undo (historyReply "Nothing to undo")
  | .redo => d.perform d.session.redo (historyReply "Nothing to redo")
  | .direction =>
    d.answer (.answered 200 (.ofMembers [("direction", (Header.direction d.session.code).toJson)]))
  | .setDirection =>
    d.withBody body Request.SetDirection.check fun r =>
      d.change (d.session.edit (.setDirection r.direction.token))
  | .nodes => d.answer (Reply.success [("nodes", .list (d.session.buffer.nodes.map Node.toJson))])
  | .insertNode =>
    d.withBody body Request.InsertNode.check fun r =>
      d.perform (d.session.insertNode r.anchor r.label r.shape.name r.id now) fun id =>
        Reply.changed id.isSome [("node_id", .ofText? id)]
  | .nextId =>
    d.answer (recovered (fun id => .answered 200 (.ofMembers [("node_id", .text id)]))
      (d.session.nextId now))
  | .node id => d.answer (d.nodeReply id)
  | .updateNode id => d.withBody body Request.UpdateNode.check fun r => d.updateNode id r
  | .deleteNode id => d.change (d.session.deleteNode id)
  | .duplicateNode id =>
    d.perform (d.session.duplicateNode id now) fun copy =>
      Reply.changed copy.isSome [("node_id", .ofText? copy)]
  | .nodeLocation id => d.answer (locationReply "Node not found" (d.session.buffer.locateNode id))
  | .nodeStyle id =>
    d.answer (recovered (fun style => Reply.success [("style", style.setToJson)])
      (d.session.nodeStyle id))
  | .restyleNode id =>
    d.withBody body Style.check fun style => d.change (d.session.restyleNode id style)
  | .edges => d.answer (Reply.success [("edges", .list (d.session.buffer.edges.map Edge.toJson))])
  | .createEdge =>
    d.withBody body Request.CreateEdge.check fun r =>
      d.change (d.session.edit (.connect r.source r.target (r.label.getD []) r.arrow.glyph))
  | .updateEdge => d.withBody body Request.UpdateEdge.check d.updateEdge
  | .deleteEdge =>
    d.withBody body Request.OfEdge.check fun r => d.change (d.session.deleteEdge r.edge)
  | .edgeLocation =>
    d.withBody body Request.OfEdge.check fun r =>
      d.answer (locationReply "Edge not found" (d.session.buffer.locateEdge r.edge))
  | .subgraphs =>
    d.answer (Reply.success [("subgraphs", .list (d.session.buffer.subgraphs.map Subgraph.toJson))])
  | .createSubgraph =>
    d.withBody body Request.CreateSubgraph.check fun r =>
      d.change (d.session.edit (.insertSubgraph r.id r.title r.members))
  | .updateSubgraph id =>
    d.withBody body Request.UpdateSubgraph.check fun r =>
      d.change (d.session.edit (.retitleSubgraph id r.title))
  | .deleteSubgraph id => d.change (d.session.deleteSubgraph id)
  | .addMember subgraph node => d.change (d.session.edit (.addMember subgraph node))
  | .removeMember subgraph node => d.change (d.session.edit (.removeMember subgraph node))
  | .restyleSubgraph id =>
    d.withBody body Style.check fun style => d.change (d.session.edit (.restyle id style))
  | .styles =>
    let written (styles : List StyleLine) : Json :=
      .object (styles.map fun s => (s.id, s.style.setToJson))
    d.answer
      (recovered (fun styles => Reply.success [("styles", written styles)]) d.session.buffer.styles)
  | .selection => d.answer (.answered 200 d.session.selection.toJson)
  | .select =>
    d.withBody body Request.Select.check fun r =>
      let o := d.session.select (targetOf r)
      d.perform o fun _ => Reply.success [("selection", o.session.selection.toJson)]
  | .renderResult =>
    d.withBody body Request.RenderResult.check fun r =>
      let session := d.session.setRenderResult r.error
      ⟨Reply.success [("render_error", .ofText? session.renderError)],
        { d with session := session }, false, true⟩
  | .resolveElement =>
    d.withBody body Request.ResolveElement.check fun r => d.answer (d.elementReply r.element)
  | .newFile =>
    d.perform (d.session.reset defaultCode) fun _ => Reply.success [("code", .text defaultCode)]
  | .openFile => d.withBody body Request.OpenFile.check d.openFile
  | .saveFile => d.withBody body Request.SaveFile.check d.saveFile
  | .shapes =>
    d.answer (.answered 200 (.ofMembers [("shapes", .ofTexts (Shape.all.map Shape.name))]))
  | .arrows =>
    d.answer (.answered 200 (.ofMembers [("arrows", .ofTexts (Arrow.all.map Arrow.glyph))]))

/-- The reply to a path that names nothing: 307 if it does without the slashes at its end, and 404
otherwise. -/
def unknownPath (path : Text) : Reply :=
  if (Endpoint.ofPath (Endpoint.withoutSlashes path)).isEmpty then
    Reply.detail 404 "Not Found".toList
  else .answered 307 .null

/-- A request served; 405 for a method that the path does not have. -/
def request (d : Desk) (connections now : Nat) (method : String) (path body : Text) : Served :=
  match Endpoint.ofPath path with
  | [] => d.answer (unknownPath path)
  | endpoints =>
    match endpoints.find? (·.1 = method) with
    | some (_, endpoint) =>
      let served := d.serve connections now body endpoint
      { served with reply := served.reply.sent }
    | none => d.answer (Reply.detail 405 "Method Not Allowed".toList)

end Desk
end Chartwright
