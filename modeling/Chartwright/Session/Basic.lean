import Chartwright.Edit.Command
import Chartwright.Files.Store
import Chartwright.Session.History
import Chartwright.Session.SavedState
import Chartwright.Session.Selection
/-!
A session: the text that is being edited, its history, the selection, the styles set for nodes, the
last error of a rendering, and the file it belongs to.

An operation takes a session to an outcome: its result or failure, the session after it, and the
notices it gave on the way. A notice shows what a listener finds when it is called; listeners are
called after every change of the text or the selection. Most failures come before anything has
changed. The exception is a text in which the selected node cannot be looked for: it is in place by
then, but no listener has been called.
-/
namespace Chartwright

structure Session where
  code : Text
  history : History
  selection : Selection
  overrides : List (Text × Style)
  renderError : Option Text
  path : Option Path
  dirty : Bool
deriving DecidableEq, Repr

/-- What a listener finds when it is called. -/
structure Notice where
  code : Text
  selection : Selection
deriving DecidableEq, Repr

/-- Why an operation of a session fails. -/
inductive SessionError where
  | unknownName (e : UnknownName)
  | tooLong (e : Integer.TooLong)
  | tooDeep (innermost : Json.Container)
  | noStateFile (path : Path)
  | invalidState (path : Path) (fault : StateFault)
  | file (e : FileError)
  | noPath
deriving DecidableEq, Repr

namespace SessionError

def ofEdit : EditError → SessionError
  | .unknownName e => unknownName e
  | .tooLong e => tooLong e

/-- Why the state at a path is not loaded. -/
def ofState (path : Path) : StateError → SessionError
  | .invalid fault => invalidState path fault
  | .tooLong e => tooLong e
  | .tooDeep innermost => tooDeep innermost

def containerName : Json.Container → Text
  | .list => "array".toList
  | .object => "object".toList

def message : SessionError → Text
  | unknownName e => e.message
  | tooLong e => e.message
  | tooDeep innermost =>
    "maximum recursion depth exceeded while decoding a JSON ".toList ++ containerName innermost ++
      " from a unicode string".toList
  | noStateFile path => "Editor state file not found: ".toList ++ path.toText
  | invalidState path _ => "Invalid editor state file ".toList ++ path.toText
  | file e => e.message
  | noPath => "No file path specified and no current file path".toList

end SessionError

/-- The result of an operation, the session after it, and the notices in the order they were
given. -/
structure Outcome (α : Type) where
  result : Except SessionError α
  session : Session
  notices : List Notice

namespace Outcome

variable {α β : Type}

def map (f : α → β) (o : Outcome α) : Outcome β := { o with result := o.result.map f }

/-- A further operation with the result of this one, on the session after it; none after a
failure. -/
def andThen (o : Outcome α) (next : α → Session → Outcome β) : Outcome β :=
  match o.result with
  | .ok a => { next a o.session with notices := o.notices ++ (next a o.session).notices }
  | .error e => ⟨.error e, o.session, o.notices⟩

end Outcome

namespace Session

/-- A new session that edits a text. -/
def start (limit : Nat) (code : Text) : Session where
  code := code
  history := History.start limit code
  selection := Selection.none
  overrides := []
  renderError := none
  path := none
  dirty := false

/-- A new session, if the history can keep that many snapshots. -/
def start? (limit : Int) (code : Text) : Except HistoryError Session :=
  (History.start? limit code).map fun h => { start h.limit code with history := h }

def buffer (s : Session) : Buffer := Buffer.ofText s.code

def notice (s : Session) : Notice := ⟨s.code, s.selection⟩

/-- The outcome of an operation after which the listeners are called. -/
def announce {α : Type} (s : Session) (value : α) : Outcome α := ⟨.ok value, s, [s.notice]⟩

/-- The outcome of an operation that calls no listener. -/
def keep {α : Type} (s : Session) (value : α) : Outcome α := ⟨.ok value, s, []⟩

/-- The outcome of an operation that fails and calls no listener. -/
def fail {α : Type} (s : Session) (e : SessionError) : Outcome α := ⟨.error e, s, []⟩

/-! ## The text and its history -/

/-- Another text in place of the present one, and what is left of the selection in it. -/
def adopt {α : Type} (s : Session) (code : Text) (value : α) : Outcome α :=
  match s.selection.revalidate code with
  | .ok selection =>
    ({ s with code := code, dirty := true, selection := selection } : Session).announce value
  | .error e => ({ s with code := code, dirty := true } : Session).fail (.tooLong e)

/-- Replace the text, as a step of the history or without one. The result tells whether the text is
another. -/
def setCode (s : Session) (code : Text) (record : Bool) : Outcome Bool :=
  if code = s.code then s.keep false
  else (if record then { s with history := (s.history.record code).2 } else s).adopt code true

/-- One step back in the history, and the text that is restored. -/
def undo (s : Session) : Outcome (Option Text) :=
  match s.history.undo? with
  | none => s.keep none
  | some (code, h) => ({ s with history := h } : Session).adopt code (some code)

/-- One step forward in the history, and the text that is restored. -/
def redo (s : Session) : Outcome (Option Text) :=
  match s.history.redo? with
  | none => s.keep none
  | some (code, h) => ({ s with history := h } : Session).adopt code (some code)

/-- A new document. -/
def reset (s : Session) (code : Text) : Outcome Unit :=
  ({ start s.history.limit code with history := s.history.reset code } : Session).announce ()

/-! ## Selection -/

def select (s : Session) (target : Target) : Outcome Unit :=
  ({ s with selection := s.selection.choose target } : Session).announce ()

/-- The selection is cleared if a condition holds of it. -/
def deselectIf {α : Type} (s : Session) (condition : Selection → Bool) (value : α) : Outcome α :=
  if condition s.selection then (s.select .none).map fun _ => value else s.keep value

/-! ## Edits -/

/-- A command on the text, as one step of the history. The result tells whether the text is
another. -/
def edit (s : Session) (c : Command) : Outcome Bool :=
  match c.run s.code with
  | .ok code => s.setCode code true
  | .error e => s.fail (.ofEdit e)

/-- The next free identifier, at a time. -/
def nextId (s : Session) (now : Nat) : Except Integer.TooLong Text :=
  s.buffer.ids.map (NextId.next now)

/-- Insert a node after an anchor under an identifier. The result is the identifier, or nothing if
the text stayed as it was. -/
def insertNodeAs (s : Session) (anchor label shape id : Text) : Outcome (Option Text) :=
  (s.edit (.insertNode anchor id label shape)).map fun changed => if changed then some id else none

/-- The same under the next free identifier if none is given. -/
def insertNode (s : Session) (anchor label shape : Text) (id : Option Text) (now : Nat) :
    Outcome (Option Text) :=
  match id with
  | some (c :: cs) => s.insertNodeAs anchor label shape (c :: cs)
  | _ =>
    match s.nextId now with
    | .ok id => s.insertNodeAs anchor label shape id
    | .error e => s.fail (.tooLong e)

/-- Delete a node from the text, with the style that was set for it. -/
def deleteNode (s : Session) (id : Text) : Outcome Bool :=
  (s.setCode (Command.onLines (·.deleteNode id) s.code) true).andThen fun changed s =>
    if changed then
      ({ s with overrides := Assoc.remove id s.overrides } : Session).deselectIf (·.isNode id) true
    else s.keep false

/-- Copy a node with its edges and the style set for it. The result is the identifier of the
copy. -/
def duplicateNode (s : Session) (id : Text) (now : Nat) : Outcome (Option Text) :=
  match s.buffer.duplicateNode? id now with
  | .error e => s.fail (.tooLong e)
  | .ok none => s.keep none
  | .ok (some (b, copy)) =>
    let overrides :=
      match Assoc.find? id s.overrides with
      | some style => Assoc.put copy style s.overrides
      | none => s.overrides
    (({ s with overrides := overrides } : Session).setCode b.toText true).map fun _ => some copy

/-- Delete an edge. Another edge may have moved to its line, so it is not selected any more. -/
def deleteEdge (s : Session) (e : Edge) : Outcome Bool :=
  (s.setCode (Command.onLines (·.deleteEdge e) s.code) true).andThen fun changed s =>
    if changed then s.deselectIf (·.isEdge e) true else s.keep false

/-- Select the edge that is now on a line, if there is one. -/
def reselect {α : Type} (s : Session) (line : Int) (value : α) : Outcome α :=
  match s.buffer.edges.find? (·.line = line) with
  | some e => (s.select (.edge e)).map fun _ => value
  | none => s.keep value

/-- A command on an edge, which stays selected if it was. -/
def editEdge (s : Session) (e : Edge) (c : Command) : Outcome Bool :=
  (s.edit c).andThen fun changed after =>
    if changed && s.selection.isEdge e then after.reselect e.line true else after.keep changed

def relabelEdge (s : Session) (e : Edge) (label : Text) : Outcome Bool :=
  s.editEdge e (.relabelEdge e label)

def rearrowEdge (s : Session) (e : Edge) (arrow : Text) : Outcome Bool :=
  s.editEdge e (.rearrowEdge e arrow)

def deleteSubgraph (s : Session) (id : Text) : Outcome Bool :=
  (s.setCode (Command.onLines (·.deleteSubgraph id) s.code) true).andThen fun changed s =>
    if changed then s.deselectIf (·.isGroup id) true else s.keep false

/-! ## Styles -/

/-- The style that was set for a node. -/
def override (s : Session) (id : Text) : Style := (Assoc.find? id s.overrides).getD Style.empty

/-- Set some looks of a node, here and in the text. A change counts wherever it was made; the one
here is made even if the other fails. -/
def restyleNode (s : Session) (id : Text) (style : Style) : Outcome Bool :=
  let merged := (s.override id).merge style
  (({ s with overrides := Assoc.put id merged s.overrides } : Session).edit
    (.restyle id style)).andThen fun changed after =>
      if !changed && merged != s.override id then
        ({ after with dirty := true } : Session).announce true
      else after.keep changed

/-- How a node looks: what the text sets, over what was set here, over the defaults. -/
def nodeStyle (s : Session) (id : Text) : Except Integer.TooLong Style :=
  (s.buffer.style? id).map fun set =>
    (Style.default.merge (s.override id)).merge (set.getD Style.empty)

/-! ## Rendering -/

/-- Keep the error of a rendering; none, or one without a message, clears it. -/
def setRenderResult (s : Session) (error : Option Text) : Session :=
  { s with renderError := error.filter fun message => !message.isEmpty }

/-! ## Files -/

/-- What is saved of a session. -/
def saved (s : Session) : SavedState := ⟨s.code, s.overrides⟩

/-- A session that edits what was saved at a path. -/
def withSaved (s : Session) (path : Path) (state : SavedState) : Session where
  code := state.code
  history := s.history.reset state.code
  selection := s.selection.clear
  overrides := state.styles
  renderError := none
  path := some path
  dirty := false

/-- Load what was saved at a path. The history starts over. -/
def load (s : Session) (store : Store) (path : Path) : Outcome Text :=
  match store.contains path with
  | .error e => s.fail (.file e)
  | .ok false => s.fail (.noStateFile path)
  | .ok true =>
    match store.read path with
    | .error e => s.fail (.file e)
    | .ok content =>
      match SavedState.read content with
      | .error e => s.fail (.ofState path e)
      | .ok state => (s.withSaved path state).announce state.code

/-- The path that a session is saved to: the one given, or the one it belongs to. -/
def savePath? (s : Session) (given : Option Path) : Option Path := given <|> s.path

/-- Save to a path, or to the file the session belongs to. Folders on the way are made, and stay
also if the file cannot be written. A file that is written only in part stays as well. -/
def save (s : Session) (store : Store) (given : Option Path) : Store × Outcome Path :=
  match s.savePath? given with
  | none => (store, s.fail .noPath)
  | some path =>
    match store.ensureFolder path.parent with
    | (store, some e) => (store, s.fail (.file e))
    | (store, none) =>
      match store.write path s.saved.write.text with
      | .error e => (store, s.fail (.file e))
      | .ok store =>
        match s.saved.write.failure with
        | some e => (store, s.fail (.tooLong e))
        | none => (store, ({ s with path := some path, dirty := false } : Session).keep path)

/-- A path as a caller writes it; an empty text is none. -/
def pathOf? (t : Text) : Option Path := if t.isEmpty then none else some (Path.ofText t)

/-- All of a session that a client is shown. -/
def toJson (s : Session) : Json :=
  .ofMembers [("code", .text s.code), ("direction", (Header.direction s.code).toJson),
    ("selection", s.selection.toJson),
    ("node_styles", .object (s.overrides.map fun (id, style) => (id, style.setToJson))),
    ("render_error", .ofText? s.renderError), ("file_path", .ofText? (s.path.map Path.toText)),
    ("is_dirty", .bool s.dirty), ("can_undo", .bool s.history.canUndo),
    ("can_redo", .bool s.history.canRedo)]

end Session
end Chartwright
