import Chartwright.Session.Basic
/-!
Operations: what can be asked of a session, as values, and what comes of performing them one after
the other.

Main statement: a run of operations can be cut anywhere (`run_append`).
-/
namespace Chartwright

/-- What can be asked of a session. Shapes, arrows and directions are given by name; what may hand
out an identifier carries the time. -/
inductive Operation where
  | setCode (code : Text) (record : Bool)
  | undo
  | redo
  | select (target : Target)
  | setDirection (direction : Text)
  | insertNode (anchor label shape : Text) (id : Option Text) (now : Nat)
  | relabelNode (id label : Text)
  | reshapeNode (id shape : Text)
  | deleteNode (id : Text)
  | duplicateNode (id : Text) (now : Nat)
  | connect (source target label arrow : Text)
  | deleteEdge (edge : Edge)
  | relabelEdge (edge : Edge) (label : Text)
  | rearrowEdge (edge : Edge) (arrow : Text)
  | insertSubgraph (id title : Text) (members : List Text)
  | retitleSubgraph (id title : Text)
  | deleteSubgraph (id : Text)
  | addMember (subgraph node : Text)
  | removeMember (subgraph node : Text)
  | restyleNode (id : Text) (style : Style)
  | restyleSubgraph (id : Text) (style : Style)
  | setRenderResult (error : Option Text)
  | reset (code : Text)
  | load (path : Path)
  | save (path : Option Path)
deriving DecidableEq, Repr

/-- The result of an operation that has not failed: whether it changed the text, a text it may have
come by, or the path that was saved to. -/
inductive Answer where
  | nothing
  | changed (isChanged : Bool)
  | text (t : Option Text)
  | saved (path : Path)
deriving DecidableEq, Repr

namespace Operation

/-- What comes of an operation on a session with the given files: the files after it, and the
outcome. -/
def perform (s : Session) (store : Store) : Operation → Store × Outcome Answer
  | setCode code record => (store, (s.setCode code record).map .changed)
  | undo => (store, s.undo.map .text)
  | redo => (store, s.redo.map .text)
  | select target => (store, (s.select target).map fun _ => .nothing)
  | setDirection direction => (store, (s.edit (.setDirection direction)).map .changed)
  | insertNode anchor label shape id now =>
    (store, (s.insertNode anchor label shape id now).map .text)
  | relabelNode id label => (store, (s.edit (.relabelNode id label)).map .changed)
  | reshapeNode id shape => (store, (s.edit (.reshapeNode id shape)).map .changed)
  | deleteNode id => (store, (s.deleteNode id).map .changed)
  | duplicateNode id now => (store, (s.duplicateNode id now).map .text)
  | connect source target label arrow =>
    (store, (s.edit (.connect source target label arrow)).map .changed)
  | deleteEdge edge => (store, (s.deleteEdge edge).map .changed)
  | relabelEdge edge label => (store, (s.relabelEdge edge label).map .changed)
  | rearrowEdge edge arrow => (store, (s.rearrowEdge edge arrow).map .changed)
  | insertSubgraph id title members =>
    (store, (s.edit (.insertSubgraph id title members)).map .changed)
  | retitleSubgraph id title => (store, (s.edit (.retitleSubgraph id title)).map .changed)
  | deleteSubgraph id => (store, (s.deleteSubgraph id).map .changed)
  | addMember subgraph node => (store, (s.edit (.addMember subgraph node)).map .changed)
  | removeMember subgraph node => (store, (s.edit (.removeMember subgraph node)).map .changed)
  | restyleNode id style => (store, (s.restyleNode id style).map .changed)
  | restyleSubgraph id style => (store, (s.edit (.restyle id style)).map .changed)
  | setRenderResult error => (store, (s.setRenderResult error).keep .nothing)
  | reset code => (store, (s.reset code).map fun _ => .nothing)
  | load path => (store, (s.load store path).map fun code => .text (some code))
  | save path => ((s.save store path).1, (s.save store path).2.map .saved)

/-- The session and the files after a run of operations, failed ones included. -/
def run (s : Session) (store : Store) : List Operation → Session × Store
  | [] => (s, store)
  | op :: rest => run (op.perform s store).2.session (op.perform s store).1 rest

theorem run_append (s : Session) (store : Store) (before after : List Operation) :
    run s store (before ++ after) = run (run s store before).1 (run s store before).2 after := by
  induction before generalizing s store with
  | nil => rfl
  | cons op rest ih => exact ih _ _

end Operation
end Chartwright
